import Apim.Lib.Overlay
import Apim.Shared.Routing

/-!
# Headers, queries and bodies

The parts of a request the pipeline reads and writes. A body is the chunks it arrives in and how
they end; the readers of `data-plane/src/pipeline.ts:2473-2577` take it apart, and what is used of
them is which bytes a stream that was read from still carries (`Stream.Same`).
-/

namespace Apim.DataPlane

open Apim.Overlay

abbrev Bytes := List UInt8

def lowerCase (s : String) : String := String.ofList (s.toList.map Char.toLower)

def upperCase (s : String) : String := String.ofList (s.toList.map Char.toUpper)

/-! ### Headers -/

@[ext]
structure Headers where
  fields : Dict String String

namespace Headers

def empty : Headers := ⟨∅⟩

def get (h : Headers) (name : String) : Option String := h.fields.lookup (lowerCase name)

def set (h : Headers) (name value : String) : Headers := ⟨h.fields.insert (lowerCase name) value⟩

def delete (h : Headers) (name : String) : Headers := ⟨h.fields.erase (lowerCase name)⟩

def append (h : Headers) (name value : String) : Headers :=
  match h.get name with
  | some before => h.set name (before ++ ", " ++ value)
  | none => h.set name value

def put (h : Headers) (name : String) : Option String → Headers
  | some value => h.set name value
  | none => h.delete name

theorem get_set (h : Headers) (name value other : String) :
    (h.set name value).get other = if lowerCase other = lowerCase name then some value else h.get other := by
  by_cases heq : lowerCase other = lowerCase name
  · rw [if_pos heq, get, set, heq, AList.lookup_insert]
  · rw [if_neg heq, get, set, AList.lookup_insert_ne heq, get]

theorem get_delete (h : Headers) (name other : String) :
    (h.delete name).get other = if lowerCase other = lowerCase name then none else h.get other := by
  by_cases heq : lowerCase other = lowerCase name
  · rw [if_pos heq, get, delete, heq, AList.lookup_erase]
  · rw [if_neg heq, get, delete, AList.lookup_erase_ne heq, get]

theorem get_put (h : Headers) (name : String) (value : Option String) (other : String) :
    (h.put name value).get other = if lowerCase other = lowerCase name then value else h.get other := by
  cases value with
  | some value => exact get_set h name value other
  | none => exact get_delete h name other

def Alike (a b : Headers) : Prop := ∀ name, a.get name = b.get name

end Headers

/-- `HOP_BY_HOP` (`data-plane/src/pipeline.ts:102-111`). -/
def HOP_BY_HOP : List String :=
  ["connection", "keep-alive", "proxy-authenticate", "proxy-authorization", "te", "trailer",
    "transfer-encoding", "upgrade"]

def Headers.endToEnd (h : Headers) : Headers :=
  ⟨select (fun name _ => !HOP_BY_HOP.contains name) h.fields⟩

theorem Headers.get_endToEnd (h : Headers) (name : String) :
    h.endToEnd.get name = if HOP_BY_HOP.contains (lowerCase name) then none else h.get name := by
  rw [Headers.get, Headers.endToEnd, lookup_select, Headers.get]
  cases hfield : h.fields.lookup (lowerCase name) with
  | none => simp
  | some value =>
    by_cases hhop : HOP_BY_HOP.contains (lowerCase name) = true
    · rw [if_pos hhop, Option.filter_some, hhop]
      rfl
    · rw [if_neg hhop, Option.filter_some, eq_false_of_ne_true hhop]
      rfl

/-! ### Queries -/

abbrev Query := List (String × String)

namespace Query

def get (q : Query) (name : String) : Option String := q.lookup name

def delete (q : Query) (name : String) : Query := q.filter fun param => param.1 != name

/-- `set`: the first parameter of the name takes the value and the others go. -/
def set (q : Query) (name value : String) : Query :=
  match q with
  | [] => [(name, value)]
  | param :: rest =>
    if param.1 = name then (name, value) :: delete rest name else param :: set rest name value

theorem get_delete (q : Query) (name : String) : (q.delete name).get name = none := by
  induction q with
  | nil => rfl
  | cons param rest ih =>
    by_cases hname : param.1 = name
    · rw [delete, List.filter_cons_of_neg (by simpa using hname)]
      exact ih
    · rw [delete, List.filter_cons_of_pos (by simpa using hname), get,
        List.lookup_cons, beq_eq_false_iff_ne.mpr (Ne.symm hname)]
      exact ih

end Query

/-! ### Media types -/

def startsWith (s front : String) : Bool := front.toList.isPrefixOf s.toList
def endsWith (s back : String) : Bool := back.toList.isSuffixOf s.toList

/-- `mediaTypeOf` (`shared/soap.ts`): the media type without parameters, lower-cased. -/
def mediaTypeOf (contentType : Option String) : String :=
  let media := (contentType.getD "").toList.takeWhile (· != ';')
  lowerCase (String.ofList (Routing.trim media))

/-- One pattern of `matchesMedia`: the type, a wildcard, or a wildcard with a suffix. -/
def mediaPattern (media pattern : String) : Bool :=
  let p := lowerCase pattern
  if p = media then true
  else if p = "*/*" then true
  else if endsWith p "/*" then startsWith media (String.ofList p.toList.dropLast)
  else
    -- The suffix loses its plus sign: `application/*+json` also takes what ends in `json`.
    let before := p.toList.takeWhile (· != '*')
    let suffix := (p.toList.dropWhile (· != '*')).drop 1
    if suffix.head? = some '+' then
      before.isPrefixOf media.toList && (suffix.drop 1).isSuffixOf media.toList
    else false

/-- `matchesMedia` (`data-plane/src/pipeline.ts:1952-1966`). -/
def matchesMedia (media : String) (allowed : List String) : Bool :=
  if media = "" then false else allowed.any (mediaPattern media)

def JSON_MEDIA : List String := ["application/json", "application/*+json"]

example : mediaTypeOf (some " Application/JSON; charset=utf-8") = "application/json" := by decide
example : matchesMedia "application/vnd.pets+json" JSON_MEDIA = true := by decide

/-! ### Bodies -/

inductive Ending where
  | done
  | broken
  | overCap
  deriving DecidableEq, Repr

structure Stream where
  chunks : List Bytes
  ending : Ending
  deriving DecidableEq, Repr

variable {max : Nat} {chunks : List Bytes} {ending : Ending} {s : Stream}

namespace Stream

def bytes (s : Stream) : Bytes := s.chunks.flatten

def Same (s t : Stream) : Prop := s.bytes = t.bytes ∧ s.ending = t.ending

def cons (chunk : Bytes) (s : Stream) : Stream := { s with chunks := chunk :: s.chunks }

/-- `cappedBody` (`data-plane/src/pipeline.ts:609-623`) with `used` bytes counted so far. -/
def capFrom (max used : Nat) : List Bytes → Ending → Stream
  | [], ending => ⟨[], ending⟩
  | chunk :: chunks, ending =>
    if max < used + chunk.length then ⟨[], .overCap⟩
    else cons chunk (capFrom max (used + chunk.length) chunks ending)

def capped (s : Stream) (max : Nat) : Stream := capFrom max 0 s.chunks s.ending

/-- `readWholeBody` (`data-plane/src/pipeline.ts:2473-2496`) with `acc` read so far; `none` is its
`overCap`, which a broken stream also gives. -/
def readFrom (max : Nat) (acc : Bytes) : List Bytes → Ending → Option Bytes
  | [], .done => some acc
  | [], _ => none
  | chunk :: chunks, ending =>
    if max < acc.length + chunk.length then none else readFrom max (acc ++ chunk) chunks ending

def readWhole (s : Stream) (max : Nat) : Option Bytes := readFrom max [] s.chunks s.ending

def replay (taken : Bytes) : List Bytes := if taken = [] then [] else [taken]

/-- `takePrefix` (`data-plane/src/pipeline.ts:2528-2577`) with `taken` read so far: the prefix, and
the stream that replays it before the rest; `none` is its `overCap`. -/
def takeFrom (max : Nat) (taken : Bytes) : List Bytes → Ending → Option (Bytes × Stream)
  | [], .done => some (taken, ⟨replay taken, .done⟩)
  | [], ending => if taken.length < max then none else some (taken, ⟨replay taken, ending⟩)
  | chunk :: chunks, ending =>
    if taken.length < max then takeFrom max (taken ++ chunk) chunks ending
    else some (taken, ⟨replay taken ++ chunk :: chunks, ending⟩)

def takePrefix (s : Stream) (max : Nat) : Option (Bytes × Stream) :=
  takeFrom max [] s.chunks s.ending

def ofBytes (bytes : Bytes) : Stream := ⟨replay bytes, .done⟩

theorem bytes_ofBytes (bytes : Bytes) : (ofBytes bytes).bytes = bytes := by
  unfold ofBytes Stream.bytes replay
  split
  · rename_i h
    rw [h]
    rfl
  · simp

theorem readFrom_eq_some {acc bytes : Bytes} (h : readFrom max acc chunks ending = some bytes) :
    bytes = acc ++ chunks.flatten ∧ ending = .done := by
  induction chunks generalizing acc with
  | nil =>
    cases ending with
    | done =>
      cases h
      simp
    | broken | overCap => cases h
  | cons chunk chunks ih =>
    rw [readFrom] at h
    split at h
    · cases h
    · obtain ⟨hbytes, hending⟩ := ih h
      rw [hbytes, List.flatten_cons, List.append_assoc]
      exact ⟨rfl, hending⟩

theorem same_of_readWhole {bytes : Bytes} (h : s.readWhole max = some bytes) :
    (ofBytes bytes).Same s := by
  obtain ⟨hbytes, hending⟩ := readFrom_eq_some h
  refine ⟨?_, hending.symm⟩
  rw [bytes_ofBytes, hbytes]
  rfl

theorem flatten_replay (taken : Bytes) : (replay taken).flatten = taken :=
  bytes_ofBytes taken

theorem takeFrom_eq_some {taken prefix' : Bytes} {rest : Stream}
    (h : takeFrom max taken chunks ending = some (prefix', rest)) :
    rest.bytes = taken ++ chunks.flatten ∧ rest.ending = ending := by
  induction chunks generalizing taken with
  | nil =>
    cases ending with
    | done =>
      cases h
      exact ⟨by rw [bytes, flatten_replay, List.flatten_nil, List.append_nil], rfl⟩
    | broken | overCap =>
      rw [takeFrom] at h
      · split at h
        · cases h
        · cases h
          exact ⟨by rw [bytes, flatten_replay, List.flatten_nil, List.append_nil], rfl⟩
      · simp
  | cons chunk chunks ih =>
    rw [takeFrom] at h
    split at h
    · obtain ⟨hbytes, hending⟩ := ih h
      rw [hbytes, List.flatten_cons, List.append_assoc]
      exact ⟨rfl, hending⟩
    · cases h
      exact ⟨by rw [bytes, List.flatten_append, flatten_replay], rfl⟩

theorem same_of_takePrefix {rest : Stream} {prefix' : Bytes}
    (h : s.takePrefix max = some (prefix', rest)) : rest.Same s :=
  takeFrom_eq_some h

/-! ### Which reads fail -/

theorem readFrom_eq_none {acc : Bytes} (hacc : acc.length ≤ max) :
    readFrom max acc chunks ending = none ↔
      ending ≠ .done ∨ max < acc.length + chunks.flatten.length := by
  induction chunks generalizing acc with
  | nil =>
    cases ending with
    | done => simpa [readFrom] using hacc
    | broken | overCap => simp [readFrom]
  | cons chunk chunks ih =>
    rw [readFrom, List.flatten_cons, List.length_append]
    split
    · rename_i hover
      have hall : max < acc.length + (chunk.length + chunks.flatten.length) := by omega
      exact ⟨fun _ => .inr hall, fun _ => rfl⟩
    · rename_i hunder
      have hlength : (acc ++ chunk).length = acc.length + chunk.length := List.length_append
      rw [ih (by omega), hlength, Nat.add_assoc]

theorem readWhole_eq_none : s.readWhole max = none ↔ s.ending ≠ .done ∨ max < s.bytes.length := by
  have hacc : ([] : Bytes).length ≤ max := Nat.zero_le max
  have h : readFrom max [] s.chunks s.ending = none ↔ _ := readFrom_eq_none hacc
  rw [List.length_nil, Nat.zero_add] at h
  exact h

theorem takeFrom_eq_none {taken : Bytes} :
    takeFrom max taken chunks ending = none ↔
      ending ≠ .done ∧ taken.length + chunks.flatten.length < max := by
  induction chunks generalizing taken with
  | nil => cases ending <;> simp [takeFrom]
  | cons chunk chunks ih =>
    rw [takeFrom, List.flatten_cons, List.length_append]
    split
    · rw [ih, List.length_append, Nat.add_assoc]
    · refine ⟨nofun, fun ⟨_, hlength⟩ => ?_⟩
      omega

theorem takePrefix_eq_none : s.takePrefix max = none ↔ s.ending ≠ .done ∧ s.bytes.length < max := by
  have h : takeFrom max [] s.chunks s.ending = none ↔ _ := takeFrom_eq_none
  rw [List.length_nil, Nat.zero_add] at h
  exact h

theorem capFrom_spec {used : Nat} (chunks : List Bytes) (ending : Ending) (hused : used ≤ max) :
    used + (capFrom max used chunks ending).bytes.length ≤ max ∧
      ((capFrom max used chunks ending).ending = .done ↔
        ending = .done ∧ used + chunks.flatten.length ≤ max) := by
  induction chunks generalizing used with
  | nil => exact ⟨hused, ⟨fun h => ⟨h, hused⟩, And.left⟩⟩
  | cons chunk chunks ih =>
    rw [capFrom, List.flatten_cons, List.length_append]
    split
    · refine ⟨hused, ⟨nofun, fun ⟨_, hlength⟩ => ?_⟩⟩
      omega
    · have hmore : used + chunk.length ≤ max := by omega
      obtain ⟨hlength, hending⟩ := ih hmore
      refine ⟨?_, hending.trans (by rw [Nat.add_assoc])⟩
      rw [cons, bytes, List.flatten_cons, List.length_append]
      have hsame : (capFrom max (used + chunk.length) chunks ending).bytes =
          (capFrom max (used + chunk.length) chunks ending).chunks.flatten := rfl
      rw [hsame] at hlength
      omega

theorem length_capped (s : Stream) (max : Nat) : (s.capped max).bytes.length ≤ max := by
  have h := (capFrom_spec s.chunks s.ending (Nat.zero_le max)).1
  rwa [Nat.zero_add] at h

theorem ending_capped (s : Stream) (max : Nat) :
    (s.capped max).ending = .done ↔ s.ending = .done ∧ s.bytes.length ≤ max := by
  have h := (capFrom_spec s.chunks s.ending (Nat.zero_le max)).2
  rwa [Nat.zero_add] at h

theorem ending_capFrom_of_lt {used : Nat} (chunks : List Bytes) (ending : Ending)
    (hused : used ≤ max) (hover : max < used + chunks.flatten.length) :
    (capFrom max used chunks ending).ending = .overCap := by
  induction chunks generalizing used with
  | nil =>
    have hnone : ([] : List Bytes).flatten.length = 0 := rfl
    omega
  | cons chunk chunks ih =>
    rw [List.flatten_cons, List.length_append] at hover
    rw [capFrom]
    split
    · rfl
    · exact ih (by omega) (by omega)

theorem ending_capped_of_lt (hover : max < s.bytes.length) : (s.capped max).ending = .overCap := by
  refine ending_capFrom_of_lt s.chunks s.ending (Nat.zero_le max) ?_
  rw [Nat.zero_add]
  exact hover

theorem Same.symm {t : Stream} (h : s.Same t) : t.Same s := ⟨h.1.symm, h.2.symm⟩

theorem Same.trans {t u : Stream} (h : s.Same t) (h' : t.Same u) : s.Same u :=
  ⟨h.1.trans h'.1, h.2.trans h'.2⟩

end Stream

end Apim.DataPlane
