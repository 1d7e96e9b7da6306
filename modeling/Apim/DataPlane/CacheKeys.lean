import Apim.DataPlane.ResponseCache

/-!
# What a stored response is found under

`cacheKeyFor` (`data-plane/src/cache.ts:37-47`) joins what a response depends on with bars, and does
not escape the bars that are in it. The key says no more than the pieces between the bars
(`cacheKeyFor_eq_iff`), so two requests may share a key that differ in what the unit varies by.
-/

namespace Apim.DataPlane.Caching

open Apim.Overlay Apim.Trace Delivery

/-! ### The key -/

structure CacheKeyInput where
  configDigest : String
  routeId : String
  method : String
  pathAndQuery : String
  subscriptionId : Option String
  headers : Headers

structure Varies where
  varyBySubscription : Bool := false
  vary : List String := []
  deriving DecidableEq, Repr

def CacheKeyInput.valueOf (input : CacheKeyInput) (name : String) : String :=
  (input.headers.get name).getD ""

def parts (unit : Varies) (input : CacheKeyInput) : List String :=
  [input.configDigest, input.routeId, upperCase input.method, input.pathAndQuery] ++
    (if unit.varyBySubscription then ["sub=" ++ input.subscriptionId.getD "-"] else []) ++
    unit.vary.map fun name => lowerCase name ++ "=" ++ input.valueOf name

def cacheKeyFor (unit : Varies) (input : CacheKeyInput) : String :=
  "|".intercalate (parts unit input)

structure Agree (unit : Varies) (a b : CacheKeyInput) : Prop where
  configDigest : a.configDigest = b.configDigest
  routeId : a.routeId = b.routeId
  method : upperCase a.method = upperCase b.method
  pathAndQuery : a.pathAndQuery = b.pathAndQuery
  subscriptionId : unit.varyBySubscription = true → a.subscriptionId = b.subscriptionId
  vary : ∀ name ∈ unit.vary, a.valueOf name = b.valueOf name

/-! ### Pieces -/

def cuts (part : String) : List (List Char) := part.toList.splitOn '|'

def pieces (unit : Varies) (input : CacheKeyInput) : List (List Char) :=
  (parts unit input).flatMap cuts

def shape (unit : Varies) (input : CacheKeyInput) : List Nat :=
  (parts unit input).map fun part => (cuts part).length

theorem cuts_injective : Function.Injective cuts := by
  intro a b h
  have hjoined := congrArg (List.intercalate ['|']) h
  rw [cuts, cuts, List.intercalate_splitOn, List.intercalate_splitOn] at hjoined
  exact String.toList_injective hjoined

theorem cuts_intercalate {texts : List String} (h : texts ≠ []) :
    cuts ("|".intercalate texts) = texts.flatMap cuts := by
  induction texts with
  | nil => exact absurd rfl h
  | cons text texts ih =>
    cases texts with
    | nil => simp [String.intercalate_singleton]
    | cons next rest =>
      have hjoined : ("|".intercalate (text :: next :: rest)).toList =
          text.toList ++ '|' :: ("|".intercalate (next :: rest)).toList := by
        rw [String.intercalate_cons_of_ne_nil (List.cons_ne_nil _ _), String.toList_append,
          String.toList_append, List.append_assoc]
        rfl
      rw [cuts, hjoined, List.splitOn_append_cons_self, List.flatMap_cons,
        ← ih (List.cons_ne_nil _ _)]
      rfl

theorem parts_ne_nil (unit : Varies) (input : CacheKeyInput) : parts unit input ≠ [] := by
  simp [parts]

theorem cacheKeyFor_eq_iff {unit unit' : Varies} {a b : CacheKeyInput} :
    cacheKeyFor unit a = cacheKeyFor unit' b ↔ pieces unit a = pieces unit' b := by
  have ha : cuts (cacheKeyFor unit a) = pieces unit a := cuts_intercalate (parts_ne_nil unit a)
  have hb : cuts (cacheKeyFor unit' b) = pieces unit' b := cuts_intercalate (parts_ne_nil unit' b)
  rw [← ha, ← hb]
  exact cuts_injective.eq_iff.symm

theorem parts_eq_of_shape {unit unit' : Varies} {a b : CacheKeyInput}
    (hpieces : pieces unit a = pieces unit' b) (hshape : shape unit a = shape unit' b) :
    parts unit a = parts unit' b := by
  have hcuts : (parts unit a).map cuts = (parts unit' b).map cuts := by
    refine List.eq_iff_flatten_eq.mpr ⟨?_, ?_⟩
    · exact hpieces
    · rw [List.map_map, List.map_map]
      exact hshape
  exact List.map_injective_iff.mpr cuts_injective hcuts

/-! ### The unit of a request -/

/-- A configuration has one unit for a route, a method and a path, so the digest and these say which
unit a request has. -/
abbrev UnitOf := String → String → String → String → Varies

section
variable (unitOf : UnitOf)

def CacheKeyInput.unit (input : CacheKeyInput) : Varies :=
  unitOf input.configDigest input.routeId (upperCase input.method) input.pathAndQuery

def CacheKeyInput.key (input : CacheKeyInput) : String := cacheKeyFor (input.unit unitOf) input

/-- Two requests with the same pieces have them spread over their parts alike, and where their unit
varies by subscription they have one or none, both of them. -/
def Distinct (a b : CacheKeyInput) : Prop :=
  pieces (a.unit unitOf) a = pieces (b.unit unitOf) b →
    shape (a.unit unitOf) a = shape (b.unit unitOf) b ∧
      ((a.unit unitOf).varyBySubscription = true →
        a.subscriptionId.isSome = b.subscriptionId.isSome)

theorem unit_eq {a b : CacheKeyInput} (hdigest : a.configDigest = b.configDigest)
    (hroute : a.routeId = b.routeId) (hmethod : upperCase a.method = upperCase b.method)
    (hpath : a.pathAndQuery = b.pathAndQuery) : a.unit unitOf = b.unit unitOf := by
  rw [CacheKeyInput.unit, CacheKeyInput.unit, hdigest, hroute, hmethod, hpath]

theorem parts_eq_of_agree {unit : Varies} {a b : CacheKeyInput} (h : Agree unit a b) :
    parts unit a = parts unit b := by
  have hvary : (unit.vary.map fun name => lowerCase name ++ "=" ++ a.valueOf name) =
      unit.vary.map fun name => lowerCase name ++ "=" ++ b.valueOf name :=
    List.map_congr_left fun name hname => by rw [h.vary name hname]
  have hsub : (if unit.varyBySubscription then ["sub=" ++ a.subscriptionId.getD "-"] else []) =
      if unit.varyBySubscription then ["sub=" ++ b.subscriptionId.getD "-"] else [] := by
    split
    · rename_i hvaries
      rw [h.subscriptionId hvaries]
    · rfl
  rw [parts, parts, h.configDigest, h.routeId, h.method, h.pathAndQuery, hvary, hsub]

theorem append_right_inj {front x y : String} (h : front ++ x = front ++ y) : x = y := by
  have hlists := congrArg String.toList h
  rw [String.toList_append, String.toList_append] at hlists
  exact String.toList_injective (List.append_cancel_left hlists)

theorem agree_of_parts {unit : Varies} {a b : CacheKeyInput} (h : parts unit a = parts unit b)
    (hsome : unit.varyBySubscription = true → a.subscriptionId.isSome = b.subscriptionId.isSome) :
    Agree unit a b := by
  simp only [parts, List.cons_append, List.nil_append, List.cons.injEq] at h
  obtain ⟨hdigest, hroute, hmethod, hpath, hrest⟩ := h
  have hlength : (if unit.varyBySubscription then ["sub=" ++ a.subscriptionId.getD "-"] else []).length =
      (if unit.varyBySubscription then ["sub=" ++ b.subscriptionId.getD "-"] else []).length := by
    split <;> rfl
  obtain ⟨hsub, hvary⟩ := List.append_inj hrest hlength
  refine ⟨hdigest, hroute, hmethod, hpath, fun hvaries => ?_, fun name hname => ?_⟩
  · rw [if_pos hvaries, if_pos hvaries] at hsub
    have hdash := append_right_inj (List.cons.inj hsub).1
    have hboth := hsome hvaries
    cases hsa : a.subscriptionId with
    | none =>
      rw [hsa] at hboth
      exact (Option.isSome_eq_false_iff.mp hboth.symm |> Option.isNone_iff_eq_none.mp).symm
    | some id =>
      rw [hsa] at hboth hdash
      obtain ⟨id', hsb⟩ := Option.isSome_iff_exists.mp hboth.symm
      rw [hsb] at hdash ⊢
      exact congrArg some hdash
  · have hvalue := List.map_inj_left.mp hvary name hname
    exact append_right_inj hvalue

theorem agree_iff_distinct (a b : CacheKeyInput) :
    (a.key unitOf = b.key unitOf → Agree (a.unit unitOf) a b) ↔ Distinct unitOf a b := by
  constructor
  · intro h hpieces
    have hagree := h (cacheKeyFor_eq_iff.mpr hpieces)
    have hunit := unit_eq unitOf hagree.configDigest hagree.routeId hagree.method hagree.pathAndQuery
    refine ⟨?_, fun hvaries => by rw [hagree.subscriptionId hvaries]⟩
    rw [shape, shape, ← hunit, parts_eq_of_agree hagree]
  · intro h hkey
    have hpieces := cacheKeyFor_eq_iff.mp hkey
    obtain ⟨hshape, hsome⟩ := h hpieces
    have hparts := parts_eq_of_shape hpieces hshape
    have hfour := hparts
    simp only [parts, List.cons_append, List.nil_append, List.cons.injEq] at hfour
    obtain ⟨hdigest, hroute, hmethod, hpath, -⟩ := hfour
    have hunit := unit_eq unitOf hdigest hroute hmethod hpath
    rw [← hunit] at hparts
    exact agree_of_parts hparts hsome

end

/-! ### Who a response is served to -/

/-- A cache, with the request each response was stored for and all requests that stored one. -/
structure Serving where
  inner : Instance
  storedFor : Dict String (CacheKeyInput × CachedResponse)
  stored : List CacheKeyInput

def starting (maxEntries maxBytes : Nat) : Serving := ⟨created maxEntries maxBytes, ∅, []⟩

inductive Access where
  /-- The lookup of a request (`data-plane/src/pipeline.ts:1425-1444`). -/
  | lookup (input : CacheKeyInput) (now : Nat)
  /-- The store of what it was answered (`data-plane/src/pipeline.ts:1909-1924`). -/
  | store (input : CacheKeyInput) (entry : CachedResponse)
  | resize (maxEntries maxBytes : Nat)
  | clear

section
variable (unitOf : UnitOf)

def Access.event : Access → Event
  | .lookup input now => .get (input.key unitOf) now
  | .store input entry => .set (input.key unitOf) entry
  | .resize maxEntries maxBytes => .resize maxEntries maxBytes
  | .clear => .clear

def Serving.step (s : Serving) (access : Access) : Option Serving :=
  (Caching.step s.inner (access.event unitOf)).map fun inner =>
    match access with
    | .store input entry =>
      { inner
        storedFor := s.storedFor.insert (input.key unitOf) (input, entry)
        stored := input :: s.stored }
    | _ => { s with inner }

/-- A response that is served was stored last for a request that agrees with this one. -/
def ServesAgreeing (s : Serving) (access : Access) (next : Serving) : Prop :=
  ∀ input now entry, access = .lookup input now → next.inner.result = some entry →
    ∃ asker, s.storedFor.lookup (input.key unitOf) = some (asker, entry) ∧
      Agree (asker.unit unitOf) asker input

/-- The request that is looked up is distinct from those that something was stored for. -/
def LooksUpDistinct (s : Serving) (access : Access) : Prop :=
  ∀ input now, access = .lookup input now → ∀ asker ∈ s.stored, Distinct unitOf asker input

structure Serving.Sound (s : Serving) : Prop where
  inner : s.inner.Sound
  latest : ∀ key entry, s.inner.latest.lookup key = some entry →
    ∃ asker ∈ s.stored, s.storedFor.lookup key = some (asker, entry) ∧ asker.key unitOf = key

theorem serving_sound_starting (maxEntries maxBytes : Nat) :
    (starting maxEntries maxBytes).Sound unitOf :=
  ⟨sound_created maxEntries maxBytes, nofun⟩

variable {unitOf} {s next : Serving} {access : Access}

theorem serving_sound_step (h : s.Sound unitOf) (hstep : s.step unitOf access = some next) :
    next.Sound unitOf := by
  obtain ⟨inner, hinner, rfl⟩ := Option.map_eq_some_iff.mp hstep
  have hsound := sound_step h.inner hinner
  cases access with
  | lookup input now =>
    cases hinner
    exact ⟨hsound, h.latest⟩
  | store input entry =>
    refine ⟨hsound, fun key found hfound => ?_⟩
    cases hinner
    by_cases hkey : key = input.key unitOf
    · subst hkey
      have hnew : (s.inner.latest.insert (input.key unitOf) entry).lookup (input.key unitOf) =
          some found := hfound
      rw [AList.lookup_insert] at hnew
      cases hnew
      exact ⟨input, List.mem_cons_self, AList.lookup_insert s.storedFor, rfl⟩
    · have hold : (s.inner.latest.insert (input.key unitOf) entry).lookup key = some found := hfound
      rw [AList.lookup_insert_ne hkey] at hold
      obtain ⟨asker, hin, hlookup, hasker⟩ := h.latest key found hold
      have hkept : (s.storedFor.insert (input.key unitOf) (input, entry)).lookup key =
          s.storedFor.lookup key := AList.lookup_insert_ne hkey
      exact ⟨asker, List.mem_cons_of_mem _ hin, hkept.trans hlookup, hasker⟩
  | resize maxEntries maxBytes =>
    cases hinner
    exact ⟨hsound, h.latest⟩
  | clear =>
    cases hinner
    exact ⟨hsound, h.latest⟩

theorem servesAgreeing_of_distinct (h : s.Sound unitOf) (hdistinct : LooksUpDistinct unitOf s access)
    (hstep : s.step unitOf access = some next) : ServesAgreeing unitOf s access next := by
  intro input now entry haccess hresult
  subst haccess
  obtain ⟨inner, hinner, rfl⟩ := Option.map_eq_some_iff.mp hstep
  have hlatest := ((kept_step h.inner hinner).returned _ now entry rfl hresult).1
  obtain ⟨asker, hin, hlookup, hkey⟩ := h.latest _ entry hlatest
  refine ⟨asker, hlookup, ?_⟩
  exact (agree_iff_distinct unitOf asker input).mpr (hdistinct input now rfl asker hin) hkey

end

/-- Requests with one key agree if and only if their pieces are spread alike; and in a run all of
whose lookups are distinct from what was stored, a response is only served to a request that agrees
with the one it was stored for. -/
theorem keys_distinct_iff (unitOf : UnitOf) :
    (∀ a b : CacheKeyInput, (a.key unitOf = b.key unitOf → Agree (a.unit unitOf) a b) ↔
      Distinct unitOf a b) ∧
    ∀ maxEntries maxBytes accesses,
      EveryStep (Serving.step unitOf) (fun s access _ => LooksUpDistinct unitOf s access)
        (starting maxEntries maxBytes) accesses →
      EveryStep (Serving.step unitOf) (ServesAgreeing unitOf) (starting maxEntries maxBytes)
        accesses := by
  refine ⟨agree_iff_distinct unitOf, fun maxEntries maxBytes accesses hlookups => ?_⟩
  have hstep : ∀ s access next, s.Sound unitOf → LooksUpDistinct unitOf s access →
      s.step unitOf access = some next → next.Sound unitOf ∧ ServesAgreeing unitOf s access next :=
    fun s access next hs hdistinct hnext =>
      ⟨serving_sound_step hs hnext, servesAgreeing_of_distinct hs hdistinct hnext⟩
  exact everyStep_of_guarded hstep (serving_sound_starting unitOf maxEntries maxBytes) hlookups

def byTwoHeaders : UnitOf := fun _ _ _ _ => { vary := ["x-tenant", "x-role"] }

def requestWith (tenant role : String) : CacheKeyInput where
  configDigest := "d1"
  routeId := "pets"
  method := "GET"
  pathAndQuery := "/pets"
  subscriptionId := none
  headers := (Headers.empty.set "x-tenant" tenant).set "x-role" role

theorem headers_collide :
    (requestWith "a|x-role=b" "c").key byTwoHeaders = (requestWith "a" "b|x-role=c").key byTwoHeaders ∧
      ¬ Agree (byTwoHeaders "d1" "pets" "GET" "/pets") (requestWith "a|x-role=b" "c")
        (requestWith "a" "b|x-role=c") := by
  refine ⟨by decide +kernel, fun h => ?_⟩
  have htenant := h.vary "x-tenant" (by decide)
  revert htenant
  decide +kernel

end Apim.DataPlane.Caching
