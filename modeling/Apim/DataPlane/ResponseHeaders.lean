import Apim.DataPlane.Http
import Apim.DataPlane.Route
import Apim.Shared.Letters

/-!
# The headers of a response

How the headers of a backend's response become the caller's (`data-plane/src/pipeline.ts:1681-1718`):
they are copied one by one, made to fit the body, and then the rate limits, the lifecycle, CORS, the
rules of the owner and the gateway itself write over them. A `Headers` has several values under a
name, as the Fetch standard has it, so what a `set` takes away can be stated.
-/

namespace Apim.DataPlane.ResponseHeaders

/-! ### Headers with all their values -/

abbrev Lines := List (String × String)

namespace Lines

def values (h : Lines) (name : String) : List String :=
  (h.filter fun line => line.1 = lowerCase name).map (·.2)

def get (h : Lines) (name : String) : Option String :=
  match h.values name with
  | [] => none
  | values => some (", ".intercalate values)

def has (h : Lines) (name : String) : Bool := h.any fun line => line.1 = lowerCase name

def append (h : Lines) (name value : String) : Lines := h ++ [(lowerCase name, value)]

def delete (h : Lines) (name : String) : Lines := h.filter fun line => line.1 ≠ lowerCase name

def set : Lines → String → String → Lines
  | [], name, value => [(lowerCase name, value)]
  | line :: rest, name, value =>
    if line.1 = lowerCase name then (lowerCase name, value) :: delete rest name
    else line :: set rest name value

def received (raw : List (String × String)) : Lines := raw.map fun line => (lowerCase line.1, line.2)

/-- What an iteration yields: each `set-cookie` by itself, and every other name once. -/
def iterate (h : Lines) : List (String × String) :=
  (h.map (·.1)).dedup.flatMap fun name =>
    if name = "set-cookie" then (h.values name).map fun value => (name, value)
    else [(name, ", ".intercalate (h.values name))]

end Lines

/-! ### What writes them -/

/-- `rateHeadersOf` and `quotaHeadersOf`, where the units emit them: limit, remaining, reset. -/
def countHeaders (unit : String) : Option (Nat × Nat × Nat) → List (String × String)
  | none => []
  | some (limit, remaining, reset) =>
    [("x-" ++ unit ++ "-limit", toString limit), ("x-" ++ unit ++ "-remaining", toString remaining),
      ("x-" ++ unit ++ "-reset", toString reset)]

/-- `lifecycleHeaders` (`data-plane/src/pipeline.ts:161-169`); `sunset` is `toUTCString` of a date that
is one. -/
def lifecycleHeaders (active : Bool) (sunset : Option String) : List (String × String) :=
  if active then []
  else ("deprecation", "true") :: (sunset.map fun at' => ("sunset", at')).toList

structure CorsUnit where
  origins : List String
  exposeHeaders : List String := []
  credentials : Bool := false
  deriving DecidableEq, Repr

/-- `corsHeaders` (`data-plane/src/pipeline.ts:176-192`). -/
def corsHeaders (unit : Option CorsUnit) (origin : Option String) : List (String × String) :=
  match unit, origin.filter (· ≠ "") with
  | some unit, some origin =>
    if unit.origins.contains "*" || unit.origins.contains origin then
      [("access-control-allow-origin",
          if unit.origins.contains "*" && !unit.credentials then "*" else origin),
        ("vary", "Origin")] ++
      (if unit.credentials then [("access-control-allow-credentials", "true")] else []) ++
      (if unit.exposeHeaders = [] then []
      else [("access-control-expose-headers", ", ".intercalate unit.exposeHeaders)])
    else []
  | _, _ => []

structure Assembly where
  backend : List (String × String)
  passCompressed : Bool
  rate : Option (Nat × Nat × Nat)
  quota : Option (Nat × Nat × Nat)
  active : Bool
  sunset : Option String
  cors : Option CorsUnit
  origin : Option String
  rules : HeaderRulesUnit
  render : String → String
  requestId : String

def listed (value : String) : List String :=
  (value.toList.splitOn ',').map fun name => lowerCase (String.ofList (Routing.trim name))

namespace Assembly

def rateHeaders (i : Assembly) : List (String × String) :=
  countHeaders "ratelimit" i.rate ++ countHeaders "quota" i.quota

def corsOut (i : Assembly) : List (String × String) := corsHeaders i.cors i.origin

def setAll (rows : List (String × String)) (h : Lines) : Lines :=
  rows.foldl (fun h row => h.set row.1 row.2) h

def copied (i : Assembly) : Lines :=
  setAll ((Lines.iterate (Lines.received i.backend)).filter fun row =>
    !HOP_BY_HOP.contains (lowerCase row.1)) []

def framed (i : Assembly) (h : Lines) : Lines :=
  if i.passCompressed then
    if h.has "content-encoding" then
      let vary := h.get "vary"
      if (listed (vary.getD "")).contains "accept-encoding" then h
      else h.set "vary" (match vary.filter (· ≠ "") with
        | some vary => vary ++ ", Accept-Encoding"
        | none => "Accept-Encoding")
    else h
  else (h.delete "content-encoding").delete "content-length"

def ruled (i : Assembly) (h : Lines) : Lines :=
  let h := i.rules.remove.foldl Lines.delete h
  let h := i.rules.set.foldl (fun h row => h.set row.1 (i.render row.2)) h
  let h := i.rules.append.foldl (fun h row => h.append row.1 (i.render row.2)) h
  i.rules.skip.foldl (fun h row => if h.has row.1 then h else h.set row.1 (i.render row.2)) h

def assembled (i : Assembly) : Lines :=
  let h := i.framed i.copied
  let h := setAll i.rateHeaders h
  let h := setAll (lifecycleHeaders i.active i.sunset) h
  let h := setAll i.corsOut h
  (i.ruled h).set "x-request-id" i.requestId

end Assembly

/-! ### What each of them leaves -/

theorem toLower_toLower (c : Char) : c.toLower.toLower = c.toLower :=
  Letters.toLower_of_not_isUpper (Letters.isUpper_toLower c)

theorem lowerCase_lowerCase (s : String) : lowerCase (lowerCase s) = lowerCase s := by
  simp [lowerCase, Function.comp_def, toLower_toLower]

namespace Lines

theorem values_set (h : Lines) (name value other : String) :
    (h.set name value).values other =
      if lowerCase other = lowerCase name then [value] else h.values other := by
  induction h with
  | nil =>
    by_cases heq : lowerCase other = lowerCase name
    · simp [set, values, heq]
    · simp [set, values, heq, Ne.symm heq]
  | cons line rest ih =>
    rw [set]
    by_cases hline : line.1 = lowerCase name
    · rw [if_pos hline]
      by_cases heq : lowerCase other = lowerCase name
      · have hgone : (delete rest name).filter (fun line => line.1 = lowerCase other) = [] := by
          refine List.filter_eq_nil_iff.mpr fun row hrow => ?_
          have hne := (List.mem_filter.mp hrow).2
          rw [heq]
          simpa using hne
        rw [if_pos heq, values, List.filter_cons_of_pos (by simp [heq]), hgone]
        rfl
      · have hsame : (delete rest name).filter (fun line => line.1 = lowerCase other) =
            rest.filter fun line => line.1 = lowerCase other := by
          rw [delete, List.filter_filter]
          refine List.filter_congr fun row _ => ?_
          by_cases hrow : row.1 = lowerCase other
          · simp [hrow, heq]
          · simp [hrow]
        rw [if_neg heq, values, values, List.filter_cons_of_neg (by simpa using Ne.symm heq), hsame,
          List.filter_cons_of_neg (by rw [hline]; simpa using Ne.symm heq)]
    · rw [if_neg hline]
      by_cases hother : line.1 = lowerCase other
      · have hne : lowerCase other ≠ lowerCase name := fun heq => hline (hother.trans heq)
        rw [if_neg hne] at ih ⊢
        simp only [values] at ih ⊢
        rw [List.filter_cons_of_pos (by simpa using hother),
          List.filter_cons_of_pos (by simpa using hother), List.map_cons, List.map_cons, ih]
      · simp only [values] at ih ⊢
        rw [List.filter_cons_of_neg (by simpa using hother),
          List.filter_cons_of_neg (by simpa using hother)]
        exact ih

theorem values_delete (h : Lines) (name other : String) :
    (h.delete name).values other = if lowerCase other = lowerCase name then [] else h.values other := by
  rw [values, delete, List.filter_filter]
  split
  · rename_i heq
    have hnone : (h.filter fun line =>
        decide (line.1 = lowerCase other) && decide (line.1 ≠ lowerCase name)) = [] := by
      refine List.filter_eq_nil_iff.mpr fun row _ => ?_
      rw [heq]
      simp
    rw [hnone]
    rfl
  · rename_i hne
    rw [values]
    congr 1
    refine List.filter_congr fun row _ => ?_
    by_cases hrow : row.1 = lowerCase other
    · simp [hrow, hne]
    · simp [hrow]

theorem values_append (h : Lines) (name value other : String) :
    (h.append name value).values other =
      h.values other ++ if lowerCase other = lowerCase name then [value] else [] := by
  rw [values, append, List.filter_append, List.map_append]
  by_cases heq : lowerCase other = lowerCase name
  · simp [values, heq]
  · simp [values, heq, Ne.symm heq]

theorem has_iff (h : Lines) (name : String) : h.has name = true ↔ h.values name ≠ [] := by
  rw [has, values, Ne, List.map_eq_nil_iff, List.filter_eq_nil_iff]
  simp

end Lines

/-! ### What Vary names -/

theorem trim_space (name : List Char) : Routing.trim (' ' :: name) = Routing.trim name := by
  rw [Routing.trim, Routing.trim, List.dropWhile_cons_of_pos (by decide)]

theorem listed_space (value : String) : listed (" " ++ value) = listed value := by
  have hlist : (" " ++ value).toList = ' ' :: value.toList := by
    rw [String.toList_append]
    rfl
  have hcut : (' ' :: value.toList).splitOn ',' = (value.toList.splitOn ',').modifyHead (' ' :: ·) :=
    List.splitOn_cons_eq_if_modifyHead _ _
  rw [listed, listed, hlist, hcut]
  cases value.toList.splitOn ',' with
  | nil => rfl
  | cons first rest => rw [List.modifyHead_cons, List.map_cons, List.map_cons, trim_space]

theorem listed_append (value more : String) :
    listed (value ++ ", " ++ more) = listed value ++ listed more := by
  have hlist : (value ++ ", " ++ more).toList = value.toList ++ ',' :: (" " ++ more).toList := by
    simp [String.toList_append]
  rw [← listed_space more, listed, hlist, List.splitOn_append_cons_self, List.map_append]
  rfl

theorem listed_intercalate {values : List String} (h : values ≠ []) :
    listed (", ".intercalate values) = values.flatMap listed := by
  induction values with
  | nil => exact absurd rfl h
  | cons value values ih =>
    cases values with
    | nil => simp [String.intercalate_singleton]
    | cons next rest =>
      rw [String.intercalate_cons_of_ne_nil (List.cons_ne_nil _ _), listed_append,
        ih (List.cons_ne_nil _ _)]
      rfl

def Lines.varyNames (h : Lines) : List String :=
  ((h.values "vary").flatMap listed).filter (· ≠ "")

variable {h : Lines} {name : String}

theorem mem_varyNames :
    name ∈ h.varyNames ↔ (∃ value ∈ h.values "vary", name ∈ listed value) ∧ name ≠ "" := by
  simp [Lines.varyNames]

/-! ### Writers and values -/

variable {rows : List (String × String)} {value : String}

namespace Assembly

theorem values_setAll (h : Lines) (hother : ∀ row ∈ rows, lowerCase row.1 ≠ lowerCase name) :
    (setAll rows h).values name = h.values name := by
  induction rows generalizing h with
  | nil => rfl
  | cons row rows ih =>
    have hrest := ih (h.set row.1 row.2) fun r hr => hother r (List.mem_cons_of_mem _ hr)
    have hne := Ne.symm (hother row List.mem_cons_self)
    rw [setAll, List.foldl_cons]
    exact hrest.trans (by rw [Lines.values_set, if_neg hne])

theorem values_setAll_of_mem (h : Lines)
    (hin : (∃ row ∈ rows, lowerCase row.1 = lowerCase name) ∨ h.values name = [value])
    (hone : ∀ row ∈ rows, lowerCase row.1 = lowerCase name → row.2 = value) :
    (setAll rows h).values name = [value] := by
  induction rows generalizing h with
  | nil => exact hin.resolve_left (by simp)
  | cons row rows ih =>
    refine ih (h.set row.1 row.2) ?_ fun r hr => hone r (List.mem_cons_of_mem _ hr)
    rw [Lines.values_set]
    by_cases hrow : lowerCase row.1 = lowerCase name
    · exact .inr (by rw [if_pos hrow.symm, hone row List.mem_cons_self hrow])
    · rw [if_neg (Ne.symm hrow)]
      rcases hin with ⟨r, hr, hname⟩ | hbefore
      · rcases List.mem_cons.mp hr with rfl | hrest
        · exact absurd hname hrow
        · exact .inl ⟨r, hrest, hname⟩
      · exact .inr hbefore

theorem mem_ruled {i : Assembly} (hremove : ∀ n ∈ i.rules.remove, lowerCase n ≠ lowerCase name)
    (hset : ∀ row ∈ i.rules.set, lowerCase row.1 ≠ lowerCase name) (hin : value ∈ h.values name) :
    value ∈ (i.ruled h).values name := by
  unfold ruled
  have hremoved : value ∈ (i.rules.remove.foldl Lines.delete h).values name := by
    refine List.foldlRecOn (motive := fun h => value ∈ Lines.values h name) _ _ hin ?_
    intro h hh n hn
    rw [Lines.values_delete, if_neg (Ne.symm (hremove n hn))]
    exact hh
  have hwritten := List.foldlRecOn (motive := fun h => value ∈ Lines.values h name) i.rules.set
    (fun h row => h.set row.1 (i.render row.2)) hremoved (by
      intro h hh row hrow
      rw [Lines.values_set, if_neg (Ne.symm (hset row hrow))]
      exact hh)
  have hadded := List.foldlRecOn (motive := fun h => value ∈ Lines.values h name) i.rules.append
    (fun h row => h.append row.1 (i.render row.2)) hwritten (by
      intro h hh row _
      rw [Lines.values_append]
      exact List.mem_append_left _ hh)
  refine List.foldlRecOn (motive := fun h => value ∈ Lines.values h name) _ _ hadded ?_
  intro h hh row _
  split
  · exact hh
  · rename_i habsent
    -- What is absent is set; the name has a value, so it is another.
    have hne : lowerCase name ≠ lowerCase row.1 := by
      intro heq
      have hnone : h.values row.1 = [] := by
        by_contra hsome
        exact habsent ((Lines.has_iff h row.1).mpr hsome)
      have hsame : h.values name = h.values row.1 := by rw [Lines.values, Lines.values, heq]
      rw [hsame, hnone] at hh
      cases hh
    rw [Lines.values_set, if_neg hne]
    exact hh

/-! ### What reaches the caller -/

def ownNames (i : Assembly) : List String :=
  (i.rateHeaders ++ lifecycleHeaders i.active i.sunset).map (·.1) ++ ["x-request-id"]

def Unruled (i : Assembly) (name : String) : Prop :=
  (∀ n ∈ i.rules.remove, lowerCase n ≠ name) ∧ ∀ row ∈ i.rules.set, lowerCase row.1 ≠ name

structure Untouched (i : Assembly) (name : String) : Prop where
  endToEnd : name ∉ HOP_BY_HOP
  framing : name ≠ "vary" ∧ (i.passCompressed = true ∨ name ∉ ["content-encoding", "content-length"])
  own : name ∉ i.ownNames
  cors : name ∉ i.corsOut.map (·.1)
  rules : i.Unruled name

/-- What the backend sent reaches the caller: the values of a name that nothing replaces, as long as
there are not several cookies; what its `Vary` names, and the encoding of a body that is handed on as
it is, unless CORS headers are added or a rule says otherwise; and the origin where they are added. -/
structure Faithful (i : Assembly) : Prop where
  reach : ∀ name value, (name, value) ∈ Lines.iterate (Lines.received i.backend) → i.Untouched name →
    (name = "set-cookie" → ((Lines.received i.backend).values name).length ≤ 1) →
    value ∈ i.assembled.values name
  vary : i.Unruled "vary" → i.corsOut = [] →
    ∀ name ∈ (Lines.received i.backend).varyNames, name ∈ i.assembled.varyNames
  encoding : i.Unruled "vary" → i.corsOut = [] → i.passCompressed = true →
    (Lines.received i.backend).has "content-encoding" = true → "accept-encoding" ∈ i.assembled.varyNames
  origin : i.Unruled "vary" → i.corsOut ≠ [] → "origin" ∈ i.assembled.varyNames

/-! ### Names are in lower case -/

theorem mem_iterate :
    (name, value) ∈ h.iterate ↔ name ∈ h.map (·.1) ∧
      (if name = "set-cookie" then value ∈ h.values name
      else value = ", ".intercalate (h.values name)) := by
  simp only [Lines.iterate, List.mem_flatMap, List.mem_dedup]
  constructor
  · rintro ⟨found, hfound, hin⟩
    by_cases hcookie : found = "set-cookie"
    · rw [if_pos hcookie] at hin
      obtain ⟨v, hv, heq⟩ := List.mem_map.mp hin
      cases heq
      exact ⟨hfound, by rwa [if_pos hcookie]⟩
    · rw [if_neg hcookie] at hin
      cases List.mem_singleton.mp hin
      exact ⟨hfound, by rw [if_neg hcookie]⟩
  · rintro ⟨hname, hvalue⟩
    refine ⟨name, hname, ?_⟩
    by_cases hcookie : name = "set-cookie"
    · rw [if_pos hcookie] at hvalue ⊢
      exact List.mem_map.mpr ⟨value, hvalue, rfl⟩
    · rw [if_neg hcookie] at hvalue ⊢
      rw [hvalue]
      exact List.mem_singleton.mpr rfl

theorem lower_received {raw : List (String × String)} (h : name ∈ (Lines.received raw).map (·.1)) :
    lowerCase name = name := by
  obtain ⟨line, hline, rfl⟩ := List.mem_map.mp h
  obtain ⟨sent, -, rfl⟩ := List.mem_map.mp hline
  exact lowerCase_lowerCase sent.1

def WRITTEN : List String :=
  ["x-ratelimit-limit", "x-ratelimit-remaining", "x-ratelimit-reset", "x-quota-limit",
    "x-quota-remaining", "x-quota-reset", "deprecation", "sunset", "access-control-allow-origin",
    "access-control-allow-credentials", "access-control-expose-headers"]

theorem lower_names : lowerCase "vary" = "vary" ∧ lowerCase "content-encoding" = "content-encoding" ∧
    lowerCase "content-length" = "content-length" ∧ lowerCase "x-request-id" = "x-request-id" := by
  decide +kernel

theorem lower_vary : lowerCase "vary" = "vary" := lower_names.1

theorem listed_names : (∀ name ∈ listed "", name = "") ∧ "accept-encoding" ∈ listed "Accept-Encoding" ∧
    "origin" ∈ listed "Origin" := by
  decide +kernel

theorem written_counts : ∀ unit ∈ ["ratelimit", "quota"],
    ∀ name ∈ ["x-" ++ unit ++ "-limit", "x-" ++ unit ++ "-remaining", "x-" ++ unit ++ "-reset"],
      name ∈ WRITTEN := by
  decide +kernel

theorem lower_written : ∀ name ∈ WRITTEN, lowerCase name = name ∧ name ≠ "vary" := by
  decide +kernel

theorem written_rate (i : Assembly) (h : name ∈ i.rateHeaders.map (·.1)) : name ∈ WRITTEN := by
  have hnames : ∀ (unit : String) counted, (countHeaders unit counted).map (·.1) ⊆
      ["x-" ++ unit ++ "-limit", "x-" ++ unit ++ "-remaining", "x-" ++ unit ++ "-reset"] := by
    intro unit counted
    cases counted with
    | none => exact List.nil_subset _
    | some counted => exact fun _ hin => hin
  have hrate : ∀ name ∈ ["x-" ++ "ratelimit" ++ "-limit", "x-" ++ "ratelimit" ++ "-remaining",
      "x-" ++ "ratelimit" ++ "-reset"], name ∈ WRITTEN := written_counts _ (by simp)
  have hquota : ∀ name ∈ ["x-" ++ "quota" ++ "-limit", "x-" ++ "quota" ++ "-remaining",
      "x-" ++ "quota" ++ "-reset"], name ∈ WRITTEN := written_counts _ (by simp)
  rw [rateHeaders, List.map_append] at h
  rcases List.mem_append.mp h with hin | hin
  · exact hrate name (hnames _ _ hin)
  · exact hquota name (hnames _ _ hin)

theorem written_lifecycle (i : Assembly) (h : name ∈ (lifecycleHeaders i.active i.sunset).map (·.1)) :
    name ∈ WRITTEN := by
  have hboth : ∀ name ∈ ["deprecation", "sunset"], name ∈ WRITTEN := by decide
  refine hboth name ?_
  unfold lifecycleHeaders at h
  split at h
  · cases h
  · cases hsunset : i.sunset <;> simp_all

theorem written_cors (i : Assembly) (h : name ∈ i.corsOut.map (·.1)) :
    name ∈ WRITTEN ∨ name = "vary" := by
  have hall : ∀ name ∈ ["access-control-allow-origin", "access-control-allow-credentials",
      "access-control-expose-headers"], name ∈ WRITTEN := by decide
  have hin : name ∈ ["access-control-allow-origin", "vary", "access-control-allow-credentials",
      "access-control-expose-headers"] := by
    unfold corsOut corsHeaders at h
    split at h
    · split at h
      · simp only [List.map_append, List.mem_append, List.map_cons, List.map_nil, List.mem_cons,
          List.not_mem_nil, or_false] at h
        rcases h with ((rfl | rfl) | hcredentials) | hexpose
        · decide
        · decide
        · split at hcredentials <;> simp_all
        · split at hexpose <;> simp_all
      · cases h
    · cases h
  by_cases hvary : name = "vary"
  · exact .inr hvary
  · exact .inl (hall name (by simpa [hvary] using hin))

theorem values_setAll_of_lower (h : Lines) (hlower : ∀ n ∈ rows.map (·.1), lowerCase n = n)
    (hname : lowerCase name = name) (hnot : name ∉ rows.map (·.1)) :
    (setAll rows h).values name = h.values name := by
  refine values_setAll h fun row hrow heq => hnot ?_
  have hin : row.1 ∈ rows.map (·.1) := List.mem_map.mpr ⟨row, hrow, rfl⟩
  rw [hlower row.1 hin, hname] at heq
  exact heq ▸ hin

theorem values_copied (i : Assembly)
    (hin : (name, value) ∈ Lines.iterate (Lines.received i.backend)) (hend : name ∉ HOP_BY_HOP)
    (hone : name = "set-cookie" → ((Lines.received i.backend).values name).length ≤ 1) :
    i.copied.values name = [value] := by
  have hname := lower_received (mem_iterate.mp hin).1
  refine values_setAll_of_mem [] (.inl ⟨(name, value), ?_, rfl⟩) ?_
  · refine List.mem_filter.mpr ⟨hin, ?_⟩
    simpa [hname] using hend
  · intro row hrow heq
    have hiterated := (List.mem_filter.mp hrow).1
    have hrow' : (row.1, row.2) ∈ Lines.iterate (Lines.received i.backend) := hiterated
    obtain ⟨hmem, hvalue⟩ := mem_iterate.mp hrow'
    rw [lower_received hmem, hname] at heq
    rw [heq] at hvalue
    obtain ⟨-, hown⟩ := mem_iterate.mp hin
    by_cases hcookie : name = "set-cookie"
    · rw [if_pos hcookie] at hvalue hown
      have hlength := hone hcookie
      match hvalues : (Lines.received i.backend).values name, hlength with
      | [], _ =>
        rw [hvalues] at hown
        cases hown
      | [only], _ =>
        rw [hvalues] at hvalue hown
        rw [List.mem_singleton.mp hvalue, List.mem_singleton.mp hown]
      | first :: second :: rest, hlong => simp at hlong
    · rw [if_neg hcookie] at hvalue hown
      rw [hvalue, hown]

theorem values_framed (i : Assembly) (h : Lines) (hname : lowerCase name = name)
    (hvary : name ≠ "vary")
    (hframing : i.passCompressed = true ∨ name ∉ ["content-encoding", "content-length"]) :
    (i.framed h).values name = h.values name := by
  have hlowers : lowerCase "vary" = "vary" ∧ lowerCase "content-encoding" = "content-encoding" ∧
      lowerCase "content-length" = "content-length" := ⟨lower_names.1, lower_names.2.1, lower_names.2.2.1⟩
  unfold framed
  split
  · split
    · simp only
      split
      · rfl
      · rw [Lines.values_set, hname, hlowers.1, if_neg hvary]
    · rfl
  · rename_i hdecoded
    have hnot := hframing.resolve_left hdecoded
    simp only [List.mem_cons, List.not_mem_nil, or_false, not_or] at hnot
    rw [Lines.values_delete, Lines.values_delete, hname, hlowers.2.1, hlowers.2.2, if_neg hnot.2,
      if_neg hnot.1]

theorem values_written (i : Assembly) (h : Lines) (hname : lowerCase name = name)
    (hown : name ∉ i.ownNames) (hcors : name ∉ i.corsOut.map (·.1)) :
    (setAll i.corsOut (setAll (lifecycleHeaders i.active i.sunset)
      (setAll i.rateHeaders h))).values name = h.values name := by
  simp only [ownNames, List.map_append, List.mem_append, List.mem_singleton, not_or] at hown
  obtain ⟨⟨hrate, hlife⟩, -⟩ := hown
  have hlowers : ∀ n ∈ i.corsOut.map (·.1), lowerCase n = n := by
    intro n hn
    rcases written_cors i hn with hin | rfl
    · exact (lower_written n hin).1
    · exact lower_vary
  rw [values_setAll_of_lower _ hlowers hname hcors,
    values_setAll_of_lower _ (fun n hn => (lower_written n (written_lifecycle i hn)).1) hname hlife,
    values_setAll_of_lower _ (fun n hn => (lower_written n (written_rate i hn)).1) hname hrate]

theorem mem_assembled (i : Assembly) (hname : lowerCase name = name)
    (hid : name ≠ "x-request-id") (hrules : i.Unruled name)
    (h : value ∈ (setAll i.corsOut (setAll (lifecycleHeaders i.active i.sunset)
      (setAll i.rateHeaders (i.framed i.copied)))).values name) : value ∈ i.assembled.values name := by
  have hruled := mem_ruled (fun n hn => by rw [hname]; exact hrules.1 n hn)
    (fun row hrow => by rw [hname]; exact hrules.2 row hrow) h
  rw [assembled, Lines.values_set, hname, lower_names.2.2.2, if_neg hid]
  exact hruled

/-! ### Vary -/

theorem vary_copied (i : Assembly) (h : name ∈ (Lines.received i.backend).varyNames) :
    name ∈ i.copied.varyNames := by
  obtain ⟨⟨value, hvalue, hlisted⟩, hname⟩ := mem_varyNames.mp h
  obtain ⟨line, hline, -⟩ := List.mem_map.mp hvalue
  obtain ⟨hmem, hvary⟩ := List.mem_filter.mp hline
  have hkey : line.1 = "vary" := by
    rw [← lower_vary]
    simpa using hvary
  have hjoined : ("vary", ", ".intercalate ((Lines.received i.backend).values "vary")) ∈
      Lines.iterate (Lines.received i.backend) :=
    mem_iterate.mpr ⟨List.mem_map.mpr ⟨line, hmem, hkey⟩, by rw [if_neg (by decide)]⟩
  have hcopied := values_copied i hjoined (by decide) (fun hcookie => absurd hcookie (by decide))
  refine mem_varyNames.mpr ⟨⟨_, by rw [hcopied]; exact List.mem_singleton.mpr rfl, ?_⟩, hname⟩
  rw [listed_intercalate (List.ne_nil_of_mem hvalue)]
  exact List.mem_flatMap.mpr ⟨value, hvalue, hlisted⟩

theorem get_eq_some {joined : String} (hget : h.get name = some joined) :
    h.values name ≠ [] ∧ joined = ", ".intercalate (h.values name) := by
  unfold Lines.get at hget
  split at hget
  · cases hget
  · rename_i hne
    cases hget
    exact ⟨hne, rfl⟩

theorem mem_listed_get (hlisted : name ∈ listed ((h.get "vary").getD "")) (hname : name ≠ "") :
    name ∈ h.varyNames := by
  cases hget : h.get "vary" with
  | none =>
    rw [hget] at hlisted
    exact absurd (listed_names.1 name hlisted) hname
  | some joined =>
    obtain ⟨hne, rfl⟩ := get_eq_some hget
    rw [hget, Option.getD_some, listed_intercalate hne] at hlisted
    exact mem_varyNames.mpr ⟨List.mem_flatMap.mp hlisted, hname⟩

theorem listed_get_of_mem (hin : name ∈ h.varyNames) :
    ∃ joined, h.get "vary" = some joined ∧ name ∈ listed joined ∧ joined ≠ "" := by
  obtain ⟨⟨value, hvalue, hlisted⟩, hname⟩ := mem_varyNames.mp hin
  have hne : h.values "vary" ≠ [] := List.ne_nil_of_mem hvalue
  have hjoined : name ∈ listed (", ".intercalate (h.values "vary")) := by
    rw [listed_intercalate hne]
    exact List.mem_flatMap.mpr ⟨value, hvalue, hlisted⟩
  refine ⟨_, ?_, hjoined, fun hempty => ?_⟩
  · unfold Lines.get
    split
    · rename_i hnone
      exact absurd hnone hne
    · rfl
  · rw [hempty] at hjoined
    exact hname (listed_names.1 name hjoined)

theorem varyNames_set : name ∈ (h.set "vary" value).varyNames ↔ name ∈ listed value ∧ name ≠ "" := by
  rw [mem_varyNames, Lines.values_set, if_pos rfl]
  simp

theorem vary_framed (i : Assembly) (h : Lines) (hin : name ∈ h.varyNames) :
    name ∈ (i.framed h).varyNames := by
  unfold framed
  split
  · split
    · simp only
      split
      · exact hin
      · obtain ⟨joined, hget, hlisted, hne⟩ := listed_get_of_mem hin
        rw [varyNames_set, hget, Option.filter_some, decide_eq_true hne, if_pos rfl]
        refine ⟨?_, (mem_varyNames.mp hin).2⟩
        have hsplit : joined ++ ", Accept-Encoding" = joined ++ ", " ++ "Accept-Encoding" := by
          rw [String.append_assoc]
          rfl
        simp only [hsplit, listed_append]
        exact List.mem_append_left _ hlisted
    · exact hin
  · have hsame : ((h.delete "content-encoding").delete "content-length").values "vary" =
        h.values "vary" := by
      have hlowers : lowerCase "vary" ≠ lowerCase "content-length" ∧
          lowerCase "vary" ≠ lowerCase "content-encoding" := by
        rw [lower_vary, lower_names.2.1, lower_names.2.2.1]
        decide
      rw [Lines.values_delete, if_neg hlowers.1, Lines.values_delete, if_neg hlowers.2]
    rw [Lines.varyNames, hsame]
    exact hin

theorem encoding_framed (i : Assembly) (h : Lines) (hpass : i.passCompressed = true)
    (hencoded : h.has "content-encoding" = true) : "accept-encoding" ∈ (i.framed h).varyNames := by
  have hlisted := listed_names.2.1
  rw [framed, if_pos hpass, if_pos hencoded]
  simp only
  split
  · rename_i halready
    exact mem_listed_get (List.contains_iff_mem.mp halready) (by decide)
  · rw [varyNames_set]
    refine ⟨?_, by decide⟩
    split
    · rename_i vary _
      have hsplit : vary ++ ", Accept-Encoding" = vary ++ ", " ++ "Accept-Encoding" := by
        rw [String.append_assoc]
        rfl
      rw [hsplit, listed_append]
      exact List.mem_append_right _ hlisted
    · exact hlisted

theorem encoded_copied (i : Assembly)
    (h : (Lines.received i.backend).has "content-encoding" = true) :
    i.copied.has "content-encoding" = true := by
  have hlower := lower_names.2.1
  obtain ⟨line, hline, hname⟩ := List.any_eq_true.mp h
  have hkey : line.1 = "content-encoding" := by
    rw [← hlower]
    simpa using hname
  have hjoined : ("content-encoding",
      ", ".intercalate ((Lines.received i.backend).values "content-encoding")) ∈
        Lines.iterate (Lines.received i.backend) :=
    mem_iterate.mpr ⟨List.mem_map.mpr ⟨line, hline, hkey⟩, by rw [if_neg (by decide)]⟩
  rw [Lines.has_iff, values_copied i hjoined (by decide) (fun hcookie => absurd hcookie (by decide))]
  exact List.cons_ne_nil _ _

theorem vary_assembled (i : Assembly) (hrules : i.Unruled "vary") (hcors : i.corsOut = [])
    (hin : name ∈ (i.framed i.copied).varyNames) : name ∈ i.assembled.varyNames := by
  obtain ⟨⟨value, hvalue, hlisted⟩, hname⟩ := mem_varyNames.mp hin
  have hnot : "vary" ∉ WRITTEN := fun hmem => (lower_written _ hmem).2 rfl
  have hown : "vary" ∉ i.ownNames := by
    simp only [ownNames, List.map_append, List.mem_append, List.mem_singleton, not_or]
    exact ⟨⟨fun hrate => hnot (written_rate i hrate),
      fun hlife => hnot (written_lifecycle i hlife)⟩, by decide⟩
  have hkept := values_written i (i.framed i.copied) lower_vary hown (by rw [hcors]; exact nofun)
  refine mem_varyNames.mpr ⟨⟨value, ?_, hlisted⟩, hname⟩
  exact mem_assembled i lower_vary (by decide) hrules (by rw [hkept]; exact hvalue)

theorem origin_assembled (i : Assembly) (hrules : i.Unruled "vary") (hcors : i.corsOut ≠ []) :
    "origin" ∈ i.assembled.varyNames := by
  have hrows : ("vary", "Origin") ∈ i.corsOut ∧
      ∀ row ∈ i.corsOut, row.1 = "vary" → row.2 = "Origin" := by
    unfold corsOut corsHeaders at hcors ⊢
    split at hcors
    · split at hcors
      · rename_i hallowed
        rw [if_pos hallowed]
        refine ⟨by simp, fun row hrow hvary => ?_⟩
        simp only [List.mem_append, List.mem_cons, List.not_mem_nil, or_false] at hrow
        rcases hrow with ((rfl | rfl) | hcredentials) | hexpose
        · exact absurd hvary (by simp)
        · rfl
        · split at hcredentials <;> simp_all
        · split at hexpose <;> simp_all
      · exact absurd rfl hcors
    · exact absurd rfl hcors
  have hone : ∀ row ∈ i.corsOut, lowerCase row.1 = lowerCase "vary" → row.2 = "Origin" := by
    intro row hrow heq
    refine hrows.2 row hrow ?_
    rcases written_cors i (List.mem_map.mpr ⟨row, hrow, rfl⟩) with hin | hvary
    · rw [(lower_written row.1 hin).1, lower_vary] at heq
      exact heq
    · exact hvary
  have hset := values_setAll_of_mem (setAll (lifecycleHeaders i.active i.sunset)
    (setAll i.rateHeaders (i.framed i.copied))) (.inl ⟨_, hrows.1, rfl⟩) hone
  refine mem_varyNames.mpr ⟨⟨"Origin", ?_, listed_names.2.2⟩, by decide⟩
  exact mem_assembled i lower_vary (by decide) hrules (by rw [hset]; exact List.mem_singleton.mpr rfl)

end Assembly

open Assembly

/-- The same without a word about the gateway's own headers, several cookies, or CORS and `Vary`. -/
structure PassedOn (i : Assembly) : Prop where
  reach : ∀ name value, (name, value) ∈ Lines.iterate (Lines.received i.backend) →
    name ∉ HOP_BY_HOP → name ≠ "vary" →
    (i.passCompressed = true ∨ name ∉ ["content-encoding", "content-length"]) →
    name ∉ i.corsOut.map (·.1) → i.Unruled name → value ∈ i.assembled.values name
  vary : i.Unruled "vary" →
    ∀ name ∈ (Lines.received i.backend).varyNames, name ∈ i.assembled.varyNames

def plain (backend : List (String × String)) : Assembly where
  backend := backend
  passCompressed := false
  rate := none
  quota := none
  active := true
  sunset := none
  cors := none
  origin := none
  rules := {}
  render := id
  requestId := "r-1"

def crossOrigin (backend : List (String × String)) : Assembly :=
  { plain backend with cors := some { origins := ["https://shop"] }, origin := some "https://shop" }

theorem unruled_plain (backend : List (String × String)) (name : String) :
    (plain backend).Unruled name := ⟨nofun, nofun⟩

end Apim.DataPlane.ResponseHeaders
