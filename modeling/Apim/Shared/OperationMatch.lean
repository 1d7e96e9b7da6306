import Apim.Lib.Selection
import Apim.Shared.Opmatch

/-!
# The operation a request is matched with

The index of the compiled operations (`shared/opmatch.ts:69-90`), and the search in it against a search
over all operations: the one with the most literal segments, of these one declared for the method of
the request before one that serves it as a `HEAD`, of these the one declared first. The search skips
what a score beside the candidate says could not win, which changes nothing (`foldl_better`).
-/

namespace Apim.Opmatch
open Overlay Selection

/-! ### The index -/

abbrev CompiledOperations (α : Type*) := Dict Nat (List (CompiledOperation α))

section
variable {α : Type*}

/-- `bucket ? bucket.push(compiled) : byArity.set(segments.length, [compiled])`. -/
def pushCandidate (byArity : CompiledOperations α) (compiled : CompiledOperation α) :
    CompiledOperations α :=
  match byArity.lookup compiled.segments.length with
  | some bucket => byArity.insert compiled.segments.length (bucket ++ [compiled])
  | none => byArity.insert compiled.segments.length [compiled]

/-- `matchCompiled` (`shared/opmatch.ts:101-143`), over the index. -/
def matchByArity (toUpperCase decode : String → String) (byArity : CompiledOperations α)
    (method relativePath : String) : Option (α × Dict String String) :=
  let wanted := toUpperCase method
  let parts := segmentsOf relativePath
  match byArity.lookup parts.length with
  | none => none
  | some candidates =>
    match candidates.foldl (better wanted parts) none with
    | some (best, _) => some (best.operation, paramsFrom decode best parts)
    | none => none

theorem lookup_pushCandidate (byArity : CompiledOperations α) (compiled : CompiledOperation α)
    (n : Nat) : ((pushCandidate byArity compiled).lookup n).getD [] =
      (byArity.lookup n).getD [] ++ if compiled.segments.length = n then [compiled] else [] := by
  by_cases hn : compiled.segments.length = n
  · subst hn
    rw [if_pos rfl, pushCandidate]
    cases byArity.lookup compiled.segments.length with
    | some bucket => rw [AList.lookup_insert, Option.getD_some, Option.getD_some]
    | none => rw [AList.lookup_insert, Option.getD_some, Option.getD_none, List.nil_append]
  · rw [if_neg hn, List.append_nil, pushCandidate]
    cases byArity.lookup compiled.segments.length with
    | some bucket => rw [AList.lookup_insert_ne (Ne.symm hn)]
    | none => rw [AList.lookup_insert_ne (Ne.symm hn)]

theorem lookup_foldl_pushCandidate (compiled : List (CompiledOperation α))
    (byArity : CompiledOperations α) (n : Nat) :
    ((compiled.foldl pushCandidate byArity).lookup n).getD [] =
      (byArity.lookup n).getD [] ++
        compiled.filter fun candidate => candidate.segments.length == n := by
  induction compiled generalizing byArity with
  | nil => rw [List.foldl_nil, List.filter_nil, List.append_nil]
  | cons candidate compiled ih =>
    rw [List.foldl_cons, ih, lookup_pushCandidate, List.append_assoc, List.filter_cons]
    by_cases hn : candidate.segments.length = n
    · rw [if_pos hn, if_pos (beq_iff_eq.mpr hn), List.singleton_append]
    · rw [if_neg hn, if_neg (fun h => hn (beq_iff_eq.mp h)), List.nil_append]

theorem matchByArity_eq_matchCompiled (toUpperCase decode : String → String)
    (compiled : List (CompiledOperation α)) (method relativePath : String) :
    matchByArity toUpperCase decode (compiled.foldl pushCandidate ∅) method relativePath =
      matchCompiled toUpperCase decode compiled method relativePath := by
  have hbucket := lookup_foldl_pushCandidate compiled ∅ (segmentsOf relativePath).length
  rw [AList.lookup_empty, Option.getD_none, List.nil_append] at hbucket
  rw [matchByArity, matchCompiled, ← hbucket]
  cases (compiled.foldl pushCandidate ∅).lookup (segmentsOf relativePath).length with
  | none => rfl
  | some candidates => rfl

/-! ### The loop as a search -/

def CompiledOperation.admitted (wanted : String) (parts : List String)
    (candidate : CompiledOperation α) : Bool :=
  candidate.serves wanted && candidate.agrees parts

theorem foldl_better (wanted : String) (parts : List String)
    (candidates : List (CompiledOperation α)) (best : Option (CompiledOperation α)) :
    candidates.foldl (better wanted parts) (best.map fun b => (b, b.scoreFor wanted)) =
      (candidates.foldl
        (keepBest (CompiledOperation.admitted wanted parts) (CompiledOperation.scoreFor · wanted))
        best).map fun b => (b, b.scoreFor wanted) := by
  induction candidates generalizing best with
  | nil => rfl
  | cons candidate candidates ih =>
    rw [List.foldl_cons, List.foldl_cons, ← ih]
    congr 1
    have hlow : ((best.map fun b => (b, b.scoreFor wanted)).any
        (candidate.scoreFor wanted ≤ ·.2) = true) ↔
        ¬ ∀ b ∈ best, b.scoreFor wanted < candidate.scoreFor wanted := by
      cases best with
      | none => simp
      | some b => simp
    unfold better keepBest CompiledOperation.admitted
    by_cases hserves : candidate.serves wanted = true
    · by_cases hbest : ∀ b ∈ best, b.scoreFor wanted < candidate.scoreFor wanted
      · rw [if_pos hserves, if_neg (fun h => hlow.mp h hbest)]
        by_cases hagrees : candidate.agrees parts = true
        · rw [if_pos hagrees, if_pos ⟨by rw [hserves, hagrees]; rfl, hbest⟩]
          rfl
        · rw [if_neg hagrees, if_neg (fun h => hagrees (Bool.and_eq_true_iff.mp h.1).2)]
      · rw [if_pos hserves, if_pos (hlow.mpr hbest), if_neg (fun h => hbest h.2)]
    · rw [if_neg hserves, if_neg (fun h => hserves (Bool.and_eq_true_iff.mp h.1).1)]

end

/-! ### What a search over all operations finds -/

section
variable {α : Type*} (method template : α → String) (toUpperCase decode : String → String)

def compileByArity (operations : List α) : CompiledOperations α :=
  (compileOperations method template toUpperCase operations).foldl pushCandidate ∅

/-- `matchOperation` (`shared/opmatch.ts:149-155`). -/
def matchOperation (operations : List α) (requested relativePath : String) :
    Option (α × Dict String String) :=
  matchByArity toUpperCase decode (compileByArity method template toUpperCase operations) requested
    relativePath

def literals (operation : α) : Nat :=
  ((segmentsOf (template operation)).filter fun segment => (paramOf segment).isNone).length

/-- As many segments as the path, each literal one the part at its place, and the method of the
request, or `GET` for a `HEAD`. -/
structure Describes (wanted : String) (parts : List String) (operation : α) : Prop where
  segments : List.Forall₂ (fun segment part => paramOf segment = none → segment = part)
    (segmentsOf (template operation)) parts
  serves : toUpperCase (method operation) = wanted ∨
    wanted = "HEAD" ∧ toUpperCase (method operation) = "GET"

def Outranks (wanted : String) (a b : α) : Prop :=
  literals template b < literals template a ∨
    literals template b = literals template a ∧
      toUpperCase (method a) = wanted ∧ toUpperCase (method b) ≠ wanted

/-- It describes the request, outranks what is declared before and is not outranked behind. -/
def Winner (operations : List α) (wanted : String) (parts : List String) (operation : α) : Prop :=
  ∃ before after, operations = before ++ operation :: after ∧
    Describes method template toUpperCase wanted parts operation ∧
    (∀ other ∈ before, Describes method template toUpperCase wanted parts other →
      Outranks method template toUpperCase wanted operation other) ∧
    ∀ other ∈ after, Describes method template toUpperCase wanted parts other →
      ¬ Outranks method template toUpperCase wanted other operation

/-- The variable segments of a template, each with the part at its place, decoded. -/
def variablesOf (operation : α) (parts : List String) : List (String × String) :=
  ((segmentsOf (template operation)).zip parts).filterMap fun (segment, part) =>
    (paramOf segment).map fun name => (name, decode part)

/-- No variable is called `__proto__`, and none has two values. -/
def Nameable (vars : List (String × String)) : Prop :=
  ∀ one ∈ vars, one.1 ≠ "__proto__" ∧ ∀ other ∈ vars, other.1 = one.1 → other.2 = one.2

/-- The answer is that of a search over all operations, with the variables of the winner, and the
one-shot form has the same. -/
structure MatchesAsSearched (operations : List α) (requested relativePath : String) : Prop where
  winner : ∀ operation params,
    matchByArity toUpperCase decode (compileByArity method template toUpperCase operations)
        requested relativePath = some (operation, params) →
      Winner method template toUpperCase operations (toUpperCase requested)
          (segmentsOf relativePath) operation ∧
        ∀ name value, params.lookup name = some value ↔
          (name, value) ∈ variablesOf template decode operation (segmentsOf relativePath)
  noneFound :
    matchByArity toUpperCase decode (compileByArity method template toUpperCase operations)
        requested relativePath = none ↔
      ∀ operation ∈ operations, ¬ Describes method template toUpperCase (toUpperCase requested)
        (segmentsOf relativePath) operation
  oneShot : matchOperation method template toUpperCase decode operations requested relativePath =
    matchByArity toUpperCase decode (compileByArity method template toUpperCase operations)
      requested relativePath

end

/-! ### A candidate and its operation -/

section
variable {α : Type*} {method template : α → String} {toUpperCase decode : String → String}

def fits (method template : α → String) (toUpperCase : String → String) (wanted : String)
    (parts : List String) (operation : α) : Bool :=
  let candidate := compileOperation method template toUpperCase operation
  candidate.segments.length == parts.length && candidate.admitted wanted parts

def rank (method template : α → String) (toUpperCase : String → String) (wanted : String)
    (operation : α) : Nat :=
  (compileOperation method template toUpperCase operation).scoreFor wanted

theorem agrees_iff (segments parts : List String) (hlength : segments.length = parts.length) :
    ((((segments.map paramOf).zip segments).zip parts).all fun ((param, segment), part) =>
        param.isSome || segment == part) = true ↔
      List.Forall₂ (fun segment part => paramOf segment = none → segment = part)
        segments parts := by
  induction segments generalizing parts with
  | nil =>
    obtain rfl := List.eq_nil_of_length_eq_zero hlength.symm
    exact ⟨fun _ => List.Forall₂.nil, fun _ => rfl⟩
  | cons segment segments ih =>
    cases parts with
    | nil => cases hlength
    | cons part parts =>
      have hfirst : ((paramOf segment).isSome || segment == part) = true ↔
          (paramOf segment = none → segment = part) := by
        cases paramOf segment with
        | none => simp
        | some name => simp
      have hrest := ih parts (Nat.succ.inj hlength)
      simp only [List.map_cons, List.zip_cons_cons, List.all_cons, Bool.and_eq_true, hfirst, hrest,
        List.forall₂_cons]

theorem fits_iff (wanted : String) (parts : List String) (operation : α) :
    fits method template toUpperCase wanted parts operation = true ↔
      Describes method template toUpperCase wanted parts operation := by
  have hserves : (compileOperation method template toUpperCase operation).serves wanted = true ↔
      toUpperCase (method operation) = wanted ∨
        wanted = "HEAD" ∧ toUpperCase (method operation) = "GET" := by
    simp [CompiledOperation.serves, compileOperation]
  simp only [fits, CompiledOperation.admitted, Bool.and_eq_true, beq_iff_eq, hserves]
  constructor
  · rintro ⟨hlength, hmethod, hagrees⟩
    exact ⟨(agrees_iff _ _ hlength).mp hagrees, hmethod⟩
  · rintro ⟨hsegments, hmethod⟩
    exact ⟨hsegments.length_eq, hmethod, (agrees_iff _ _ hsegments.length_eq).mpr hsegments⟩

theorem rank_eq (wanted : String) (operation : α) :
    rank method template toUpperCase wanted operation =
      literals template operation * 2 +
        if toUpperCase (method operation) = wanted then 1 else 0 := by
  have hliterals : (((segmentsOf (template operation)).map paramOf).filter (· = none)).length =
      literals template operation := by
    rw [List.filter_map, List.length_map, literals]
    congr 1
    apply List.filter_congr
    intro segment _
    cases hparam : paramOf segment with
    | none => simp [hparam]
    | some name => simp [hparam]
  simp only [rank, CompiledOperation.scoreFor, compileOperation, hliterals]
  split
  · rfl
  · omega

theorem rank_lt_iff (wanted : String) (a b : α) :
    rank method template toUpperCase wanted b < rank method template toUpperCase wanted a ↔
      Outranks method template toUpperCase wanted a b := by
  rw [rank_eq, rank_eq, Outranks]
  by_cases ha : toUpperCase (method a) = wanted <;> by_cases hb : toUpperCase (method b) = wanted <;>
    simp only [ha, hb, if_true, if_false, ne_eq, not_true, not_false_iff, and_true, and_false,
      or_false] <;> omega

theorem isFirstBest_iff_winner {operations : List α} {wanted : String} {parts : List String}
    {operation : α} :
    IsFirstBest (fits method template toUpperCase wanted parts)
        (rank method template toUpperCase wanted) operations operation ↔
      Winner method template toUpperCase operations wanted parts operation := by
  simp only [IsFirstBest, Winner, fits_iff, ← not_lt, rank_lt_iff]

/-! ### The variables of the winner -/

theorem paramsFrom_eq (operation : α) (parts : List String) :
    paramsFrom decode (compileOperation method template toUpperCase operation) parts =
      (variablesOf template decode operation parts).foldl
        (fun params var => setParam params var.1 var.2) ∅ := by
  rw [paramsFrom, variablesOf, List.foldl_filterMap]
  simp only [compileOperation, List.zip_map_left, List.foldl_map]
  congr 1
  funext params pair
  simp only [Prod.map]
  cases paramOf pair.1 with
  | none => rfl
  | some name => rfl

theorem lookup_foldl_setParam (vars : List (String × String)) (name : String) :
    let params := vars.foldl
      (fun params var => setParam params var.1 var.2) (∅ : Dict String String)
    (∀ value, params.lookup name = some value →
        name ≠ "__proto__" ∧ (name, value) ∈ vars) ∧
      (name ≠ "__proto__" → (∃ value, (name, value) ∈ vars) →
        ∃ value, params.lookup name = some value) := by
  induction vars using List.reverseRecOn with
  | nil =>
    refine ⟨fun value h => ?_, fun _ ⟨value, h⟩ => (nomatch h)⟩
    rw [List.foldl_nil, AList.lookup_empty] at h
    cases h
  | append_singleton vars last ih =>
    obtain ⟨hheld, hgiven⟩ := ih
    simp only [List.foldl_append, List.foldl_cons, List.foldl_nil]
    by_cases hproto : last.1 = "__proto__"
    · rw [setParam, if_pos hproto]
      refine ⟨fun value h => ?_, fun hname h => hgiven hname ?_⟩
      · exact ⟨(hheld value h).1, List.mem_append_left _ (hheld value h).2⟩
      · obtain ⟨value, hin⟩ := h
        rcases List.mem_append.mp hin with hin | hin
        · exact ⟨value, hin⟩
        · exact absurd hproto ((congrArg Prod.fst (List.mem_singleton.mp hin)) ▸ hname)
    · rw [setParam, if_neg hproto]
      by_cases hname : name = last.1
      · subst hname
        rw [AList.lookup_insert]
        refine ⟨fun value h => ?_, fun _ _ => ⟨last.2, rfl⟩⟩
        obtain rfl := Option.some.inj h
        exact ⟨hproto, List.mem_append_right _ (List.mem_singleton.mpr rfl)⟩
      · rw [AList.lookup_insert_ne hname]
        refine ⟨fun value h => ?_, fun hname' h => hgiven hname' ?_⟩
        · exact ⟨(hheld value h).1, List.mem_append_left _ (hheld value h).2⟩
        · obtain ⟨value, hin⟩ := h
          rcases List.mem_append.mp hin with hin | hin
          · exact ⟨value, hin⟩
          · exact absurd (congrArg Prod.fst (List.mem_singleton.mp hin)) hname

theorem lookup_params_iff (vars : List (String × String)) :
    (∀ name value,
        (vars.foldl (fun params var => setParam params var.1 var.2)
            (∅ : Dict String String)).lookup name = some value ↔
          (name, value) ∈ vars) ↔
      Nameable vars := by
  constructor
  · intro h one hone
    have hheld := (h one.1 one.2).mpr hone
    refine ⟨((lookup_foldl_setParam vars one.1).1 one.2 hheld).1, ?_⟩
    intro other hother hname
    have hheld' := (h other.1 other.2).mpr hother
    rw [hname, hheld] at hheld'
    exact (Option.some.inj hheld').symm
  · intro h name value
    obtain ⟨hheld, hgiven⟩ := lookup_foldl_setParam vars name
    refine ⟨fun hlookup => (hheld value hlookup).2, fun hin => ?_⟩
    obtain ⟨hproto, hone⟩ := h (name, value) hin
    obtain ⟨value', hlookup⟩ := hgiven hproto ⟨value, hin⟩
    have hsame : value' = value := hone (name, value') (hheld value' hlookup).2 rfl
    rw [hlookup, hsame]

/-! ### The search -/

theorem matchByArity_eq (operations : List α) (requested relativePath : String) :
    matchByArity toUpperCase decode (compileByArity method template toUpperCase operations)
        requested relativePath =
      (firstBest
          (fits method template toUpperCase (toUpperCase requested) (segmentsOf relativePath))
          (rank method template toUpperCase (toUpperCase requested)) operations).map fun operation =>
        (operation,
          paramsFrom decode (compileOperation method template toUpperCase operation)
            (segmentsOf relativePath)) := by
  have hfold := foldl_better (toUpperCase requested) (segmentsOf relativePath)
    ((compileOperations method template toUpperCase operations).filter
      fun candidate => candidate.segments.length == (segmentsOf relativePath).length) none
  have hsearch : firstBest
      (CompiledOperation.admitted (toUpperCase requested) (segmentsOf relativePath))
      (CompiledOperation.scoreFor · (toUpperCase requested))
      ((compileOperations method template toUpperCase operations).filter
        fun candidate => candidate.segments.length == (segmentsOf relativePath).length) =
      (firstBest
        (fits method template toUpperCase (toUpperCase requested) (segmentsOf relativePath))
        (rank method template toUpperCase (toUpperCase requested)) operations).map
        (compileOperation method template toUpperCase) := by
    rw [firstBest_filter, compileOperations, firstBest_map]
    rfl
  rw [Option.map_none] at hfold
  rw [compileByArity, matchByArity_eq_matchCompiled, matchCompiled]
  simp only [hfold]
  rw [← firstBest, hsearch, Option.map_map]
  rcases firstBest_spec
    (fits method template toUpperCase (toUpperCase requested) (segmentsOf relativePath))
    (rank method template toUpperCase (toUpperCase requested)) operations
    with ⟨hnone, -⟩ | ⟨winner, hsome, -⟩
  · rw [hnone]
    rfl
  · rw [hsome]
    rfl

theorem matches_as_searched_iff (method template : α → String)
    (toUpperCase decode : String → String) (operations : List α)
    (requested relativePath : String) :
    MatchesAsSearched method template toUpperCase decode operations requested relativePath ↔
      ∀ operation, Winner method template toUpperCase operations (toUpperCase requested)
          (segmentsOf relativePath) operation →
        Nameable (variablesOf template decode operation (segmentsOf relativePath)) := by
  have hanswer := @matchByArity_eq α method template toUpperCase decode operations requested
    relativePath
  constructor
  · intro h operation hwinner
    have hfound := firstBest_eq_some_iff.mpr (isFirstBest_iff_winner.mpr hwinner)
    rw [hfound, Option.map_some] at hanswer
    obtain ⟨-, hparams⟩ := h.winner _ _ hanswer
    rw [paramsFrom_eq] at hparams
    exact (lookup_params_iff _).mp hparams
  · intro h
    refine ⟨?_, ?_, rfl⟩
    · intro operation params hsome
      rw [hanswer] at hsome
      obtain ⟨winner, hfound, hpair⟩ := Option.map_eq_some_iff.mp hsome
      obtain ⟨rfl, rfl⟩ := Prod.mk.inj hpair
      have hwinner := isFirstBest_iff_winner.mp (firstBest_eq_some_iff.mp hfound)
      refine ⟨hwinner, ?_⟩
      rw [paramsFrom_eq]
      exact (lookup_params_iff _).mpr (h winner hwinner)
    · rw [hanswer, Option.map_eq_none_iff, firstBest_eq_none_iff]
      refine forall₂_congr fun operation _ => ?_
      rw [← Bool.not_eq_true, fits_iff]

end

/-- A variable called `__proto__` is no parameter of the match. -/
theorem proto_variable_lost :
    ¬ MatchesAsSearched Prod.fst Prod.snd id id [("GET", "/pet/\x7b__proto__\x7d")] "GET"
      "/pet/7" := by
  intro h
  have hanswer : (matchByArity id id
      (compileByArity Prod.fst Prod.snd id [("GET", "/pet/\x7b__proto__\x7d")]) "GET"
        "/pet/7").map (fun found => (found.1, found.2.lookup "__proto__")) =
      some (("GET", "/pet/\x7b__proto__\x7d"), none) := by decide +kernel
  obtain ⟨found, hfound, hheld⟩ := Option.map_eq_some_iff.mp hanswer
  obtain ⟨hoperation, hlost⟩ := Prod.mk.inj hheld
  obtain ⟨-, hparams⟩ := h.winner found.1 found.2 hfound
  have hvariable := (hparams "__proto__" "7").mpr (by rw [hoperation]; decide +kernel)
  rw [hlost] at hvariable
  cases hvariable

end Apim.Opmatch
