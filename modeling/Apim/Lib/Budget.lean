import Mathlib.Data.ENat.Basic
import Mathlib.Data.List.Infix

/-!
# Reports within a budget

A traversal collects reports until a budget is spent. A report beyond the budget is dropped, and a loop ends
where it finds the budget spent; both mark what is collected as truncated. A step that is made of reports,
such loops and runs with a budget of their own is cut by a smaller budget and changes in nothing else
(`Lawful`).
-/

namespace Apim.Budget

universe u v

/-- What has been collected. -/
structure Ctx (ι : Type u) where
  issues : List ι
  maxErrors : ℕ∞
  truncated : Bool

/-- A step of a traversal, which may throw. -/
abbrev Step (ε ι : Type u) := Ctx ι → Except ε (Ctx ι)

variable {ε ι : Type u} {α : Type v}

def Ctx.Spent (c : Ctx ι) : Prop := c.maxErrors ≤ c.issues.length

instance (c : Ctx ι) : Decidable c.Spent := inferInstanceAs (Decidable (_ ≤ _))

/-! ### Steps -/

def report (issue : ι) : Step ε ι := fun c =>
  if c.Spent then .ok { c with truncated := true } else .ok { c with issues := c.issues ++ [issue] }

def done : Step ε ι := .ok

def andThen (first next : Step ε ι) : Step ε ι := fun c => first c >>= next

/-- Ends here where the budget is spent. -/
def unlessFull (next : Step ε ι) : Step ε ι := fun c =>
  if c.Spent then .ok { c with truncated := true } else next c

/-- A loop that looks at the budget at the end of each turn. -/
def whileRoom (body : α → Step ε ι) : List α → Step ε ι → Step ε ι
  | [], next => next
  | a :: rest, next => andThen (body a) (unlessFull (whileRoom body rest next))

/-- A computation that may throw, and what is done with its outcome. -/
def after {α : Type u} (e : Except ε α) (next : α → Step ε ι) : Step ε ι := fun c => e >>= fun a => next a c

/-- What a step reports with a budget of its own. -/
def probe (step : Step ε ι) (budget : ℕ∞) : Except ε (List ι) :=
  (step ⟨[], budget, false⟩).map (·.issues)

/-! ### A smaller budget only cuts the list -/

/-- One run behind another that has the larger budget: the same reports, or a beginning of them that is all
there is room for. -/
structure Behind (c d : Ctx ι) : Prop where
  budget : c.maxErrors ≤ d.maxErrors
  issues : c.issues = d.issues ∨ c.Spent ∧ c.issues <+: d.issues

structure Later (c d : Ctx ι) : Prop where
  budget : d.maxErrors = c.maxErrors
  issues : c.issues <+: d.issues
  truncated : d.truncated = false → c.truncated = false

structure Lawful (step : Step ε ι) : Prop where
  later : ∀ {c d}, step c = .ok d → Later c d
  follows : ∀ {c c' d'}, Behind c c' → step c' = .ok d' → ∃ d, step c = .ok d ∧ Behind d d'
  widens : ∀ {c d : Ctx ι} {budget : ℕ∞}, step c = .ok d → d.truncated = false → c.maxErrors ≤ budget →
    step { c with maxErrors := budget } = .ok { d with maxErrors := budget }

namespace Later

theorem refl (c : Ctx ι) : Later c c := ⟨rfl, List.prefix_refl _, id⟩

theorem trans {c d e : Ctx ι} (h : Later c d) (h' : Later d e) : Later c e :=
  ⟨h'.budget.trans h.budget, h.issues.trans h'.issues, fun htruncated => h.truncated (h'.truncated htruncated)⟩

theorem marked (c : Ctx ι) : Later c { c with truncated := true } := ⟨rfl, List.prefix_refl _, nofun⟩

/-- What is behind a run that has spent its budget stays behind. -/
theorem behind {c d d' : Ctx ι} (h : Later d d') (hspent : c.Spent) (hbudget : c.maxErrors ≤ d.maxErrors)
    (hissues : c.issues <+: d.issues) : Behind c d' :=
  ⟨by rw [h.budget]; exact hbudget, .inr ⟨hspent, hissues.trans h.issues⟩⟩

end Later

theorem Behind.beginning {c d : Ctx ι} (h : Behind c d) : c.issues <+: d.issues := by
  obtain heq | ⟨-, hbegins⟩ := h.issues
  · rw [heq]
  · exact hbegins

/-- Where the run behind has room, the other has the same reports, and room. -/
theorem Behind.of_room {c d : Ctx ι} (h : Behind c d) (hroom : ¬c.Spent) : c.issues = d.issues ∧ ¬d.Spent := by
  obtain heq | ⟨hspent, -⟩ := h.issues
  · refine ⟨heq, fun hspent => hroom ?_⟩
    exact le_trans h.budget (heq ▸ hspent)
  · exact absurd hspent hroom

theorem room_of_le {c : Ctx ι} (h : ¬c.Spent) {budget : ℕ∞} (hle : c.maxErrors ≤ budget) :
    ¬({ c with maxErrors := budget } : Ctx ι).Spent :=
  fun hspent => h (le_trans hle hspent)

variable {next : Step ε ι} {body : α → Step ε ι}

namespace Lawful

theorem done : Lawful (done : Step ε ι) where
  later h := by
    cases h
    exact .refl _
  follows hbehind h := by
    cases h
    exact ⟨_, rfl, hbehind⟩
  widens h _ _ := by
    cases h
    rfl

theorem report (issue : ι) : Lawful (report issue : Step ε ι) where
  later {c d} h := by
    unfold Budget.report at h
    split at h
    · cases h
      exact .marked c
    · cases h
      exact ⟨rfl, List.prefix_append _ _, id⟩
  follows {c c' d'} hbehind h := by
    unfold Budget.report at h ⊢
    by_cases hspent : c.Spent
    · rw [if_pos hspent]
      refine ⟨_, rfl, ?_⟩
      split at h
      · cases h
        exact ⟨hbehind.budget, .inr ⟨hspent, hbehind.beginning⟩⟩
      · cases h
        exact ⟨hbehind.budget, .inr ⟨hspent, hbehind.beginning.trans (List.prefix_append _ _)⟩⟩
    · obtain ⟨heq, hroom⟩ := hbehind.of_room hspent
      rw [if_neg hroom] at h
      rw [if_neg hspent]
      cases h
      refine ⟨_, rfl, hbehind.budget, .inl ?_⟩
      rw [heq]
  widens {c d budget} h htruncated hle := by
    unfold Budget.report at h ⊢
    split at h
    · cases h
      cases htruncated
    next hroom =>
      cases h
      rw [if_neg (room_of_le hroom hle)]

theorem andThen {first : Step ε ι} (hfirst : Lawful first) (hnext : Lawful next) :
    Lawful (andThen first next) := by
  have split : ∀ {c d : Ctx ι}, Budget.andThen first next c = .ok d →
      ∃ mid, first c = .ok mid ∧ next mid = .ok d := by
    intro c d h
    unfold Budget.andThen at h
    cases hmid : first c with
    | error e =>
      rw [hmid] at h
      cases h
    | ok mid =>
      rw [hmid] at h
      exact ⟨mid, rfl, h⟩
  have join : ∀ {c mid : Ctx ι}, first c = .ok mid → Budget.andThen first next c = next mid := by
    intro c mid h
    unfold Budget.andThen
    rw [h]
    rfl
  constructor
  · intro c d h
    obtain ⟨mid, hmid, hd⟩ := split h
    exact (hfirst.later hmid).trans (hnext.later hd)
  · intro c c' d' hbehind h
    obtain ⟨mid', hmid', hd'⟩ := split h
    obtain ⟨mid, hmid, hbetween⟩ := hfirst.follows hbehind hmid'
    obtain ⟨d, hd, hend⟩ := hnext.follows hbetween hd'
    exact ⟨d, by rw [join hmid, hd], hend⟩
  · intro c d budget h htruncated hle
    obtain ⟨mid, hmid, hd⟩ := split h
    have hmiddle := (hnext.later hd).truncated htruncated
    rw [join (hfirst.widens hmid hmiddle hle)]
    exact hnext.widens hd htruncated (by rw [(hfirst.later hmid).budget]; exact hle)

theorem unlessFull (hnext : Lawful next) : Lawful (unlessFull next) := by
  have later : ∀ {c d : Ctx ι}, Budget.unlessFull next c = .ok d → Later c d := by
    intro c d h
    unfold Budget.unlessFull at h
    split at h
    · cases h
      exact .marked c
    · exact hnext.later h
  refine ⟨later, fun {c c' d'} hbehind h => ?_, fun {c d budget} h htruncated hle => ?_⟩
  · by_cases hspent : c.Spent
    · refine ⟨{ c with truncated := true }, if_pos hspent, ?_⟩
      exact (later h).behind hspent hbehind.budget hbehind.beginning
    · obtain ⟨-, hroom⟩ := hbehind.of_room hspent
      unfold Budget.unlessFull at h ⊢
      rw [if_neg hroom] at h
      rw [if_neg hspent]
      exact hnext.follows hbehind h
  · unfold Budget.unlessFull at h ⊢
    split at h
    · cases h
      cases htruncated
    next hroom =>
      rw [if_neg (room_of_le hroom hle)]
      exact hnext.widens h htruncated hle

theorem whileRoom {rows : List α} (hbody : ∀ a ∈ rows, Lawful (body a)) (hnext : Lawful next) :
    Lawful (whileRoom body rows next) := by
  induction rows with
  | nil => exact hnext
  | cons a rest ih =>
    obtain ⟨ha, hrest⟩ := List.forall_mem_cons.mp hbody
    exact andThen ha (unlessFull (ih hrest))

theorem throw (e : ε) : Lawful (fun _ => .error e : Step ε ι) := ⟨nofun, fun _ h => (nomatch h), nofun⟩

theorem after {α : Type u} {e : Except ε α} {next : α → Step ε ι} (h : ∀ a, e = .ok a → Lawful (next a)) :
    Lawful (after e next) := by
  cases e with
  | error e => exact throw e
  | ok a => exact h a rfl

end Lawful

theorem not_one_le_empty : ¬(1 : ℕ∞) ≤ (([] : List ι).length : ℕ∞) := by
  rw [List.length_nil, Nat.cast_zero, nonpos_iff_eq_zero]
  exact one_ne_zero

/-- A run with the smaller budget reports the beginning of what the other reports, and agrees with it on
whether there is anything. -/
theorem Lawful.cut {step : Step ε ι} (h : Lawful step) {m n : ℕ∞} (hm : 1 ≤ m) (hmn : m ≤ n) {d' : Ctx ι}
    (hrun : step ⟨[], n, false⟩ = .ok d') :
    ∃ d, step ⟨[], m, false⟩ = .ok d ∧ (d.issues = [] ↔ d'.issues = []) ∧ d.issues <+: d'.issues := by
  have hstart : Behind (⟨[], m, false⟩ : Ctx ι) ⟨[], n, false⟩ := ⟨hmn, .inl rfl⟩
  obtain ⟨d, hd, hbehind⟩ := h.follows hstart hrun
  refine ⟨d, hd, ?_, hbehind.beginning⟩
  obtain heq | ⟨hspent, hbegins⟩ := hbehind.issues
  · rw [heq]
  · have hne : d.issues ≠ [] := by
      intro hnil
      have hbudget : d.maxErrors = m := (h.later hd).budget
      rw [Ctx.Spent, hbudget, hnil] at hspent
      exact not_one_le_empty (le_trans hm hspent)
    refine ⟨fun hnil => absurd hnil hne, fun hnil => absurd ?_ hne⟩
    rw [hnil] at hbegins
    exact List.prefix_nil.mp hbegins

/-! ### Reporting nothing -/

/-- The step reports nothing exactly where `p` holds, with any budget. -/
structure Meets (step : Step ε ι) (p : Prop) : Prop where
  lawful : Lawful step
  passes : ∀ {c d : Ctx ι}, c.issues = [] → 1 ≤ c.maxErrors → step c = .ok d → (d.issues = [] ↔ p)

theorem Ctx.room {c : Ctx ι} (hnil : c.issues = []) (hbudget : 1 ≤ c.maxErrors) : ¬c.Spent := by
  intro hspent
  rw [Ctx.Spent, hnil] at hspent
  exact not_one_le_empty (le_trans hbudget hspent)

namespace Meets

theorem done : Meets (done : Step ε ι) True := by
  refine ⟨.done, fun {c d} hnil _ h => ?_⟩
  cases h
  exact iff_true_intro hnil

theorem report (issue : ι) : Meets (report issue : Step ε ι) False := by
  refine ⟨.report _, fun {c d} hnil hbudget h => ?_⟩
  rw [Budget.report, if_neg (Ctx.room hnil hbudget)] at h
  cases h
  simp

theorem andThen {first : Step ε ι} {p q : Prop} (hfirst : Meets first p) (hnext : Meets next q) :
    Meets (andThen first next) (p ∧ q) := by
  refine ⟨.andThen hfirst.lawful hnext.lawful, fun {c d} hnil hbudget h => ?_⟩
  unfold Budget.andThen at h
  cases hmid : first c with
  | error e =>
    rw [hmid] at h
    cases h
  | ok mid =>
    rw [hmid] at h
    have hend : next mid = .ok d := h
    have hp := hfirst.passes hnil hbudget hmid
    by_cases hempty : mid.issues = []
    · have hq := hnext.passes hempty (by rw [(hfirst.lawful.later hmid).budget]; exact hbudget) hend
      rw [hq, ← hp]
      exact ⟨fun hq => ⟨hempty, hq⟩, And.right⟩
    · refine ⟨fun hnone => absurd ?_ hempty, fun hboth => absurd (hp.mpr hboth.1) hempty⟩
      have hbegins := (hnext.lawful.later hend).issues
      rw [hnone] at hbegins
      exact List.prefix_nil.mp hbegins

theorem unlessFull {p : Prop} (h : Meets next p) : Meets (unlessFull next) p := by
  refine ⟨.unlessFull h.lawful, fun {c d} hnil hbudget hrun => ?_⟩
  rw [Budget.unlessFull, if_neg (Ctx.room hnil hbudget)] at hrun
  exact h.passes hnil hbudget hrun

theorem iff {step : Step ε ι} {p q : Prop} (h : Meets step p) (hpq : p ↔ q) : Meets step q :=
  ⟨h.lawful, fun hnil hbudget hrun => (h.passes hnil hbudget hrun).trans hpq⟩

theorem whileRoom {rows : List α} {p : α → Prop} {q : Prop}
    (hbody : ∀ a ∈ rows, Meets (body a) (p a)) (hnext : Meets next q) :
    Meets (whileRoom body rows next) ((∀ a ∈ rows, p a) ∧ q) := by
  induction rows with
  | nil => exact hnext.iff ⟨fun hq => ⟨nofun, hq⟩, And.right⟩
  | cons a rest ih =>
    obtain ⟨ha, hrest⟩ := List.forall_mem_cons.mp hbody
    rw [List.forall_mem_cons, and_assoc]
    exact andThen ha (unlessFull (ih hrest))

theorem throw (e : ε) (p : Prop) : Meets (fun _ => .error e : Step ε ι) p :=
  ⟨.throw e, fun _ _ h => (nomatch h)⟩

theorem after {α : Type u} {e : Except ε α} {next : α → Step ε ι} {p : Prop}
    (h : ∀ a, e = .ok a → Meets (next a) p) : Meets (after e next) p := by
  cases e with
  | error e => exact throw e p
  | ok a => exact h a rfl

/-- A probe finds nothing exactly where the step does. -/
theorem probe {step : Step ε ι} {p : Prop} (h : Meets step p) {budget : ℕ∞} (hbudget : 1 ≤ budget)
    {found : List ι} (hrun : probe step budget = .ok found) : found = [] ↔ p := by
  unfold Budget.probe at hrun
  cases hd : step ⟨[], budget, false⟩ with
  | error e =>
    rw [hd] at hrun
    cases hrun
  | ok d =>
    rw [hd] at hrun
    cases hrun
    exact h.passes rfl hbudget hd

theorem probes {rows : List α} {p : α → Bool} (hbody : ∀ a ∈ rows, Meets (body a) (p a = true))
    {budget : ℕ∞} (hbudget : 1 ≤ budget) {found : List (List ι)}
    (hrun : rows.mapM (fun a => Budget.probe (body a) budget) = .ok found) :
    found.map (·.isEmpty) = rows.map p := by
  induction rows generalizing found with
  | nil =>
    cases hrun
    rfl
  | cons a rest ih =>
    obtain ⟨ha, hrest⟩ := List.forall_mem_cons.mp hbody
    rw [List.mapM_cons] at hrun
    cases hfirst : Budget.probe (body a) budget with
    | error e =>
      rw [hfirst] at hrun
      cases hrun
    | ok first =>
      rw [hfirst] at hrun
      cases hothers : rest.mapM (fun a => Budget.probe (body a) budget) with
      | error e =>
        rw [hothers] at hrun
        cases hrun
      | ok others =>
        rw [hothers] at hrun
        cases hrun
        have hempty : first.isEmpty = p a := by
          rw [Bool.eq_iff_iff, List.isEmpty_iff]
          exact ha.probe hbudget hfirst
        rw [List.map_cons, List.map_cons, hempty, ih hrest hothers]

end Meets

end Apim.Budget
