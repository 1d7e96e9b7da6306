import Mathlib.Data.List.Forall2

/-!
# Checks in sequence

A function that checks one thing after another and stops at the first that fails is a `do` block of
`Except`. `ensure` is a check that only lets pass, `demand` one that also reads a value, and `given`
one that a missing unit skips. The lemmas say what a run that got to its end has passed.
-/

namespace Apim.Guard

universe u

variable {ε α β γ : Type*}

/-- Goes on where the condition holds. -/
def ensure (c : Bool) (e : ε) : Except ε Unit := if c then .ok () else .error e

/-- Goes on with the value, where there is one. -/
def demand (o : Option α) (e : ε) : Except ε α :=
  match o with
  | some a => .ok a
  | none => .error e

/-- Runs a check for the unit, where there is one. -/
def given (unit : Option α) (check : α → Except ε β) : Except ε (Option β) :=
  match unit with
  | some a => (check a).map some
  | none => .ok none

/-- Runs a check for every row. -/
def each (rows : List α) (check : α → Except ε Unit) : Except ε Unit :=
  match rows with
  | [] => .ok ()
  | row :: rows => do
    check row
    each rows check

/-- The same result under another name for its failures. -/
def relabel (f : ε → γ) (x : Except ε α) : Except γ α :=
  match x with
  | .ok a => .ok a
  | .error e => .error (f e)

@[simp]
theorem bind_eq_ok {α β : Type u} {x : Except ε α} {f : α → Except ε β} {b : β} :
    (x >>= f) = .ok b ↔ ∃ a, x = .ok a ∧ f a = .ok b := by
  cases x with
  | ok a => simp [bind, Except.bind]
  | error e => simp [bind, Except.bind]

@[simp]
theorem pure_eq_ok {α : Type u} {a b : α} : (pure a : Except ε α) = .ok b ↔ a = b := by
  simp [pure, Except.pure]

@[simp]
theorem ensure_eq_ok {c : Bool} {e : ε} {u : Unit} : ensure c e = .ok u ↔ c = true := by
  cases c <;> simp [ensure]

@[simp]
theorem demand_eq_ok {o : Option α} {e : ε} {a : α} : demand o e = .ok a ↔ o = some a := by
  cases o <;> simp [demand]

@[simp]
theorem demand_some {a : α} {e : ε} : demand (some a) e = .ok a := rfl

@[simp]
theorem ok_bind {α β : Type u} {a : α} {f : α → Except ε β} : (Except.ok a >>= f) = f a := rfl

@[simp]
theorem error_bind {α β : Type u} {e : ε} {f : α → Except ε β} :
    (Except.error e >>= f) = .error e := rfl

/-! ### Which check failed -/

theorem bind_eq_error {α β : Type u} {x : Except ε α} {f : α → Except ε β} {e : ε} :
    (x >>= f) = .error e ↔ x = .error e ∨ ∃ a, x = .ok a ∧ f a = .error e := by
  cases x with
  | ok a => simp [bind, Except.bind]
  | error e => simp [bind, Except.bind]

theorem ensure_eq_error {c : Bool} {e e' : ε} : ensure c e = .error e' ↔ c = false ∧ e = e' := by
  cases c <;> simp [ensure]

theorem pure_ne_error {α : Type u} {a : α} {e : ε} : (pure a : Except ε α) ≠ .error e := nofun

theorem demand_eq_error {o : Option α} {e e' : ε} : demand o e = .error e' ↔ o = none ∧ e = e' := by
  cases o <;> simp [demand]

/-! ### What comes after a check -/

/-- What is done with the result is done with that of the last check. -/
theorem map_bind {α β γ : Type u} {x : Except ε α} {f : α → Except ε β} {g : β → γ} :
    (x >>= f).map g = x >>= fun a => (f a).map g := by
  cases x <;> rfl

/-- A check that was given a unit has run, and one that was given none has no result. -/
theorem of_given {unit : Option α} {check : α → Except ε β} {r : Option β}
    (h : given unit check = .ok r) :
    (∀ a, unit = some a → ∃ b, r = some b ∧ check a = .ok b) ∧ (unit = none → r = none) := by
  cases unit with
  | none =>
    cases h
    exact ⟨nofun, fun _ => rfl⟩
  | some a =>
    cases hcheck : check a with
    | error e =>
      rw [given, hcheck] at h
      cases h
    | ok b =>
      rw [given, hcheck] at h
      cases h
      refine ⟨fun a' ha => ?_, nofun⟩
      cases ha
      exact ⟨b, rfl, hcheck⟩

@[simp]
theorem each_eq_ok {rows : List α} {check : α → Except ε Unit} {u : Unit} :
    each rows check = .ok u ↔ ∀ row ∈ rows, check row = .ok () := by
  induction rows with
  | nil => simp [each]
  | cons row rows ih =>
    simp only [each, bind_eq_ok, ih, List.forall_mem_cons]
    exact ⟨fun ⟨(), hrow, hrest⟩ => ⟨hrow, hrest⟩, fun ⟨hrow, hrest⟩ => ⟨(), hrow, hrest⟩⟩

/-- A run over a list that got to its end has for every element what the check makes of it. -/
theorem mapM_eq_ok {α β : Type u} {check : α → Except ε β} {rows : List α} {results : List β} :
    rows.mapM check = .ok results ↔
      List.Forall₂ (fun row result => check row = .ok result) rows results := by
  induction rows generalizing results with
  | nil =>
    rw [List.mapM_nil, pure_eq_ok, List.forall₂_nil_left_iff]
    exact eq_comm
  | cons row rows ih =>
    simp only [List.mapM_cons, bind_eq_ok, pure_eq_ok, ih]
    constructor
    · rintro ⟨result, hrow, rest, hrest, rfl⟩
      exact .cons hrow hrest
    · intro h
      cases h with
      | cons hrow hrest => exact ⟨_, hrow, _, hrest, rfl⟩

@[simp]
theorem relabel_eq_ok {f : ε → γ} {x : Except ε α} {a : α} : relabel f x = .ok a ↔ x = .ok a := by
  cases x <;> simp [relabel]

end Apim.Guard
