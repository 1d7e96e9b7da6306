import Mathlib.Data.List.Basic

/-!
# Runs of a guarded step function

A transition system is a function `step : σ → ε → Option σ`: `none` says that the event is not
enabled. `exec` replays a list of events, so a concrete run is confirmed by evaluation, and every
rule below is about the same function.

The rules come in three shapes. An invariant that each enabled event preserves holds at the end of
a run (`exec_invariant`), also when it is preserved only by steps that meet a condition
(`exec_invariant_of_guarded`). A property of single steps is a property of all steps of a run
(`EveryStep`), and two step properties that agree step by step agree along every run
(`everyStep_congr`). And a property of steps is refuted by a run that ends in a step at which a test
sees it fail (`not_everyStep_of_observed`).
-/

namespace Apim.Trace

variable {σ ε : Type*}

/-- Replay `events` from `s`; `none` when one of them is not enabled where it is tried. -/
def exec (step : σ → ε → Option σ) : σ → List ε → Option σ
  | s, [] => some s
  | s, e :: events => (step s e).bind fun next => exec step next events

@[simp] theorem exec_nil (step : σ → ε → Option σ) (s : σ) : exec step s [] = some s := rfl

theorem exec_cons (step : σ → ε → Option σ) (s : σ) (e : ε) (events : List ε) :
    exec step s (e :: events) = (step s e).bind fun next => exec step next events := rfl

variable {step : σ → ε → Option σ} {s : σ} {events : List ε}

theorem exec_cons_eq_some {s' : σ} {e : ε} (h : exec step s (e :: events) = some s') :
    ∃ mid, step s e = some mid ∧ exec step mid events = some s' := by
  rw [exec_cons] at h
  exact Option.bind_eq_some_iff.mp h

theorem exec_append (step : σ → ε → Option σ) (s : σ) (front back : List ε) :
    exec step s (front ++ back) = (exec step s front).bind fun mid => exec step mid back := by
  induction front generalizing s with
  | nil => rfl
  | cons e front ih =>
    rw [List.cons_append, exec_cons, exec_cons, Option.bind_assoc]
    congr 1
    funext next
    exact ih next

variable {front : List ε}

/-- The state between two parts of a run. -/
theorem exec_append_eq_some {s' : σ} {back : List ε} (h : exec step s (front ++ back) = some s') :
    ∃ mid, exec step s front = some mid ∧ exec step mid back = some s' := by
  rw [exec_append] at h
  exact Option.bind_eq_some_iff.mp h

/-! ### Invariants along a run -/

/-- `P` holds of every step of the run: of the state before, the event and the state after. -/
def EveryStep (step : σ → ε → Option σ) (P : σ → ε → σ → Prop) : σ → List ε → Prop
  | _, [] => True
  | s, e :: events => ∀ next, step s e = some next → P s e next ∧ EveryStep step P next events

variable {P : σ → ε → σ → Prop}

/-- What holds of every step holds of the step taken after any prefix of the run. -/
theorem EveryStep.at {s₁ s₂ : σ} {back : List ε} {e : ε}
    (h : EveryStep step P s (front ++ e :: back)) (hfront : exec step s front = some s₁)
    (hstep : step s₁ e = some s₂) : P s₁ e s₂ := by
  induction front generalizing s with
  | nil =>
    cases hfront
    exact (h s₂ hstep).1
  | cons e' front ih =>
    obtain ⟨mid, hmid, hrest⟩ := exec_cons_eq_some hfront
    exact ih (h mid hmid).2 hrest

theorem EveryStep.prefix {back : List ε} (h : EveryStep step P s (front ++ back)) :
    EveryStep step P s front := by
  induction front generalizing s with
  | nil => trivial
  | cons e front ih =>
    intro next hstep
    exact ⟨(h next hstep).1, ih (h next hstep).2⟩

theorem EveryStep.suffix {s₁ : σ} {back : List ε} (h : EveryStep step P s (front ++ back))
    (hfront : exec step s front = some s₁) : EveryStep step P s₁ back := by
  induction front generalizing s with
  | nil =>
    cases hfront
    exact h
  | cons e front ih =>
    obtain ⟨mid, hmid, hrest⟩ := exec_cons_eq_some hfront
    exact ih (h mid hmid).2 hrest

/-- A property of single steps, proved for all of them, holds along every run. -/
theorem everyStep_of_forall (hP : ∀ s e next, step s e = some next → P s e next) (s : σ)
    (events : List ε) : EveryStep step P s events := by
  induction events generalizing s with
  | nil => trivial
  | cons e events ih =>
    intro next hstep
    exact ⟨hP s e next hstep, ih next⟩

theorem everyStep_of_events (hP : ∀ e ∈ events, ∀ s next, P s e next) :
    EveryStep step P s events := by
  induction events generalizing s with
  | nil => trivial
  | cons e events ih =>
    intro next _
    exact ⟨hP e List.mem_cons_self s next, ih fun e' he' => hP e' (List.mem_cons_of_mem _ he')⟩

theorem EveryStep.append {mid : σ} {back : List ε} (hfront : EveryStep step P s front)
    (hmid : exec step s front = some mid) (hback : EveryStep step P mid back) :
    EveryStep step P s (front ++ back) := by
  induction front generalizing s with
  | nil =>
    cases hmid
    exact hback
  | cons e front ih =>
    intro next hnext
    obtain ⟨first, hfirst, hrest⟩ := exec_cons_eq_some hmid
    obtain rfl : next = first := Option.some.inj (hnext.symm.trans hfirst)
    exact ⟨(hfront next hfirst).1, ih (hfront next hfirst).2 hrest⟩

variable {Q : σ → ε → σ → Prop}

theorem EveryStep.and (hP : EveryStep step P s events) (hQ : EveryStep step Q s events) :
    EveryStep step (fun s e next => P s e next ∧ Q s e next) s events := by
  induction events generalizing s with
  | nil => trivial
  | cons e events ih =>
    intro next hnext
    exact ⟨⟨(hP next hnext).1, (hQ next hnext).1⟩, ih (hP next hnext).2 (hQ next hnext).2⟩

variable {I : σ → Prop}

/-- A step that meets `P` where an invariant holds keeps the invariant and has `Q`; so a run all of
whose steps meet `P` has `Q` at every step. -/
theorem everyStep_of_guarded
    (hI : ∀ s e next, I s → P s e next → step s e = some next → I next ∧ Q s e next) (hs : I s)
    (hP : EveryStep step P s events) : EveryStep step Q s events := by
  induction events generalizing s with
  | nil => trivial
  | cons e events ih =>
    intro next hstep
    obtain ⟨hmeets, hrest⟩ := hP next hstep
    obtain ⟨hnext, hQ⟩ := hI s e next hs hmeets hstep
    exact ⟨hQ, ih hnext hrest⟩

/-- A property of the steps taken where an invariant holds is a property of every step. -/
theorem everyStep_of_invariant (hI : ∀ s e next, I s → step s e = some next → I next)
    (hP : ∀ s e next, I s → step s e = some next → P s e next) (hs : I s) (events : List ε) :
    EveryStep step P s events :=
  everyStep_of_guarded (fun s e next hs _ h => ⟨hI s e next hs h, hP s e next hs h⟩) hs
    (everyStep_of_forall (P := fun _ _ _ => True) (fun _ _ _ _ => trivial) s events)

/-- Two properties of single steps that agree on each step taken where an invariant holds, and one of
which keeps the invariant, agree along every run from there all of whose steps meet a condition. -/
theorem everyStep_congr_of_guarded {G : σ → ε → σ → Prop}
    (hI : ∀ s e next, I s → G s e next → step s e = some next → P s e next → I next)
    (hPQ : ∀ s e next, I s → G s e next → step s e = some next → (P s e next ↔ Q s e next))
    (hs : I s) (hG : EveryStep step G s events) :
    EveryStep step P s events ↔ EveryStep step Q s events := by
  induction events generalizing s with
  | nil => exact Iff.rfl
  | cons e events ih =>
    constructor
    · intro h next hstep
      obtain ⟨hP, hrest⟩ := h next hstep
      obtain ⟨hmeets, hG'⟩ := hG next hstep
      exact ⟨(hPQ s e next hs hmeets hstep).mp hP,
        (ih (hI s e next hs hmeets hstep hP) hG').mp hrest⟩
    · intro h next hstep
      obtain ⟨hQ, hrest⟩ := h next hstep
      obtain ⟨hmeets, hG'⟩ := hG next hstep
      have hP := (hPQ s e next hs hmeets hstep).mpr hQ
      exact ⟨hP, (ih (hI s e next hs hmeets hstep hP) hG').mpr hrest⟩

/-- Two properties of single steps that agree on each step taken where an invariant holds, and one of
which keeps the invariant, agree along every run from there. -/
theorem everyStep_congr_of_kept (hI : ∀ s e next, I s → step s e = some next → P s e next → I next)
    (hPQ : ∀ s e next, I s → step s e = some next → (P s e next ↔ Q s e next)) (hs : I s)
    (events : List ε) : EveryStep step P s events ↔ EveryStep step Q s events :=
  everyStep_congr_of_guarded (G := fun _ _ _ => True) (fun s e next hs _ => hI s e next hs)
    (fun s e next hs _ => hPQ s e next hs) hs
    (everyStep_of_forall (fun _ _ _ _ => trivial) s events)

/-- Two properties of single steps that agree on each step taken where an invariant holds agree
along every run from there. -/
theorem everyStep_congr_of_invariant (hI : ∀ s e next, I s → step s e = some next → I next)
    (hPQ : ∀ s e next, I s → step s e = some next → (P s e next ↔ Q s e next)) (hs : I s)
    (events : List ε) : EveryStep step P s events ↔ EveryStep step Q s events :=
  everyStep_congr_of_kept (fun s e next hs h _ => hI s e next hs h) hPQ hs events

/-- Two properties of single steps that agree on each step agree along every run. -/
theorem everyStep_congr (hPQ : ∀ s e next, step s e = some next → (P s e next ↔ Q s e next)) (s : σ)
    (events : List ε) : EveryStep step P s events ↔ EveryStep step Q s events :=
  everyStep_congr_of_invariant (I := fun _ => True) (fun _ _ _ _ _ => trivial)
    (fun s e next _ => hPQ s e next) trivial events

/-- Every step of the run passes the test. -/
def passes (step : σ → ε → Option σ) (test : σ → ε → Bool) : σ → List ε → Bool
  | _, [] => true
  | s, e :: events => test s e && match step s e with
    | some next => passes step test next events
    | none => true

theorem everyStep_of_passes (test : σ → ε → Bool) (htest : ∀ s e next, test s e = true → P s e next)
    (h : passes step test s events = true) : EveryStep step P s events := by
  induction events generalizing s with
  | nil => trivial
  | cons e events ih =>
    intro next hstep
    simp only [passes, hstep, Bool.and_eq_true] at h
    exact ⟨htest s e next h.1, ih h.2⟩

/-- Two states of a run in which a test sees what is looked for. -/
theorem exec_observed (step : σ → ε → Option σ) (s : σ) (front back : List ε)
    (sees : σ → σ → Bool)
    (hseen : ((exec step s front).bind fun s₁ => (exec step s₁ back).map (sees s₁)) = some true) :
    ∃ s₁ s₂, exec step s front = some s₁ ∧ exec step s₁ back = some s₂ ∧ sees s₁ s₂ = true := by
  obtain ⟨s₁, hfront, hlast⟩ := Option.bind_eq_some_iff.mp hseen
  obtain ⟨s₂, hback, htrue⟩ := Option.map_eq_some_iff.mp hlast
  exact ⟨s₁, s₂, hfront, hback, htrue⟩

/-- A run whose last step is seen to violate a property of steps refutes it. -/
theorem not_everyStep_of_observed {e : ε} (violates : σ → σ → Bool)
    (hviolates : ∀ s₁ s₂, violates s₁ s₂ = true → ¬ P s₁ e s₂)
    (hseen : ((exec step s front).bind fun s₁ => (step s₁ e).map (violates s₁)) = some true) :
    ¬ EveryStep step P s (front ++ [e]) := by
  obtain ⟨s₁, hfront, hlast⟩ := Option.bind_eq_some_iff.mp hseen
  obtain ⟨s₂, hstep, hbad⟩ := Option.map_eq_some_iff.mp hlast
  intro h
  exact hviolates s₁ s₂ hbad (h.at hfront hstep)

/-- An invariant preserved by each step that meets `P` holds at the end of a run all of whose
steps meet `P`. -/
theorem exec_invariant_of_guarded
    (hI : ∀ s e next, I s → P s e next → step s e = some next → I next) {s' : σ} (hs : I s)
    (hP : EveryStep step P s events) (h : exec step s events = some s') : I s' := by
  induction events generalizing s with
  | nil =>
    cases h
    exact hs
  | cons e events ih =>
    obtain ⟨mid, hmid, hrest⟩ := exec_cons_eq_some h
    exact ih (hI s e mid hs (hP mid hmid).1 hmid) (hP mid hmid).2 hrest

/-- An invariant preserved by every step holds at the end of every run. -/
theorem exec_invariant (hI : ∀ s e next, I s → step s e = some next → I next) {s' : σ} (hs : I s)
    (h : exec step s events = some s') : I s' :=
  exec_invariant_of_guarded (P := fun _ _ _ => True) (fun s e next hs _ => hI s e next hs) hs
    (everyStep_of_forall (fun _ _ _ _ => trivial) s events) h

/-! ### Folds -/

/-- A fold is a run whose events are always enabled. -/
theorem exec_some (f : σ → ε → σ) (s : σ) (events : List ε) :
    exec (fun s e => some (f s e)) s events = some (events.foldl f s) := by
  induction events generalizing s with
  | nil => rfl
  | cons e events ih =>
    rw [exec_cons, Option.bind_some, ih]
    rfl

theorem foldl_invariant_of_guarded {f : σ → ε → σ} (hI : ∀ s e, I s → P s e (f s e) → I (f s e))
    (hs : I s) (hP : EveryStep (fun s e => some (f s e)) P s events) : I (events.foldl f s) := by
  refine exec_invariant_of_guarded (fun a e next ha hguard hnext => ?_) hs hP
    (exec_some f s events)
  obtain rfl := Option.some.inj hnext
  exact hI a e ha hguard

end Apim.Trace
