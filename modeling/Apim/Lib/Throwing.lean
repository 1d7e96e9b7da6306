import Mathlib.Data.List.Basic

/-!
# Programs whose throws keep what has been done

A run of such a program ends in a state whether it returns or throws. A contract says how a run may go on from
a state with the invariant, and what is left behind by a throw. Programs that meet a contract are closed under
sequencing and loops.
-/

namespace Apim.Throwing

variable {σ ε α β : Type}

/-- What a run from a state returns or throws, and the state it ends in. -/
def outcome (m : ExceptT ε (StateM σ) α) (s : σ) : Except ε α × σ := m.run.run s

@[simp]
theorem outcome_pure (a : α) (s : σ) : outcome (pure a : ExceptT ε (StateM σ) α) s = (.ok a, s) := rfl

@[simp]
theorem outcome_throw (e : ε) (s : σ) : outcome (throw e : ExceptT ε (StateM σ) α) s = (.error e, s) := rfl

@[simp]
theorem outcome_get (s : σ) : outcome (get : ExceptT ε (StateM σ) σ) s = (.ok s, s) := rfl

@[simp]
theorem outcome_modify (f : σ → σ) (s : σ) :
    outcome (modify f : ExceptT ε (StateM σ) PUnit) s = (.ok ⟨⟩, f s) := rfl

theorem outcome_bind_ok {m : ExceptT ε (StateM σ) α} {s t : σ} {a : α} (h : outcome m s = (.ok a, t))
    (f : α → ExceptT ε (StateM σ) β) : outcome (m >>= f) s = outcome (f a) t := by
  show ExceptT.bindCont f (outcome m s).1 (outcome m s).2 = _
  rw [h]
  rfl

theorem outcome_bind_error {m : ExceptT ε (StateM σ) α} {s t : σ} {e : ε} (h : outcome m s = (.error e, t))
    (f : α → ExceptT ε (StateM σ) β) : outcome (m >>= f) s = (.error e, t) := by
  show ExceptT.bindCont f (outcome m s).1 (outcome m s).2 = _
  rw [h]
  rfl

/-- What a handler makes of an outcome. -/
def caught (f : ε → ExceptT ε (StateM σ) α) : Except ε α × σ → Except ε α × σ
  | (.ok a, t) => (.ok a, t)
  | (.error e, t) => outcome (f e) t

theorem outcome_tryCatch (m : ExceptT ε (StateM σ) α) (f : ε → ExceptT ε (StateM σ) α) (s : σ) :
    outcome (tryCatch m f) s = caught f (outcome m s) := by
  show ((match (outcome m s).1 with
    | .ok a => Pure.pure (Except.ok a)
    | .error e => (f e).run : StateM σ (Except ε α)) (outcome m s).2 : Except ε α × σ) = _
  cases outcome m s with
  | mk result t => cases result <;> rfl

theorem outcome_tryCatch_ok {m : ExceptT ε (StateM σ) α} {s t : σ} {a : α} (h : outcome m s = (.ok a, t))
    (f : ε → ExceptT ε (StateM σ) α) : outcome (tryCatch m f) s = (.ok a, t) := by
  rw [outcome_tryCatch, h]
  rfl

theorem outcome_tryCatch_error {m : ExceptT ε (StateM σ) α} {s t : σ} {e : ε} (h : outcome m s = (.error e, t))
    (f : ε → ExceptT ε (StateM σ) α) : outcome (tryCatch m f) s = outcome (f e) t := by
  rw [outcome_tryCatch, h]
  rfl

/-- An invariant, the order in which a run goes on, and what a throw leaves. -/
structure Contract (σ ε : Type) where
  inv : σ → Prop
  rel : σ → σ → Prop
  thrown : σ → ε → σ → Prop
  refl : ∀ s, rel s s
  trans : ∀ {s t u}, rel s t → rel t u → rel s u
  extend : ∀ {s t u e}, rel s t → thrown t e u → thrown s e u

variable {c d : Contract σ ε}

/-- A run from the state that returns keeps the invariant, goes on in the order and has the result asked for;
one that throws leaves what it may. -/
def Meets (c : Contract σ ε) (s : σ) (m : ExceptT ε (StateM σ) α) (Q : α → σ → Prop) : Prop :=
  match outcome m s with
  | (.ok a, t) => c.inv t ∧ c.rel s t ∧ Q a t
  | (.error e, t) => c.thrown s e t

namespace Meets

variable {s : σ} {m : ExceptT ε (StateM σ) α} {Q : α → σ → Prop}

theorem of_ok {a : α} {t : σ} (h : outcome m s = (.ok a, t)) (hinv : c.inv t) (hrel : c.rel s t) (hQ : Q a t) :
    Meets c s m Q := by
  rw [Meets, h]
  exact ⟨hinv, hrel, hQ⟩

theorem of_error {e : ε} {t : σ} (h : outcome m s = (.error e, t)) (hthrown : c.thrown s e t) : Meets c s m Q := by
  rw [Meets, h]
  exact hthrown

theorem ok (hm : Meets c s m Q) {a : α} {t : σ} (h : outcome m s = (.ok a, t)) : c.inv t ∧ c.rel s t ∧ Q a t := by
  rw [Meets, h] at hm
  exact hm

theorem error (hm : Meets c s m Q) {e : ε} {t : σ} (h : outcome m s = (.error e, t)) : c.thrown s e t := by
  rw [Meets, h] at hm
  exact hm

theorem pure {a : α} (hs : c.inv s) (hQ : Q a s) : Meets c s (Pure.pure a) Q :=
  of_ok (outcome_pure a s) hs (c.refl s) hQ

theorem throw {e : ε} (h : c.thrown s e s) : Meets c s (MonadExcept.throw e) Q :=
  of_error (outcome_throw e s) h

theorem bind {f : α → ExceptT ε (StateM σ) β} {R : β → σ → Prop} (hm : Meets c s m Q)
    (hf : ∀ a t, c.inv t → c.rel s t → Q a t → Meets c t (f a) R) : Meets c s (m >>= f) R := by
  cases h : outcome m s with
  | mk result t =>
    cases result with
    | error e => exact of_error (outcome_bind_error h f) (hm.error h)
    | ok a =>
      obtain ⟨hinv, hrel, hQ⟩ := hm.ok h
      have hthen := hf a t hinv hrel hQ
      cases h' : outcome (f a) t with
      | mk result u =>
        cases result with
        | error e => exact of_error ((outcome_bind_ok h f).trans h') (c.extend hrel (hthen.error h'))
        | ok b =>
          obtain ⟨hinv', hrel', hR⟩ := hthen.ok h'
          exact of_ok ((outcome_bind_ok h f).trans h') hinv' (c.trans hrel hrel') hR

theorem get_bind {f : σ → ExceptT ε (StateM σ) α} (h : Meets c s (f s) Q) : Meets c s (get >>= f) Q := by
  rw [Meets, outcome_bind_ok (outcome_get s)]
  exact h

theorem ite {p : Prop} [Decidable p] {m' : ExceptT ε (StateM σ) α} (h : p → Meets c s m Q)
    (h' : ¬p → Meets c s m' Q) : Meets c s (if p then m else m') Q := by
  by_cases hp : p
  · rw [if_pos hp]
    exact h hp
  · rw [if_neg hp]
    exact h' hp

/-- A contract may be widened, and less may be asked of the result. -/
theorem weaken {R : α → σ → Prop} (hm : Meets c s m Q) (hinv : ∀ t, c.inv t → d.inv t)
    (hrel : ∀ t, c.rel s t → d.rel s t) (hthrown : ∀ e t, c.thrown s e t → d.thrown s e t)
    (hR : ∀ a t, c.inv t → Q a t → R a t) : Meets d s m R := by
  cases h : outcome m s with
  | mk result t =>
    cases result with
    | error e => exact of_error h (hthrown e t (hm.error h))
    | ok a =>
      obtain ⟨hi, hr, hQ⟩ := hm.ok h
      exact of_ok h (hinv t hi) (hrel t hr) (hR a t hi hQ)

theorem imp {R : α → σ → Prop} (hm : Meets c s m Q) (hR : ∀ a t, c.inv t → Q a t → R a t) : Meets c s m R :=
  hm.weaken (fun _ h => h) (fun _ h => h) (fun _ _ h => h) hR

/-- A loop that keeps a fact about its accumulator, and leaves one behind for every row. -/
theorem foldlM {rows : List α} {f : β → α → ExceptT ε (StateM σ) β} {J : β → Prop} {H : α → σ → Prop}
    (hstable : ∀ a s t, c.rel s t → H a s → H a t)
    (hf : ∀ b, ∀ a ∈ rows, ∀ s, c.inv s → J b → Meets c s (f b a) fun b' t => J b' ∧ H a t)
    {b : β} (hs : c.inv s) (hb : J b) : Meets c s (rows.foldlM f b) fun b' t => J b' ∧ ∀ a ∈ rows, H a t := by
  induction rows generalizing b s with
  | nil => exact pure hs ⟨hb, nofun⟩
  | cons a rest ih =>
    rw [List.foldlM_cons]
    refine bind (hf b a List.mem_cons_self s hs hb) fun b' t ht _ hQ => ?_
    obtain ⟨hb', hH⟩ := hQ
    have hrest := ih (fun b a ha => hf b a (List.mem_cons_of_mem _ ha)) ht hb'
    cases h : outcome (rest.foldlM f b') t with
    | mk result u =>
      cases result with
      | error e => exact of_error h (hrest.error h)
      | ok b'' =>
        obtain ⟨hu, hrel, hb'', hall⟩ := hrest.ok h
        exact of_ok h hu hrel ⟨hb'', List.forall_mem_cons.mpr ⟨hstable a t u hrel hH, hall⟩⟩

/-- A loop that leaves a fact behind for every row, and whose every result comes from a row. -/
theorem mapM {rows : List α} {f : α → ExceptT ε (StateM σ) β} {H : α → σ → Prop} {K : α → β → Prop}
    (hstable : ∀ a s t, c.rel s t → H a s → H a t)
    (hf : ∀ a ∈ rows, ∀ s, c.inv s → Meets c s (f a) fun b t => H a t ∧ K a b) (hs : c.inv s) :
    Meets c s (rows.mapM f) fun bs t => (∀ a ∈ rows, H a t) ∧ ∀ b ∈ bs, ∃ a ∈ rows, K a b := by
  induction rows generalizing s with
  | nil => exact pure hs ⟨nofun, nofun⟩
  | cons a rest ih =>
    rw [List.mapM_cons]
    refine bind (hf a List.mem_cons_self s hs) fun b t ht _ hQ => ?_
    obtain ⟨hH, hK⟩ := hQ
    have hrest := ih (fun a ha => hf a (List.mem_cons_of_mem _ ha)) ht
    cases h : outcome (rest.mapM f) t with
    | mk result u =>
      cases result with
      | error e => exact of_error (outcome_bind_error h _) (hrest.error h)
      | ok bs =>
        obtain ⟨hu, hrel, hall, hfrom⟩ := hrest.ok h
        refine of_ok (outcome_bind_ok h _) hu hrel
          ⟨List.forall_mem_cons.mpr ⟨hstable a t u hrel hH, hall⟩, fun b' hb' => ?_⟩
        obtain rfl | hb' := List.mem_cons.mp hb'
        · exact ⟨a, List.mem_cons_self, hK⟩
        · obtain ⟨a', ha', hK'⟩ := hfrom b' hb'
          exact ⟨a', List.mem_cons_of_mem _ ha', hK'⟩

theorem filterAuxM {rows : List α} {p : α → ExceptT ε (StateM σ) Bool}
    (hp : ∀ a ∈ rows, ∀ s, c.inv s → Meets c s (p a) fun _ _ => True) (hs : c.inv s) (kept : List α) :
    Meets c s (rows.filterAuxM p kept) fun _ _ => True := by
  induction rows generalizing s kept with
  | nil => exact pure hs trivial
  | cons a rest ih =>
    refine bind (hp a List.mem_cons_self s hs) fun b t ht _ _ => ?_
    exact ih (fun a ha => hp a (List.mem_cons_of_mem _ ha)) ht (cond b (a :: kept) kept)

theorem filterM {rows : List α} {p : α → ExceptT ε (StateM σ) Bool}
    (hp : ∀ a ∈ rows, ∀ s, c.inv s → Meets c s (p a) fun _ _ => True) (hs : c.inv s) :
    Meets c s (rows.filterM p) fun _ _ => True :=
  bind (filterAuxM hp hs []) fun _ _ ht _ _ => pure ht trivial

end Meets

end Apim.Throwing
