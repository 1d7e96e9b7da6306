import Mathlib.Init

/-!
# Contracts of stateful programs

A program that may fail carries a contract when every run of it that returns leads from a state with the
invariant to such a state, and to one that is later in the order of the contract. Programs that carry a
contract are closed under sequencing and loops.
-/

namespace Apim.Stateful

universe u v w

/-- An invariant, and the order in which a run may go on. -/
structure Contract (σ : Type u) where
  inv : σ → Prop
  rel : σ → σ → Prop
  refl : ∀ s, rel s s
  trans : ∀ {s t u}, rel s t → rel t u → rel s u

variable {σ ε α β : Type u} {c : Contract σ}

/-- Every run that returns keeps the invariant and goes on in the order. -/
def Carries (c : Contract σ) (m : StateT σ (Except ε) α) : Prop :=
  ∀ s a s', c.inv s → m s = .ok (a, s') → c.inv s' ∧ c.rel s s'

variable {m : StateT σ (Except ε) α} {f : α → StateT σ (Except ε) β}

theorem bind_eq_ok {s s' : σ} {b : β} :
    (m >>= f) s = .ok (b, s') ↔ ∃ a mid, m s = .ok (a, mid) ∧ f a mid = .ok (b, s') := by
  show (m s >>= fun p => f p.1 p.2) = .ok (b, s') ↔ _
  cases m s with
  | error e => exact ⟨nofun, nofun⟩
  | ok p => exact ⟨fun h => ⟨p.1, p.2, rfl, h⟩, fun ⟨a, mid, hp, h⟩ => by cases hp; exact h⟩

theorem pure_eq_ok {a b : α} {s s' : σ} :
    (pure a : StateT σ (Except ε) α) s = .ok (b, s') ↔ a = b ∧ s = s' := by
  show Except.ok (a, s) = .ok (b, s') ↔ _
  rw [Except.ok.injEq, Prod.mk.injEq]

theorem map_eq_ok {f : α → β} {s s' : σ} {b : β} :
    (f <$> m) s = .ok (b, s') ↔ ∃ a, m s = .ok (a, s') ∧ f a = b := by
  show (m s >>= fun p => .ok (f p.1, p.2)) = .ok (b, s') ↔ _
  cases m s with
  | error e => exact ⟨nofun, nofun⟩
  | ok p =>
    constructor
    · intro h
      cases h
      exact ⟨p.1, rfl, rfl⟩
    · rintro ⟨a, hp, rfl⟩
      cases hp
      rfl

namespace Carries

theorem pure (a : α) : Carries c (Pure.pure a : StateT σ (Except ε) α) := by
  intro s b s' hs h
  obtain ⟨-, rfl⟩ := pure_eq_ok.mp h
  exact ⟨hs, c.refl s⟩

theorem throw (e : ε) : Carries c (MonadExcept.throw e : StateT σ (Except ε) α) :=
  fun _ _ _ _ h => nomatch h

theorem bind (hm : Carries c m) (hf : ∀ a, Carries c (f a)) : Carries c (m >>= f) := by
  intro s b s' hs h
  obtain ⟨a, mid, hfirst, hthen⟩ := bind_eq_ok.mp h
  obtain ⟨hmid, hto⟩ := hm s a mid hs hfirst
  obtain ⟨hend, hfrom⟩ := hf a mid b s' hmid hthen
  exact ⟨hend, c.trans hto hfrom⟩

theorem map (f : α → β) (hm : Carries c m) : Carries c (f <$> m) := by
  intro s b s' hs h
  obtain ⟨a, hrun, -⟩ := map_eq_ok.mp h
  exact hm s a s' hs hrun

theorem foldlM {rows : List α} {f : β → α → StateT σ (Except ε) β}
    (hf : ∀ b, ∀ a ∈ rows, Carries c (f b a)) (b : β) : Carries c (rows.foldlM f b) := by
  induction rows generalizing b with
  | nil => exact pure b
  | cons a rest ih =>
    rw [List.foldlM_cons]
    exact bind (hf b a List.mem_cons_self) fun b' =>
      ih (fun b a ha => hf b a (List.mem_cons_of_mem _ ha)) b'

theorem mapM {rows : List α} (hf : ∀ a ∈ rows, Carries c (f a)) : Carries c (rows.mapM f) := by
  induction rows with
  | nil => exact pure []
  | cons a rest ih =>
    rw [List.mapM_cons]
    refine bind (hf a List.mem_cons_self) fun b => bind (ih fun a ha => ?_) fun others => pure _
    exact hf a (List.mem_cons_of_mem _ ha)

theorem forM {rows : List α} {f : α → StateT σ (Except ε) PUnit} (hf : ∀ a ∈ rows, Carries c (f a)) :
    Carries c (rows.forM f) := by
  induction rows with
  | nil => exact pure _
  | cons a rest ih =>
    show Carries c (f a >>= fun _ => rest.forM f)
    exact bind (hf a List.mem_cons_self) fun _ => ih fun a ha => hf a (List.mem_cons_of_mem _ ha)

end Carries

end Apim.Stateful
