import Mathlib.Data.List.Basic

/-!
# Places that are held by one

`holds k p` says that `k` holds the place `p`. Where several parties take and give up places, each
place has one holder at most as long as a place is only granted to a party that shares it with nobody
(`Exclusive.grant`).
-/

namespace Apim.Holding

variable {κ π : Type*} {holds holds' : κ → π → Prop}

/-- No place has two holders. -/
def Exclusive (holds : κ → π → Prop) : Prop := ∀ p k k', holds k p → holds k' p → k = k'

/-- Nobody but `k` holds the place. -/
def FreeFor (holds : κ → π → Prop) (k : κ) (p : π) : Prop := ∀ k', holds k' p → k' = k

theorem Exclusive.freeFor (h : Exclusive holds) {k : κ} {p : π} (hk : holds k p) :
    FreeFor holds k p :=
  fun k' hk' => h p k' k hk' hk

/-- One party is granted places that nobody else holds. -/
theorem Exclusive.grant (h : Exclusive holds) (new : κ → Prop)
    (hone : ∀ k k', new k → new k' → k = k')
    (hgrant : ∀ k p, holds' k p → holds k p ∨ (new k ∧ FreeFor holds k p)) :
    Exclusive holds' := by
  intro p k k' hk hk'
  rcases hgrant k p hk with hold | ⟨hnew, hfree⟩
  · rcases hgrant k' p hk' with hold' | ⟨hnew', hfree'⟩
    · exact h p k k' hold hold'
    · exact hfree' k hold
  · rcases hgrant k' p hk' with hold' | ⟨hnew', hfree'⟩
    · exact (hfree k' hold').symm
    · exact hone k k' hnew hnew'

end Apim.Holding
