import Mathlib.Algebra.BigOperators.Group.List.Basic
import Mathlib.Algebra.Order.BigOperators.Group.List
import Mathlib.Algebra.GroupWithZero.Nat

/-!
# Making room from the front

Things of some size are dropped from the front of a list until what is left is within a ceiling.
`dropped` is what goes. A thing goes exactly when the things before it were not enough
(`mem_dropped_iff`).
-/

namespace Apim.Eviction

variable {α : Type*} (size : α → Nat) (ceiling : Nat)

/-- What is dropped of `queue`, where everything together has the size `total`. -/
def dropped : Nat → List α → List α
  | _, [] => []
  | total, x :: queue => if total ≤ ceiling then [] else x :: dropped (total - size x) queue

variable {size ceiling}

theorem mem_dropped_iff {total : Nat} {queue : List α} {x : α} :
    x ∈ dropped size ceiling total queue ↔
      ∃ front back, queue = front ++ x :: back ∧ ceiling + (front.map size).sum < total := by
  induction queue generalizing total with
  | nil => simp [dropped]
  | cons y queue ih =>
    rw [dropped]
    by_cases hle : total ≤ ceiling
    · rw [if_pos hle]
      constructor
      · intro h
        cases h
      · rintro ⟨front, back, -, hlt⟩
        omega
    · rw [if_neg hle, List.mem_cons, ih]
      constructor
      · rintro (rfl | ⟨front, back, rfl, hlt⟩)
        · exact ⟨[], queue, rfl, by simpa using hle⟩
        · refine ⟨y :: front, back, rfl, ?_⟩
          rw [List.map_cons, List.sum_cons]
          omega
      · rintro ⟨front, back, hqueue, hlt⟩
        cases front with
        | nil =>
          obtain ⟨rfl, -⟩ := List.cons.inj hqueue
          exact .inl rfl
        | cons z front =>
          obtain ⟨rfl, rfl⟩ := List.cons.inj hqueue
          rw [List.map_cons, List.sum_cons] at hlt
          exact .inr ⟨front, back, rfl, by omega⟩

end Apim.Eviction
