import Mathlib.Algebra.BigOperators.Group.List.Basic
import Mathlib.Algebra.Order.BigOperators.Group.List
import Mathlib.Algebra.GroupWithZero.Nat

/-!
# Totals over the members of a list

What the members of a list hold together, and how it changes when one of them is replaced, comes or
goes.
-/

namespace Apim.Totals

variable {α : Type*}

def total (f : α → Nat) (members : List α) : Nat := (members.map f).sum

@[simp] theorem total_nil (f : α → Nat) : total f [] = 0 := rfl

@[simp] theorem total_cons (f : α → Nat) (x : α) (members : List α) :
    total f (x :: members) = f x + total f members := List.sum_cons

theorem total_append (f : α → Nat) (front back : List α) :
    total f (front ++ back) = total f front + total f back := by
  rw [total, List.map_append, List.sum_append]
  rfl

variable {members : List α}

theorem total_set (f : α → Nat) {i : Nat} {x : α} (h : members[i]? = some x) (y : α) :
    total f (members.set i y) + f x = total f members + f y := by
  induction members generalizing i with
  | nil => cases h
  | cons z members ih =>
    cases i with
    | zero =>
      cases h
      rw [List.set_cons_zero, total_cons, total_cons]
      omega
    | succ i =>
      have hrest := ih (i := i) h
      rw [List.set_cons_succ, total_cons, total_cons]
      omega

theorem total_eraseIdx (f : α → Nat) {i : Nat} {x : α} (h : members[i]? = some x) :
    total f (members.eraseIdx i) + f x = total f members := by
  induction members generalizing i with
  | nil => cases h
  | cons z members ih =>
    cases i with
    | zero =>
      cases h
      rw [List.eraseIdx_cons_zero, total_cons]
      omega
    | succ i =>
      have hrest := ih (i := i) h
      rw [List.eraseIdx_cons_succ, total_cons, total_cons]
      omega

/-- A member of a list one of whose members was replaced. -/
theorem getElem?_set_cases {i j : Nat} {x y : α} (h : (members.set i y)[j]? = some x) :
    (j = i ∧ x = y) ∨ members[j]? = some x := by
  rw [List.getElem?_set] at h
  split at h
  · rename_i hij
    split at h
    · exact .inl ⟨hij.symm, (Option.some.inj h).symm⟩
    · cases h
  · exact .inr h

theorem getElem?_append_one {j : Nat} {x y : α} (h : (members ++ [y])[j]? = some x) :
    members[j]? = some x ∨ x = y := by
  rw [List.getElem?_append] at h
  split at h
  · exact .inl h
  · exact .inr (List.mem_singleton.mp (List.mem_of_getElem? h))

theorem total_map_of_eq (f : α → Nat) (g : α → α) (h : ∀ x, f (g x) = f x) (members : List α) :
    total f (members.map g) = total f members := by
  rw [total, List.map_map]
  exact congrArg List.sum (List.map_congr_left fun x _ => h x)

theorem le_total (f : α → Nat) {i : Nat} {x : α} (h : members[i]? = some x) :
    f x ≤ total f members := by
  have hsum := total_eraseIdx f h
  omega

end Apim.Totals
