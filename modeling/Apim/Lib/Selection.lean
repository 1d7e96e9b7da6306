import Mathlib.Data.List.Induction
import Mathlib.Order.Basic
import Mathlib.Order.Lattice

/-!
# The first of the best

A search that keeps what is admitted and scores higher than the best so far ends with the first of the
best: everything admitted before it scores less, and nothing admitted behind it scores more.
-/

namespace Apim.Selection

variable {α β κ : Type*} [LinearOrder κ]

/-- One round of the search. -/
def keepBest (admits : α → Bool) (score : α → κ) (best : Option α) (a : α) : Option α :=
  if admits a ∧ ∀ b ∈ best, score b < score a then some a else best

def firstBest (admits : α → Bool) (score : α → κ) (l : List α) : Option α :=
  l.foldl (keepBest admits score) none

/-- Everything admitted before scores less, and nothing admitted behind scores more. -/
def IsFirstBest (admits : α → Bool) (score : α → κ) (l : List α) (w : α) : Prop :=
  ∃ before after, l = before ++ w :: after ∧ admits w = true ∧
    (∀ a ∈ before, admits a = true → score a < score w) ∧
      ∀ a ∈ after, admits a = true → score a ≤ score w

section
variable {admits : α → Bool} {score : α → κ} {l : List α} {a w : α}

theorem IsFirstBest.mem (h : IsFirstBest admits score l w) : w ∈ l := by
  obtain ⟨before, after, rfl, -⟩ := h
  exact List.mem_append_right _ List.mem_cons_self

theorem IsFirstBest.admitted (h : IsFirstBest admits score l w) : admits w = true := by
  obtain ⟨before, after, -, hw, -⟩ := h
  exact hw

theorem IsFirstBest.le (h : IsFirstBest admits score l w) (ha : a ∈ l) (hadmits : admits a = true) :
    score a ≤ score w := by
  obtain ⟨before, after, rfl, -, hbefore, hafter⟩ := h
  rcases List.mem_append.mp ha with hin | hin
  · exact le_of_lt (hbefore a hin hadmits)
  · rcases List.mem_cons.mp hin with rfl | hin
    · exact le_refl _
    · exact hafter a hin hadmits

/-- A better one at the end takes the place. -/
theorem isFirstBest_concat (hadmits : admits a = true)
    (h : ∀ b ∈ l, admits b = true → score b < score a) :
    IsFirstBest admits score (l ++ [a]) a :=
  ⟨l, [], rfl, hadmits, h, fun _ hin => nomatch hin⟩

/-- One that is not admitted, or not better, does not. -/
theorem IsFirstBest.concat (h : IsFirstBest admits score l w)
    (ha : admits a = true → score a ≤ score w) : IsFirstBest admits score (l ++ [a]) w := by
  obtain ⟨before, after, rfl, hw, hbefore, hafter⟩ := h
  refine ⟨before, after ++ [a], List.append_assoc _ _ _, hw, hbefore, ?_⟩
  intro b hb hadmits
  rcases List.mem_append.mp hb with hin | hin
  · exact hafter b hin hadmits
  · obtain rfl := List.mem_singleton.mp hin
    exact ha hadmits

theorem firstBest_concat : firstBest admits score (l ++ [a]) =
    keepBest admits score (firstBest admits score l) a := by
  rw [firstBest, List.foldl_append, List.foldl_cons, List.foldl_nil, firstBest]

/-- What the search has found after each round. -/
theorem firstBest_spec (admits : α → Bool) (score : α → κ) (l : List α) :
    (firstBest admits score l = none ∧ ∀ a ∈ l, admits a = false) ∨
      ∃ w, firstBest admits score l = some w ∧ IsFirstBest admits score l w := by
  induction l using List.reverseRecOn with
  | nil => exact .inl ⟨rfl, fun _ hin => nomatch hin⟩
  | append_singleton l a ih =>
    rw [firstBest_concat]
    rcases ih with ⟨hnone, hrefused⟩ | ⟨w, hsome, hbest⟩
    · rw [hnone]
      cases hadmits : admits a with
      | true =>
        refine .inr ⟨a, if_pos ⟨hadmits, fun _ hin => nomatch hin⟩, isFirstBest_concat hadmits ?_⟩
        intro b hb hadmitted
        rw [hrefused b hb] at hadmitted
        cases hadmitted
      | false =>
        refine .inl ⟨if_neg (by simp [hadmits]), fun b hb => ?_⟩
        rcases List.mem_append.mp hb with hin | hin
        · exact hrefused b hin
        · obtain rfl := List.mem_singleton.mp hin
          exact hadmits
    · rw [hsome]
      by_cases hbetter : admits a = true ∧ score w < score a
      · have hkept : keepBest admits score (some w) a = some a :=
          if_pos ⟨hbetter.1, fun b hb => by
            obtain rfl := Option.some.inj hb
            exact hbetter.2⟩
        exact .inr ⟨a, hkept, isFirstBest_concat hbetter.1 fun b hb hadmitted =>
          lt_of_le_of_lt (hbest.le hb hadmitted) hbetter.2⟩
      · have hkept : keepBest admits score (some w) a = some w :=
          if_neg fun h => hbetter ⟨h.1, h.2 w rfl⟩
        exact .inr ⟨w, hkept, hbest.concat fun hadmits => not_lt.mp fun hlt =>
          hbetter ⟨hadmits, hlt⟩⟩

theorem IsFirstBest.unique {w' : α} (h : IsFirstBest admits score l w)
    (h' : IsFirstBest admits score l w') : w = w' := by
  obtain ⟨before, after, rfl, hw, hbefore, hafter⟩ := h
  obtain ⟨before', after', heq, hw', hbefore', hafter'⟩ := h'
  -- of two different places the earlier one scores less and not less
  rcases List.append_eq_append_iff.mp heq with ⟨between, hbetween, hrest⟩ | ⟨between, hbetween, hrest⟩
  · cases between with
    | nil => exact (List.cons.inj hrest).1
    | cons first between =>
      obtain ⟨rfl, hafter'_eq⟩ := List.cons.inj hrest
      have hlt : score w < score w' :=
        hbefore' w (by rw [hbetween]; simp) hw
      have hle : score w' ≤ score w := hafter w' (by rw [hafter'_eq]; simp) hw'
      exact absurd hlt (not_lt.mpr hle)
  · cases between with
    | nil => exact (List.cons.inj hrest).1.symm
    | cons first between =>
      obtain ⟨rfl, hafter_eq⟩ := List.cons.inj hrest
      have hlt : score w' < score w :=
        hbefore w' (by rw [hbetween]; simp) hw'
      have hle : score w ≤ score w' := hafter' w (by rw [hafter_eq]; simp) hw
      exact absurd hlt (not_lt.mpr hle)

theorem firstBest_eq_some_iff : firstBest admits score l = some w ↔
    IsFirstBest admits score l w := by
  rcases firstBest_spec admits score l with ⟨hnone, hrefused⟩ | ⟨w', hsome, hbest⟩
  · rw [hnone]
    refine ⟨fun h => (nomatch h), fun h => ?_⟩
    have hadmitted := h.admitted
    rw [hrefused w h.mem] at hadmitted
    cases hadmitted
  · rw [hsome, Option.some_inj]
    exact ⟨fun h => h ▸ hbest, fun h => hbest.unique h⟩

theorem firstBest_eq_none_iff : firstBest admits score l = none ↔ ∀ a ∈ l, admits a = false := by
  rcases firstBest_spec admits score l with ⟨hnone, hrefused⟩ | ⟨w, hsome, hbest⟩
  · exact ⟨fun _ => hrefused, fun _ => hnone⟩
  · rw [hsome]
    refine ⟨fun h => (nomatch h), fun h => ?_⟩
    have hadmitted := hbest.admitted
    rw [h w hbest.mem] at hadmitted
    cases hadmitted

/-- A search over the kept ones alone is a search that admits only them. -/
theorem firstBest_filter (p : α → Bool) :
    firstBest admits score (l.filter p) = firstBest (fun a => p a && admits a) score l := by
  rw [firstBest, firstBest, List.foldl_filter]
  congr 1
  funext best a
  cases hp : p a with
  | true => simp [keepBest, hp]
  | false => simp [keepBest, hp]

theorem firstBest_map (f : β → α) (l : List β) :
    firstBest admits score (l.map f) =
      (firstBest (fun b => admits (f b)) (fun b => score (f b)) l).map f := by
  induction l using List.reverseRecOn with
  | nil => rfl
  | append_singleton l b ih =>
    rw [List.map_append, List.map_singleton, firstBest_concat, firstBest_concat, ih]
    cases firstBest (fun b => admits (f b)) (fun b => score (f b)) l with
    | none => simp [keepBest, apply_ite (Option.map f)]
    | some w => simp [keepBest, apply_ite (Option.map f)]

end

end Apim.Selection
