import Mathlib.Data.List.DropRight
import Apim.Shared.Routing

/-!
# Trimming

What `trim` leaves of a text: nothing blank at either end, and the whole text exactly when there was
nothing blank at either end.
-/

namespace Apim.Routing

theorem trim_eq (value : List Char) : trim value = (value.dropWhile isSpace).rdropWhile isSpace := rfl

def Bare (value : List Char) : Prop :=
  (∀ c ∈ value.head?, isSpace c = false) ∧ (∀ c ∈ value.getLast?, isSpace c = false)

theorem dropWhile_of_head {value : List Char} (h : ∀ c ∈ value.head?, isSpace c = false) :
    value.dropWhile isSpace = value := by
  cases value with
  | nil => rfl
  | cons c rest =>
    have hc : isSpace c = false := h c rfl
    rw [List.dropWhile_cons_of_neg (by simp [hc])]

theorem rdropWhile_of_last {value : List Char} (h : ∀ c ∈ value.getLast?, isSpace c = false) :
    value.rdropWhile isSpace = value := by
  rw [List.rdropWhile_eq_self_iff]
  intro hne hspace
  have hlast := h _ (List.getLast?_eq_getLast_of_ne_nil hne)
  rw [hlast] at hspace
  cases hspace

theorem trim_of_bare {value : List Char} (h : Bare value) : trim value = value := by
  rw [trim_eq, dropWhile_of_head h.1, rdropWhile_of_last h.2]

theorem bare_trim (value : List Char) : Bare (trim value) := by
  rw [trim_eq]
  generalize hkept : value.dropWhile isSpace = kept
  have hhead : ∀ c ∈ kept.head?, isSpace c = false := by
    intro c hc
    have hfirst := List.head?_dropWhile_not isSpace value
    rw [hkept, hc] at hfirst
    simpa using hfirst
  constructor
  · intro c hc
    obtain ⟨rest, hrest⟩ := List.rdropWhile_prefix (p := isSpace) kept
    cases hfront : kept.rdropWhile isSpace with
    | nil => rw [hfront] at hc; cases hc
    | cons d more =>
      rw [hfront] at hc hrest
      refine hhead c ?_
      rw [← hrest]
      exact hc
  · intro c hc
    have hne : kept.rdropWhile isSpace ≠ [] := by
      intro hnil
      rw [hnil] at hc
      cases hc
    have hlast := List.rdropWhile_last_not isSpace kept hne
    rw [List.getLast?_eq_getLast_of_ne_nil hne] at hc
    cases hc
    simpa using hlast

theorem trim_trim (value : List Char) : trim (trim value) = trim value :=
  trim_of_bare (bare_trim value)

theorem trim_blanks_append {front : List Char} (h : ∀ c ∈ front, isSpace c = true)
    (text : List Char) : trim (front ++ text) = trim text := by
  rw [trim_eq, List.dropWhile_append_of_pos h, trim_eq]

theorem trim_append_blanks (text : List Char) {back : List Char} (h : ∀ c ∈ back, isSpace c = true) :
    trim (text ++ back) = trim text := by
  have hback : ∀ kept : List Char, (kept ++ back).rdropWhile isSpace = kept.rdropWhile isSpace := by
    intro kept
    rw [List.rdropWhile, List.reverse_append,
      List.dropWhile_append_of_pos fun c hc => h c (List.mem_reverse.mp hc), List.rdropWhile]
  rw [trim_eq, trim_eq, List.dropWhile_append]
  split
  · next hempty => rw [List.isEmpty_iff.mp hempty, List.dropWhile_eq_nil_iff.mpr h]
  · exact hback _

theorem trim_dropWhile (text : List Char) : trim (text.dropWhile isSpace) = trim text := by
  have hsplit := List.takeWhile_append_dropWhile (p := isSpace) (l := text)
  conv_rhs => rw [← hsplit]
  exact (trim_blanks_append (fun c hc => List.mem_takeWhile_imp hc) _).symm

theorem trim_rdropWhile (text : List Char) : trim (text.rdropWhile isSpace) = trim text := by
  have hsplit : text.rdropWhile isSpace ++ (text.reverse.takeWhile isSpace).reverse = text := by
    rw [List.rdropWhile, ← List.reverse_append, List.takeWhile_append_dropWhile, List.reverse_reverse]
  conv_rhs => rw [← hsplit]
  exact (trim_append_blanks _ fun c hc => List.mem_takeWhile_imp (List.mem_reverse.mp hc)).symm

theorem trim_append_cons (front : List Char) {c : Char} (hc : isSpace c = false) (back : List Char) :
    trim (front ++ c :: back) = front.dropWhile isSpace ++ c :: back.rdropWhile isSpace := by
  have hfront : (front ++ c :: back).dropWhile isSpace = front.dropWhile isSpace ++ c :: back := by
    rw [List.dropWhile_append]
    split
    · next hempty =>
      rw [List.isEmpty_iff.mp hempty, List.dropWhile_cons_of_neg (by simp [hc]), List.nil_append]
    · rfl
  have hback : ∀ kept : List Char, (kept ++ c :: back).rdropWhile isSpace =
      kept ++ c :: back.rdropWhile isSpace := by
    intro kept
    rw [List.rdropWhile, List.rdropWhile, List.reverse_append, List.reverse_cons,
      List.append_assoc, List.dropWhile_append]
    split
    · next hempty =>
      rw [List.isEmpty_iff.mp hempty, List.singleton_append,
        List.dropWhile_cons_of_neg (by simp [hc])]
      simp
    · simp
  rw [trim_eq, hfront, hback]

end Apim.Routing
