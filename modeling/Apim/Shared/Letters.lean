import Mathlib.Data.List.Basic

/-!
# Letters

`toLower` on the letters of ASCII: what it gives is no capital, and nothing but a letter becomes what
is not one. And a text that is cut at its first mark is cut in one way.
-/

namespace Apim.Letters

theorem isAlpha_eq (c : Char) : c.isAlpha = (c.isUpper || c.isLower) := rfl

theorem isUpper_toLower (c : Char) : c.toLower.isUpper = false := by
  delta Char.isUpper Char.toLower
  simp only [ge_iff_le]
  split <;> grind [UInt32.toNat_add, Char.toNat_val]

theorem isLower_toLower {c : Char} (h : c.isUpper = true) : c.toLower.isLower = true := by
  delta Char.isUpper at h
  delta Char.isLower Char.toLower
  simp only [UInt32.le_iff_toNat_le, ge_iff_le, decide_eq_true_eq, Bool.and_eq_true] at h ⊢
  rw [dif_pos h]
  have hadd : (c.val + 32).toNat = c.val.toNat + 32 := by
    rw [UInt32.toNat_add]
    grind
  grind

theorem toLower_of_not_isUpper {c : Char} (h : c.isUpper = false) : c.toLower = c := by
  delta Char.isUpper at h
  delta Char.toLower
  simp only [ge_iff_le] at h ⊢
  split <;> grind [UInt32.toNat_add, Char.toNat_val]

theorem toLower_eq_iff {c other : Char} (hlower : other.isLower = false) :
    c.toLower = other ↔ c = other ∧ c.isUpper = false := by
  cases hupper : c.isUpper with
  | true =>
    have hfolded := isLower_toLower hupper
    constructor
    · rintro rfl
      rw [hfolded] at hlower
      cases hlower
    · rintro ⟨-, hbad⟩
      cases hbad
  | false => rw [toLower_of_not_isUpper hupper, and_iff_left rfl]

theorem isUpper_toUpper {c : Char} (h : c.isLower = true) : c.toUpper.isUpper = true := by
  delta Char.isLower at h
  delta Char.isUpper Char.toUpper
  simp only [UInt32.le_iff_toNat_le, ge_iff_le, decide_eq_true_eq, Bool.and_eq_true] at h ⊢
  rw [dif_pos h]
  have hsum : (c.val + 4294967264).toNat = (c.val.toNat + 4294967264) % 2 ^ 32 := UInt32.toNat_add _ _
  simp only [Char.reduceVal, UInt32.reduceToNat, UInt32.reduceSub] at h ⊢
  rw [hsum]
  omega

theorem toUpper_of_not_isLower {c : Char} (h : c.isLower = false) : c.toUpper = c := by
  delta Char.isLower at h
  delta Char.toUpper
  simp only [ge_iff_le] at h ⊢
  split <;> grind [UInt32.toNat_add, Char.toNat_val]

theorem toLower_toUpper (c : Char) : c.toUpper.toLower = c.toLower := by
  by_cases hsmall : 'a'.val ≤ c.val ∧ c.val ≤ 'z'.val
  · have hval : c.toUpper.val = c.val + 4294967264 := by
      delta Char.toUpper
      rw [dif_pos hsmall]
      rfl
    simp only [UInt32.le_iff_toNat_le, Char.reduceVal, UInt32.reduceToNat] at hsmall
    have hcapital : c.toUpper.val ≥ 'A'.val ∧ c.toUpper.val ≤ 'Z'.val := by
      rw [hval]
      simp only [ge_iff_le, UInt32.le_iff_toNat_le, UInt32.toNat_add, Char.reduceVal,
        UInt32.reduceToNat]
      omega
    have hback : c.toUpper.toLower.val = c.val := by
      delta Char.toLower
      rw [dif_pos hcapital, ← UInt32.toNat_inj]
      simp only [hval, UInt32.toNat_add, Char.reduceVal, UInt32.reduceSub, UInt32.reduceToNat]
      omega
    have hnot : ¬ (c.val ≥ 'A'.val ∧ c.val ≤ 'Z'.val) := by
      simp only [ge_iff_le, UInt32.le_iff_toNat_le, Char.reduceVal, UInt32.reduceToNat]
      omega
    have hkept : c.toLower = c := by
      delta Char.toLower
      rw [dif_neg hnot]
    rw [hkept]
    exact Char.ext hback
  · have hsame : c.toUpper = c := by
      delta Char.toUpper
      rw [dif_neg hsmall]
    rw [hsame]

theorem cut_unique {α : Type*} {mark : α} {front front' back back' : List α} (h : mark ∉ front)
    (h' : mark ∉ front') (heq : front ++ mark :: back = front' ++ mark :: back') :
    front = front' ∧ back = back' := by
  induction front generalizing front' with
  | nil =>
    cases front' with
    | nil => exact ⟨rfl, (List.cons.inj heq).2⟩
    | cons c front' => exact absurd ((List.cons.inj heq).1 ▸ List.mem_cons_self) h'
  | cons c front ih =>
    cases front' with
    | nil => exact absurd ((List.cons.inj heq).1 ▸ List.mem_cons_self) h
    | cons d front' =>
      obtain ⟨hcd, hrest⟩ := List.cons.inj heq
      obtain ⟨hfront, hback⟩ := ih (List.not_mem_of_not_mem_cons h) (List.not_mem_of_not_mem_cons h') hrest
      exact ⟨by rw [hcd, hfront], hback⟩

end Apim.Letters
