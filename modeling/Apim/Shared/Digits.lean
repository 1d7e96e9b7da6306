import Apim.Shared.JsNumber
import Apim.Shared.Trimming

/-!
# Numbers written in digits

A row of digits is read by `Number` as the double nearest to it, so as itself where it has less than 54
bits. Code that looks for a whole number up to a small bound reads it exactly (`wholeUpTo_digits`), and
reads more texts than rows of digits.
-/

namespace Apim.JsNumber
open Routing (isSpace trim)

def IsDigits (text : List Char) : Prop := text ≠ [] ∧ ∀ c ∈ text, isDigit c = true

instance (text : List Char) : Decidable (IsDigits text) := inferInstanceAs (Decidable (_ ∧ _))

def wholeUpTo (bound : Nat) (text : List Char) : Option Nat :=
  match toNumber text with
  | some (.finite q) =>
    if q.den = 1 ∧ 0 ≤ q.num ∧ q.num ≤ bound then some q.num.toNat else none
  | _ => none

example : wholeUpTo 255 "0x0A".toList = some 10 ∧ wholeUpTo 255 " 1e1".toList = some 10 ∧
    wholeUpTo 255 "".toList = some 0 ∧ wholeUpTo 255 "256".toList = none := by decide +kernel

theorem not_space_of_isDigit {c : Char} (h : isDigit c = true) : isSpace c = false := by
  rw [isDigit, decide_eq_true_eq] at h
  have hlow : 48 ≤ c.toNat := UInt32.le_iff_toNat_le.mp h.1
  have hhigh : c.toNat ≤ 57 := UInt32.le_iff_toNat_le.mp h.2
  simp [isSpace]
  omega

variable {digits : List Char}

theorem trim_digits (h : ∀ c ∈ digits, isDigit c = true) : trim digits = digits := by
  refine Routing.trim_of_bare ⟨fun c hc => ?_, fun c hc => ?_⟩
  · exact not_space_of_isDigit (h c (List.mem_of_mem_head? hc))
  · exact not_space_of_isDigit (h c (List.mem_of_mem_getLast? hc))

theorem toNumber_row (h : IsDigits digits) :
    toNumber digits = some (ofRat (digitsValue digits : Rat)) := by
  obtain ⟨hne, h⟩ := h
  have hradix : ∀ {c d : Char} {rest : List Char}, digits = c :: d :: rest → isDigit d = true := by
    intro c d rest heq
    exact h d (by rw [heq]; exact List.mem_cons_of_mem _ List.mem_cons_self)
  have hpart : decimalPart false digits = some ⟨false, digits, [], none⟩ := by
    have htake : digits.takeWhile isDigit = digits := List.takeWhile_eq_self_iff.mpr h
    have hdrop : digits.dropWhile isDigit = [] := List.dropWhile_eq_nil_iff.mpr h
    simp [decimalPart, htake, hdrop, hne, exponentPart]
  have hvalue : (⟨false, digits, [], none⟩ : Literal).value = (digitsValue digits : Rat) := by
    simp [Literal.value, Literal.exponentValue, pow10]
  unfold toNumber
  rw [trim_digits h]
  split
  · exact absurd rfl hne
  · exact absurd (hradix rfl) (by decide)
  · exact absurd (hradix rfl) (by decide)
  · exact absurd (hradix rfl) (by decide)
  · exact absurd (hradix rfl) (by decide)
  · exact absurd (hradix rfl) (by decide)
  · exact absurd (hradix rfl) (by decide)
  · rename_i c rest _ _ _ _ _ _
    have hc := h c List.mem_cons_self
    have hminus : c ≠ '-' := fun heq => absurd hc (by rw [heq]; decide)
    have hplus : c ≠ '+' := fun heq => absurd hc (by rw [heq]; decide)
    have hword : c :: rest ≠ "Infinity".toList := by
      intro heq
      have hfirst : c = 'I' := (List.cons.inj heq).1
      exact absurd hc (by rw [hfirst]; decide)
    simp only [decide_eq_false hminus, Bool.false_eq_true, hplus, or_self, if_false, if_neg hword,
      hpart, Option.map_some, hvalue]

/-! ### Rows of many digits -/

theorem le_roundHalfEven {k : Int} {q : Rat} (h : (k : Rat) ≤ q) : k ≤ roundHalfEven q := by
  have hfloor : k ≤ q.floor := Rat.le_floor_iff.mpr h
  unfold roundHalfEven
  simp only
  split
  · exact hfloor
  · split
    · omega
    · split
      · exact hfloor
      · omega

theorem le_nearest_natCast {n : Nat} (h : 2 ^ 53 ≤ n) : (2 ^ 53 : Rat) ≤ nearest (n : Rat) := by
  have hpos : 0 < n := Nat.lt_of_lt_of_le (by decide) h
  have hlog : 53 ≤ Nat.log2 n := (Nat.le_log2 (by omega)).mpr h
  obtain ⟨k, hk⟩ : ∃ k : Nat, Nat.log2 n = k + 52 := ⟨Nat.log2 n - 52, by omega⟩
  have hunit : unitOf (n : Rat) = (k : Int) := by
    rw [unitOf, exponentOf_natCast hpos, hk]
    omega
  have hpow : (0 : Rat) < ((2 ^ k : Nat) : Rat) := by exact_mod_cast Nat.two_pow_pos k
  have hscaled : (((2 ^ 52 : Nat) : Int) : Rat) ≤ (n : Rat) / pow2 (unitOf (n : Rat)) := by
    rw [hunit, le_div_iff₀ (by exact hpow)]
    have hself := Nat.log2_self_le (n := n) (by omega)
    rw [hk, Nat.pow_add, Nat.mul_comm] at hself
    show (((2 ^ 52 : Nat) : Int) : Rat) * ((2 ^ k : Nat) : Rat) ≤ (n : Rat)
    exact_mod_cast hself
  have hround := le_roundHalfEven hscaled
  have hk2 : ((2 : Nat) : Rat) ≤ ((2 ^ k : Nat) : Rat) := by
    have : 2 ^ 1 ≤ 2 ^ k := Nat.pow_le_pow_right (by decide) (by omega)
    exact_mod_cast this
  rw [nearest, hunit]
  have hround' : ((2 ^ 52 : Nat) : Rat) ≤ (roundHalfEven ((n : Rat) / pow2 (k : Int)) : Rat) := by
    rw [hunit] at hround
    exact_mod_cast hround
  calc (2 ^ 53 : Rat) = ((2 ^ 52 : Nat) : Rat) * ((2 : Nat) : Rat) := by norm_num
    _ ≤ (roundHalfEven ((n : Rat) / pow2 (k : Int)) : Rat) * ((2 ^ k : Nat) : Rat) := by
      exact mul_le_mul hround' hk2 (by norm_num) (le_trans (by positivity) hround')

theorem wholeUpTo_digits {bound : Nat} (hbound : bound < 2 ^ 53) (h : IsDigits digits) :
    wholeUpTo bound digits =
      if digitsValue digits ≤ bound then some (digitsValue digits) else none := by
  rw [wholeUpTo, toNumber_row h]
  by_cases hlt : digitsValue digits < 2 ^ 53
  · have hread : ofRat (digitsValue digits : Rat) = .finite (digitsValue digits : Rat) := by
      by_cases hpos : 0 < digitsValue digits
      · exact ofRat_natCast hpos hlt
      · have hzero : digitsValue digits = 0 := by omega
        rw [hzero]
        rfl
    simp only [hread, Rat.den_natCast, Rat.num_natCast, Int.natCast_nonneg, true_and, Int.toNat_natCast,
      Nat.cast_le]
  · have hne : (digitsValue digits : Rat) ≠ 0 := by
      have : digitsValue digits ≠ 0 := by omega
      exact_mod_cast this
    have habs : |(digitsValue digits : Rat)| = digitsValue digits :=
      abs_of_nonneg (Nat.cast_nonneg _)
    have hnonneg : ¬(digitsValue digits : Rat) < 0 := not_lt.mpr (Nat.cast_nonneg _)
    have hbig := le_nearest_natCast (Nat.not_lt.mp hlt)
    rw [if_neg (by omega), ofRat, if_neg hne, habs]
    by_cases hinf : pow2 1024 ≤ nearest (digitsValue digits : Rat)
    · simp only [if_pos hinf]
    · simp only [if_neg hinf, if_neg hnonneg]
      refine if_neg ?_
      rintro ⟨hden, hnum, hle⟩
      have hvalue : nearest (digitsValue digits : Rat) =
          ((nearest (digitsValue digits : Rat)).num : Rat) := (Rat.den_eq_one_iff _).mp hden |>.symm
      rw [hvalue] at hbig
      have hfar : (2 ^ 53 : Int) ≤ (nearest (digitsValue digits : Rat)).num := by
        exact_mod_cast hbig
      omega

/-! ### Texts that are no numbers -/

variable {text : List Char}

theorem mem_trim {c : Char} (hspace : isSpace c = false) (h : c ∈ text) : c ∈ trim text := by
  have hkept : ∀ {l : List Char}, c ∈ l → c ∈ l.dropWhile isSpace := by
    intro l hl
    rw [← List.takeWhile_append_dropWhile (p := isSpace) (l := l)] at hl
    rcases List.mem_append.mp hl with hin | hin
    · rw [List.mem_takeWhile_imp hin] at hspace
      cases hspace
    · exact hin
  exact List.mem_reverse.mpr (hkept (List.mem_reverse.mpr (hkept h)))

theorem radixDigits_eq_none {base : Nat} (hbase : digitOf base ':' = none) (h : ':' ∈ digits) :
    radixDigits base digits = none := by
  have hfold : ∀ {rest : List Char} (n : Nat), ':' ∈ rest →
      rest.foldlM (fun n c => (digitOf base c).map fun d => base * n + d) n = none := by
    intro rest
    induction rest with
    | nil => exact fun _ hin => nomatch hin
    | cons c rest ih =>
      intro n hin
      rw [List.foldlM_cons]
      rcases List.mem_cons.mp hin with heq | hin
      · rw [← heq, hbase]
        rfl
      · cases digitOf base c with
        | none => rfl
        | some d => exact ih _ hin
  rw [radixDigits]
  split
  · rfl
  · exact hfold 0 h

theorem exponentPart_eq_none (h : ':' ∈ text) : exponentPart text = none := by
  cases text with
  | nil => cases h
  | cons c rest =>
    refine if_neg ?_
    rintro ⟨hmark, -, hdigits⟩
    have hrest : ':' ∈ rest := by
      rcases List.mem_cons.mp h with heq | hin
      · rw [← heq] at hmark
        exact absurd hmark (by decide)
      · exact hin
    have hin : ':' ∈ if decide (rest.head? = some '-') = true ∨ rest.head? = some '+' then rest.tail
        else rest := by
      split
      · next hsign =>
        cases rest with
        | nil => cases hrest
        | cons d more =>
          rcases List.mem_cons.mp hrest with heq | hin
          · rw [← heq] at hsign
            simp at hsign
          · exact hin
      · exact hrest
    exact absurd (hdigits ':' hin) (by decide)

theorem mem_dropWhile_digits (h : ':' ∈ text) : ':' ∈ text.dropWhile isDigit := by
  rw [← List.takeWhile_append_dropWhile (p := isDigit) (l := text)] at h
  rcases List.mem_append.mp h with hin | hin
  · exact absurd (List.mem_takeWhile_imp hin) (by decide)
  · exact hin

theorem decimalPart_eq_none (negative : Bool) (h : ':' ∈ text) :
    decimalPart negative text = none := by
  have hrest := mem_dropWhile_digits h
  have hbehind : decide ((text.dropWhile isDigit).head? = some '.') = true →
      ':' ∈ (text.dropWhile isDigit).tail.dropWhile isDigit := by
    intro hpoint
    refine mem_dropWhile_digits ?_
    cases hcut : text.dropWhile isDigit with
    | nil =>
      rw [hcut] at hrest
      cases hrest
    | cons c rest =>
      rw [hcut] at hrest hpoint
      rcases List.mem_cons.mp hrest with heq | hin
      · rw [← heq] at hpoint
        simp at hpoint
      · exact hin
  unfold decimalPart
  by_cases hpoint : decide ((text.dropWhile isDigit).head? = some '.') = true
  · simp only [hpoint, if_true, exponentPart_eq_none (hbehind hpoint), Option.map_none, ite_self]
  · simp only [hpoint, Bool.false_eq_true, if_false, exponentPart_eq_none hrest, Option.map_none, ite_self]

theorem toNumber_eq_none (h : ':' ∈ text) : toNumber text = none := by
  have htrim := mem_trim (by decide) h
  have hbehind : ∀ {c d : Char} {rest : List Char}, ':' ∈ c :: d :: rest → c ≠ ':' → d ≠ ':' →
      ':' ∈ rest := by
    intro c d rest hin hc hd
    rcases List.mem_cons.mp hin with heq | hin
    · exact absurd heq.symm hc
    · rcases List.mem_cons.mp hin with heq | hin
      · exact absurd heq.symm hd
      · exact hin
  unfold toNumber
  split
  · next hcut => rw [hcut] at htrim; cases htrim
  · next hcut =>
    rw [hcut] at htrim
    rw [radixDigits_eq_none (by decide) (hbehind htrim (by decide) (by decide)), Option.map_none]
  · next hcut =>
    rw [hcut] at htrim
    rw [radixDigits_eq_none (by decide) (hbehind htrim (by decide) (by decide)), Option.map_none]
  · next hcut =>
    rw [hcut] at htrim
    rw [radixDigits_eq_none (by decide) (hbehind htrim (by decide) (by decide)), Option.map_none]
  · next hcut =>
    rw [hcut] at htrim
    rw [radixDigits_eq_none (by decide) (hbehind htrim (by decide) (by decide)), Option.map_none]
  · next hcut =>
    rw [hcut] at htrim
    rw [radixDigits_eq_none (by decide) (hbehind htrim (by decide) (by decide)), Option.map_none]
  · next hcut =>
    rw [hcut] at htrim
    rw [radixDigits_eq_none (by decide) (hbehind htrim (by decide) (by decide)), Option.map_none]
  · next c rest _ _ _ _ _ _ hcut =>
    rw [hcut] at htrim
    have hunsigned : ':' ∈ if decide (c = '-') = true ∨ c = '+' then rest else c :: rest := by
      split
      · next hsign =>
        rcases List.mem_cons.mp htrim with heq | hin
        · rw [← heq] at hsign
          exact absurd hsign (by decide)
        · exact hin
      · exact htrim
    simp only
    rw [if_neg, decimalPart_eq_none _ hunsigned, Option.map_none]
    intro hword
    rw [hword] at hunsigned
    exact absurd hunsigned (by decide)

end Apim.JsNumber
