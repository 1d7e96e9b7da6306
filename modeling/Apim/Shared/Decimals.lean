import Apim.Shared.JsNumber
import Mathlib.Tactic.Linarith
import Mathlib.Algebra.Order.Field.Power

/-!
# Seventeen digits

The shortest decimal of a double is read as the double (`ofRat_toLiteral`): there is one of 17 digits at
the latest, since it is nearer to the double than half the unit in which the double is rounded.
-/

namespace Apim.JsNumber

/-! ### Powers -/

theorem pow2_eq_zpow (e : Int) : pow2 e = (2 : Rat) ^ e := by
  cases e with
  | ofNat n =>
    show ((2 ^ n : Nat) : Rat) = (2 : Rat) ^ (n : Int)
    rw [zpow_natCast, Nat.cast_pow, Nat.cast_ofNat]
  | negSucc n =>
    show 1 / ((2 ^ (n + 1) : Nat) : Rat) = _
    rw [zpow_negSucc, Nat.cast_pow, Nat.cast_ofNat, one_div]

theorem pow10_eq_zpow (e : Int) : pow10 e = (10 : Rat) ^ e := by
  cases e with
  | ofNat n =>
    show ((10 ^ n : Nat) : Rat) = (10 : Rat) ^ (n : Int)
    rw [zpow_natCast, Nat.cast_pow, Nat.cast_ofNat]
  | negSucc n =>
    show 1 / ((10 ^ (n + 1) : Nat) : Rat) = _
    rw [zpow_negSucc, Nat.cast_pow, Nat.cast_ofNat, one_div]

theorem pow2_pos (e : Int) : 0 < pow2 e := by
  rw [pow2_eq_zpow]
  exact zpow_pos (by norm_num) e

theorem pow10_pos (e : Int) : 0 < pow10 e := by
  rw [pow10_eq_zpow]
  exact zpow_pos (by norm_num) e

theorem pow2_add (e f : Int) : pow2 (e + f) = pow2 e * pow2 f := by
  rw [pow2_eq_zpow, pow2_eq_zpow, pow2_eq_zpow, zpow_add₀ (by norm_num)]

theorem pow10_add (e f : Int) : pow10 (e + f) = pow10 e * pow10 f := by
  rw [pow10_eq_zpow, pow10_eq_zpow, pow10_eq_zpow, zpow_add₀ (by norm_num)]

theorem pow2_le {e f : Int} (h : e ≤ f) : pow2 e ≤ pow2 f := by
  rw [pow2_eq_zpow, pow2_eq_zpow]
  exact zpow_le_zpow_right₀ (by norm_num) h

theorem pow2_lt {e f : Int} : pow2 e < pow2 f ↔ e < f := by
  rw [pow2_eq_zpow, pow2_eq_zpow]
  exact zpow_lt_zpow_iff_right₀ (by norm_num)

theorem pow2_natCast (n : Nat) : pow2 (n : Int) = ((2 ^ n : Nat) : Rat) := rfl

theorem pow10_natCast (n : Nat) : pow10 (n : Int) = ((10 ^ n : Nat) : Rat) := rfl

/-! ### Rounding -/

variable {q : Rat}

theorem floor_eq {m : Int} (hlow : (m : Rat) ≤ q) (hhigh : q < m + 1) : q.floor = m :=
  (Int.floor_eq_iff.mpr ⟨hlow, hhigh⟩ : ⌊q⌋ = m)

theorem roundHalfEven_of_near {m : Int} (h : |q - m| < 1 / 2) : roundHalfEven q = m := by
  obtain ⟨hlow, hhigh⟩ := abs_lt.mp h
  unfold roundHalfEven
  rcases le_or_gt (m : Rat) q with hle | hlt
  · have hfloor : q.floor = m := floor_eq hle (by linarith)
    have hover : q - ((q.floor : Int) : Rat) < 1 / 2 := by
      rw [hfloor]
      linarith
    simp only [if_pos hover]
    exact hfloor
  · have hfloor : q.floor = m - 1 := by
      refine floor_eq ?_ ?_ <;> (push_cast; linarith)
    have hover : 1 / 2 < q - ((q.floor : Int) : Rat) := by
      rw [hfloor]
      push_cast
      linarith
    have hnot : ¬q - ((q.floor : Int) : Rat) < 1 / 2 := by linarith
    simp only [if_neg hnot, if_pos hover]
    rw [hfloor]
    omega

theorem exponentOf_spec (h : 0 < q) : pow2 (exponentOf q) ≤ q ∧ q < pow2 (exponentOf q + 1) := by
  have hnum : 0 < q.num := Rat.num_pos.mpr h
  obtain ⟨n, hn⟩ : ∃ n : Nat, q.num = n := ⟨q.num.natAbs, by omega⟩
  have hnpos : n ≠ 0 := by omega
  have hden : (0 : Rat) < (q.den : Rat) := by exact_mod_cast q.den_pos
  have hq : q * q.den = n := by
    rw [Rat.mul_den_eq_num, hn]
    rfl
  have hnlow : pow2 (Nat.log2 n : Int) ≤ n := by
    rw [pow2_natCast]
    exact_mod_cast Nat.log2_self_le hnpos
  have hnhigh : (n : Rat) < pow2 ((Nat.log2 n : Int) + 1) := by
    have hnat : ((Nat.log2 n : Int) + 1) = ((Nat.log2 n + 1 : Nat) : Int) := by push_cast; rfl
    rw [hnat, pow2_natCast]
    exact_mod_cast Nat.lt_log2_self
  have hdlow : pow2 (Nat.log2 q.den : Int) ≤ q.den := by
    rw [pow2_natCast]
    exact_mod_cast Nat.log2_self_le q.den_pos.ne'
  have hdhigh : (q.den : Rat) < pow2 ((Nat.log2 q.den : Int) + 1) := by
    have hnat : ((Nat.log2 q.den : Int) + 1) = ((Nat.log2 q.den + 1 : Nat) : Int) := by push_cast; rfl
    rw [hnat, pow2_natCast]
    exact_mod_cast Nat.lt_log2_self
  have habs : q.num.natAbs = n := by omega
  have hlow : pow2 ((Nat.log2 n : Int) - Nat.log2 q.den - 1) ≤ q := by
    have hsplit : pow2 (Nat.log2 n : Int) =
        pow2 ((Nat.log2 n : Int) - Nat.log2 q.den - 1) * pow2 ((Nat.log2 q.den : Int) + 1) := by
      rw [← pow2_add]
      congr 1
      omega
    by_contra hlt
    have hless : q * q.den < pow2 (Nat.log2 n : Int) := by
      rw [hsplit]
      exact mul_lt_mul'' (lt_of_not_ge hlt) hdhigh h.le hden.le
    linarith
  have hhigh : q < pow2 ((Nat.log2 n : Int) - Nat.log2 q.den + 1) := by
    have hsplit : pow2 ((Nat.log2 n : Int) + 1) =
        pow2 ((Nat.log2 n : Int) - Nat.log2 q.den + 1) * pow2 (Nat.log2 q.den : Int) := by
      rw [← pow2_add]
      congr 1
      omega
    by_contra hge
    have hmore : pow2 ((Nat.log2 n : Int) + 1) ≤ q * q.den := by
      rw [hsplit]
      exact mul_le_mul (le_of_not_gt hge) hdlow (pow2_pos _).le h.le
    linarith
  unfold exponentOf
  rw [habs]
  dsimp only
  split
  · next hless =>
    refine ⟨hlow, ?_⟩
    have hstep : (Nat.log2 n : Int) - Nat.log2 q.den - 1 + 1 = (Nat.log2 n : Int) - Nat.log2 q.den := by
      omega
    rwa [hstep]
  · next hge => exact ⟨le_of_not_gt hge, hhigh⟩

theorem pow2_grid {e u : Int} (h : u ≤ e) : ∃ k : Int, pow2 e = k * pow2 u := by
  obtain ⟨d, hd⟩ : ∃ d : Nat, e = d + u := ⟨(e - u).toNat, by omega⟩
  refine ⟨((2 ^ d : Nat) : Int), ?_⟩
  rw [hd, pow2_add, pow2_natCast, Int.cast_natCast]

theorem grid_step {m k : Int} {u : Rat} (hu : 0 < u) (h : (m : Rat) * u < k * u) :
    (m : Rat) * u + u ≤ k * u := by
  have hlt : (m : Rat) < k := lt_of_mul_lt_mul_right h hu.le
  have hle : (m : Rat) + 1 ≤ k := by exact_mod_cast hlt
  calc (m : Rat) * u + u = (m + 1) * u := by ring
    _ ≤ k * u := mul_le_mul_of_nonneg_right hle hu.le

variable {x : Rat}

theorem nearest_of_grid {k : Int} (hk : x = k * pow2 (unitOf q))
    (h : |q - x| < pow2 (unitOf q) * (1 / 2)) : nearest q = x := by
  have hpos := pow2_pos (unitOf q)
  have hround : roundHalfEven (q / pow2 (unitOf q)) = k := by
    apply roundHalfEven_of_near
    have hback : x / pow2 (unitOf q) = k := by
      rw [div_eq_iff hpos.ne']
      exact hk
    have hscaled : q / pow2 (unitOf q) - k = (q - x) / pow2 (unitOf q) := by
      rw [sub_div, hback]
    rw [hscaled, abs_div, abs_of_pos hpos, div_lt_iff₀ hpos, mul_comm]
    exact h
  rw [nearest, hround]
  exact hk.symm

theorem pow2_half (e : Int) : pow2 e * (1 / 2) = pow2 (e - 1) := by
  have hone : (1 / 2 : Rat) = pow2 (-1) := by norm_num [pow2_eq_zpow]
  rw [hone, ← pow2_add]
  rfl

theorem unitOf_of_near {m : Int} (hx : 0 < x) (hm : x = m * pow2 (unitOf x)) (hq : 0 < q)
    (h : |q - x| < x * pow2 (-54)) :
    unitOf q = unitOf x ∨ unitOf q = unitOf x - 1 ∧ x ≤ pow2 (unitOf x + 52) := by
  obtain ⟨hxlow, hxhigh⟩ := exponentOf_spec hx
  obtain ⟨hqlow, hqhigh⟩ := exponentOf_spec hq
  have hunit : unitOf x = max (exponentOf x - 52) (-1074) := rfl
  have hunit' : unitOf q = max (exponentOf q - 52) (-1074) := rfl
  have hpos := pow2_pos (unitOf x)
  obtain ⟨hbelow, habove⟩ := abs_lt.mp h
  have hgap : x * pow2 (-54) < pow2 (unitOf x) := by
    have hless : x < pow2 (unitOf x + 53) := lt_of_lt_of_le hxhigh (pow2_le (by omega))
    calc x * pow2 (-54) < pow2 (unitOf x + 53) * pow2 (-54) := mul_lt_mul_of_pos_right hless (pow2_pos _)
      _ = pow2 (unitOf x - 1) := by rw [← pow2_add]; congr 1; omega
      _ ≤ pow2 (unitOf x) := pow2_le (by omega)
  generalize unitOf x = u at *
  rcases lt_trichotomy (unitOf q) u with hlt | heq | hgt
  · refine Or.inr ?_
    obtain ⟨k, hk⟩ := pow2_grid (show u ≤ u + 52 by omega)
    have hqless : q < pow2 (u + 52) := lt_of_lt_of_le hqhigh (pow2_le (by omega))
    have hsmall : x ≤ pow2 (u + 52) := by
      by_contra hmore
      have hstep : pow2 (u + 52) + pow2 u ≤ x := by
        rw [hk, hm] at *
        exact grid_step hpos (lt_of_not_ge hmore)
      linarith
    have hquarter : x * pow2 (-54) < x * (1 / 2) := by
      refine mul_lt_mul_of_pos_left ?_ hx
      norm_num [pow2_eq_zpow]
    have hexponent : exponentOf x - 1 < exponentOf q + 1 := by
      refine pow2_lt.mp (lt_trans ?_ hqhigh)
      rw [← pow2_half]
      linarith
    exact ⟨by omega, hsmall⟩
  · exact Or.inl heq
  · -- `q` would have passed a power of two, and the grid of `x` with it.
    obtain ⟨k, hk⟩ := pow2_grid (show u ≤ u + 53 by omega)
    have hpassed : pow2 (u + 53) ≤ q := (pow2_le (by omega)).trans hqlow
    have hless : x < pow2 (u + 53) := lt_of_lt_of_le hxhigh (pow2_le (by omega))
    have hstep : x + pow2 u ≤ pow2 (u + 53) := by
      rw [hk, hm] at *
      exact grid_step hpos hless
    linarith

theorem nearest_of_near (hx : 0 < x) (hdouble : nearest x = x) (hq : 0 < q)
    (h : |q - x| < x * pow2 (-54)) : nearest q = x := by
  have hm : x = (roundHalfEven (x / pow2 (unitOf x)) : Int) * pow2 (unitOf x) := hdouble.symm
  have hxhigh := (exponentOf_spec hx).2
  have hunit : unitOf x = max (exponentOf x - 52) (-1074) := rfl
  generalize roundHalfEven (x / pow2 (unitOf x)) = m at hm
  rcases unitOf_of_near hx hm hq h with heq | ⟨hprevious, hsmall⟩
  · rw [← heq] at hm
    refine nearest_of_grid hm (lt_of_lt_of_le h ?_)
    have hless : x ≤ pow2 (unitOf q + 53) := hxhigh.le.trans (pow2_le (by omega))
    calc x * pow2 (-54) ≤ pow2 (unitOf q + 53) * pow2 (-54) :=
          mul_le_mul_of_nonneg_right hless (pow2_pos _).le
      _ = pow2 (unitOf q) * (1 / 2) := by rw [pow2_half, ← pow2_add]; congr 1; omega
  · have htwo : pow2 (unitOf x) = 2 * pow2 (unitOf q) := by
      have hone : (2 : Rat) = pow2 1 := by norm_num [pow2_eq_zpow]
      rw [hone, ← pow2_add]
      congr 1
      omega
    have hk : x = ((m * 2 : Int) : Rat) * pow2 (unitOf q) := by
      push_cast
      rw [mul_assoc, ← htwo]
      exact hm
    refine nearest_of_grid hk (lt_of_lt_of_le h ?_)
    calc x * pow2 (-54) ≤ pow2 (unitOf x + 52) * pow2 (-54) :=
          mul_le_mul_of_nonneg_right hsmall (pow2_pos _).le
      _ = pow2 (unitOf q) * (1 / 2) := by rw [pow2_half, ← pow2_add]; congr 1; omega

def IsDouble (x : Rat) : Prop := ofRat x = .finite x

theorem ofRat_pos (h : 0 < x) :
    ofRat x = if pow2 1024 ≤ nearest x then .infinite false else .finite (nearest x) := by
  have hsign : ¬x < 0 := not_lt.mpr h.le
  unfold ofRat
  rw [if_neg h.ne', abs_of_pos h]
  simp only [hsign, decide_false, if_false]

theorem ofRat_neg_eq (hq : 0 < q) : ofRat (-q) = .finite (-x) ↔ ofRat q = .finite x := by
  have hsign : -q < 0 := neg_lt_zero.mpr hq
  rw [ofRat_pos hq]
  unfold ofRat
  rw [if_neg hsign.ne, abs_neg, abs_of_pos hq]
  simp only [if_pos hsign]
  split
  · exact ⟨nofun, nofun⟩
  · constructor
    · intro h
      rw [neg_inj.mp (Double.finite.inj h)]
    · intro h
      rw [Double.finite.inj h]

theorem isDouble_iff (h : 0 < x) : IsDouble x ↔ nearest x = x ∧ x < pow2 1024 := by
  rw [IsDouble, ofRat_pos h]
  split
  · next hbig =>
    constructor
    · nofun
    · rintro ⟨hsame, hsmall⟩
      rw [hsame] at hbig
      exact absurd hsmall (not_lt.mpr hbig)
  · next hsmall =>
    constructor
    · intro hsame
      have hround := Double.finite.inj hsame
      rw [hround] at hsmall
      exact ⟨hround, lt_of_not_ge hsmall⟩
    · intro hsame
      rw [hsame.1]

/-! ### Digits -/

theorem toDigits_bounds {n : Nat} (h : 0 < n) :
    10 ^ ((Nat.toDigits 10 n).length - 1) ≤ n ∧ n < 10 ^ (Nat.toDigits 10 n).length := by
  have hlength : 0 < (Nat.toDigits 10 n).length := Nat.length_toDigits_pos
  have hhigh := (Nat.length_toDigits_le_iff (b := 10) (n := n) (by decide) hlength).mp le_rfl
  refine ⟨?_, hhigh⟩
  by_contra hless
  by_cases hone : (Nat.toDigits 10 n).length = 1
  · rw [hone] at hless
    omega
  · have hshort := (Nat.length_toDigits_le_iff (b := 10) (n := n) (by decide) (by omega)).mpr
      (Nat.lt_of_not_le hless)
    omega

theorem length_toDigits {s k : Nat} (hk : 0 < k) (hlow : 10 ^ (k - 1) ≤ s) (hhigh : s < 10 ^ k) :
    (Nat.toDigits 10 s).length = k := by
  have hle := (Nat.length_toDigits_le_iff (b := 10) (n := s) (by decide) hk).mpr hhigh
  have hpos : 0 < s := Nat.lt_of_lt_of_le (Nat.pow_pos (by decide)) hlow
  have hspec := (toDigits_bounds hpos).2
  have hlt : k - 1 < (Nat.toDigits 10 s).length :=
    (Nat.pow_lt_pow_iff_right (by decide)).mp (Nat.lt_of_le_of_lt hlow hspec)
  omega

theorem pointOf_spec (h : 0 < x) : pow10 (pointOf x - 1) ≤ x ∧ x < pow10 (pointOf x) := by
  unfold pointOf
  split
  · next hone =>
    have hfloor : (x.floor : Rat) ≤ x ∧ x < x.floor + 1 := Int.floor_eq_iff.mp (rfl : ⌊x⌋ = x.floor)
    have hpos : 1 ≤ x.floor := Rat.le_floor_iff.mpr (by exact_mod_cast hone)
    obtain ⟨n, hn⟩ : ∃ n : Nat, x.floor = n := ⟨x.floor.toNat, by omega⟩
    rw [hn] at hfloor hpos ⊢
    rw [Int.toNat_natCast]
    obtain ⟨hlow, hhigh⟩ := toDigits_bounds (n := n) (by omega)
    have hlength : 0 < (Nat.toDigits 10 n).length := Nat.length_toDigits_pos
    generalize (Nat.toDigits 10 n).length = len at *
    have hcast : (len : Int) - 1 = ((len - 1 : Nat) : Int) := by omega
    rw [hcast, pow10_natCast, pow10_natCast]
    constructor
    · calc ((10 ^ (len - 1) : Nat) : Rat) ≤ n := by exact_mod_cast hlow
        _ ≤ x := by exact_mod_cast hfloor.1
    · calc x < n + 1 := by exact_mod_cast hfloor.2
        _ ≤ ((10 ^ len : Nat) : Rat) := by exact_mod_cast hhigh
  · next hone =>
    have hsmall : x < 1 := lt_of_not_ge hone
    have hinv : 1 < 1 / x := (one_lt_div h).mpr hsmall
    have hceil : (((1 / x).ceil : Rat)) - 1 < 1 / x ∧ 1 / x ≤ (1 / x).ceil := by
      have hbelow : (1 / x).ceil - 1 < (1 / x).ceil := by omega
      refine ⟨?_, Rat.le_ceil⟩
      exact_mod_cast Rat.lt_ceil_iff.mp hbelow
    have hpos : 2 ≤ (1 / x).ceil := by
      have hlt : (1 : Rat) < ((1 / x).ceil : Rat) := hinv.trans_le hceil.2
      exact_mod_cast hlt
    obtain ⟨n, hn⟩ : ∃ n : Nat, (1 / x).ceil = n + 1 := ⟨(1 / x).ceil.toNat - 1, by omega⟩
    have hpred : (1 / x).ceil.toNat - 1 = n := by omega
    rw [hpred]
    rw [hn] at hceil
    push_cast at hceil
    obtain ⟨hlow, hhigh⟩ := toDigits_bounds (n := n) (by omega)
    have hlength : 0 < (Nat.toDigits 10 n).length := Nat.length_toDigits_pos
    generalize (Nat.toDigits 10 n).length = len at *
    have hfirst : (1 : Int) - len - 1 = -(len : Int) := by omega
    have hsecond : (1 : Int) - len = -((len - 1 : Nat) : Int) := by omega
    rw [hfirst, hsecond, pow10_eq_zpow, pow10_eq_zpow, zpow_neg, zpow_neg, zpow_natCast, zpow_natCast]
    have hx : x = (1 / x)⁻¹ := by rw [one_div, inv_inv]
    constructor
    · conv_rhs => rw [hx]
      refine inv_anti₀ (zero_lt_one.trans hinv) (hceil.2.trans ?_)
      exact_mod_cast hhigh
    · conv_lhs => rw [hx]
      refine inv_strictAnti₀ (by positivity) (lt_of_le_of_lt ?_ hceil.1)
      have hle : ((10 ^ (len - 1) : Nat) : Rat) ≤ n := by exact_mod_cast hlow
      push_cast at hle
      linarith

/-! ### Decimals of a double -/

def decimalValue (decimal : Nat × Int) : Rat :=
  decimal.1 * pow10 (decimal.2 - (Nat.toDigits 10 decimal.1).length)

theorem digitsValue_toDigits (n : Nat) : digitsValue (Nat.toDigits 10 n) = n :=
  Nat.ofDigitChars_ten_toDigits

theorem layout_value {digits : List Char} (h : digits ≠ []) (n : Int) :
    (layout digits n).value = digitsValue digits * pow10 (n - digits.length) := by
  have hlength : 0 < digits.length := List.length_pos_iff.mpr h
  unfold layout
  dsimp only
  split
  · next hrange =>
    obtain ⟨d, hd⟩ : ∃ d : Nat, n - digits.length = d := ⟨(n - digits.length).toNat, by omega⟩
    simp only [Literal.value, Literal.exponentValue, List.append_nil, List.length_nil, hd, Int.toNat_natCast,
      digitsValue, Nat.ofDigitChars_append, Nat.ofDigitChars_replicate_zero, Bool.false_eq_true, if_false]
    have hzero : pow10 (0 - ((0 : Nat) : Int)) = 1 := by norm_num [pow10_eq_zpow]
    rw [pow10_natCast, Nat.cast_mul, hzero, mul_one, mul_comm]
  split
  · next hrange =>
    have hexponent : (0 : Int) - (digits.drop n.toNat).length = n - digits.length := by
      rw [List.length_drop]
      omega
    simp only [Literal.value, Literal.exponentValue, List.take_append_drop, hexponent, Bool.false_eq_true,
      if_false]
  split
  · next hrange =>
    have hexponent : (0 : Int) - (List.replicate (-n).toNat '0' ++ digits).length = n - digits.length := by
      rw [List.length_append, List.length_replicate]
      omega
    have hdigits : digitsValue (['0'] ++ (List.replicate (-n).toNat '0' ++ digits)) = digitsValue digits := by
      have hzero : Nat.ofDigitChars 10 ['0'] 0 = 0 := by decide
      rw [digitsValue, Nat.ofDigitChars_append, Nat.ofDigitChars_append, hzero,
        Nat.ofDigitChars_replicate_zero, Nat.mul_zero]
      rfl
    simp only [Literal.value, Literal.exponentValue, hexponent, hdigits, Bool.false_eq_true, if_false]
  · have hexponent : (if decide (n - 1 < 0) = true then
        -(digitsValue (Nat.toDigits 10 (n - 1).natAbs) : Int)
        else digitsValue (Nat.toDigits 10 (n - 1).natAbs)) - (digits.drop 1).length = n - digits.length := by
      rw [digitsValue_toDigits, List.length_drop]
      split
      · next hneg =>
        rw [decide_eq_true_eq] at hneg
        omega
      · next hpos =>
        rw [decide_eq_true_eq] at hpos
        omega
    simp only [Literal.value, Literal.exponentValue, List.take_append_drop, hexponent, Bool.false_eq_true,
      if_false]

theorem scaled_bounds (h : 0 < x) {k : Nat} (hk : 0 < k) :
    ((10 ^ (k - 1) : Nat) : Rat) ≤ x / pow10 (pointOf x - k) ∧
      x / pow10 (pointOf x - k) < ((10 ^ k : Nat) : Rat) := by
  obtain ⟨hlow, hhigh⟩ := pointOf_spec h
  rw [le_div_iff₀ (pow10_pos _), div_lt_iff₀ (pow10_pos _), ← pow10_natCast, ← pow10_natCast, ← pow10_add,
    ← pow10_add]
  have hfirst : ((k - 1 : Nat) : Int) + (pointOf x - k) = pointOf x - 1 := by omega
  have hsecond : (k : Int) + (pointOf x - k) = pointOf x := by omega
  rw [hfirst, hsecond]
  exact ⟨hlow, hhigh⟩

theorem floor_scaled (h : 0 < x) {k : Nat} (hk : 0 < k) :
    10 ^ (k - 1) ≤ (x / pow10 (pointOf x - k)).floor.toNat ∧
      (x / pow10 (pointOf x - k)).floor.toNat < 10 ^ k ∧
      ((x / pow10 (pointOf x - k)).floor.toNat : Rat) ≤ x / pow10 (pointOf x - k) ∧
      x / pow10 (pointOf x - k) < (x / pow10 (pointOf x - k)).floor.toNat + 1 := by
  obtain ⟨hlow, hhigh⟩ := scaled_bounds h hk
  generalize x / pow10 (pointOf x - k) = scaled at *
  have hfloor : (scaled.floor : Rat) ≤ scaled ∧ scaled < scaled.floor + 1 :=
    Int.floor_eq_iff.mp (rfl : ⌊scaled⌋ = scaled.floor)
  have hle : ((10 ^ (k - 1) : Nat) : Int) ≤ scaled.floor := by
    rw [Rat.le_floor_iff]
    exact_mod_cast hlow
  have hpos : 0 ≤ scaled.floor := le_trans (Int.natCast_nonneg _) hle
  obtain ⟨n, hn⟩ : ∃ n : Nat, scaled.floor = n := ⟨scaled.floor.toNat, by omega⟩
  rw [hn] at hle hfloor ⊢
  rw [Int.toNat_natCast]
  rw [Int.cast_natCast] at hfloor
  refine ⟨by exact_mod_cast hle, ?_, hfloor⟩
  have hlt := lt_of_le_of_lt hfloor.1 hhigh
  exact_mod_cast hlt

theorem decimalOf_value (h : 0 < x) {k : Nat} (hk : 0 < k) {decimal : Nat × Int}
    (hdecimal : decimalOf x k = some decimal) :
    0 < decimal.1 ∧ ofRat (decimalValue decimal) = .finite x := by
  obtain ⟨hlow, hhigh, -, -⟩ := floor_scaled h hk
  rw [decimalOf, Option.map_eq_some_iff] at hdecimal
  obtain ⟨s, hfound, rfl⟩ := hdecimal
  have hfits := List.find?_some hfound
  have hmem := List.mem_of_find?_eq_some hfound
  rw [decide_eq_true_eq] at hfits
  obtain ⟨hpos, hread⟩ := hfits
  have hrange : s = (x / pow10 (pointOf x - k)).floor.toNat ∨
      s = (x / pow10 (pointOf x - k)).floor.toNat + 1 := by
    split at hmem
    · simpa using hmem
    · simpa [or_comm] using hmem
  split
  · next hcarried =>
    refine ⟨Nat.one_pos, ?_⟩
    have hlength : (Nat.toDigits 10 1).length = 1 := by decide
    rw [hcarried, ← pow10_natCast, ← pow10_add] at hread
    have hpoint : (k : Int) + (pointOf x - k) = pointOf x := by omega
    have hpoint' : pointOf x + 1 - ((1 : Nat) : Int) = pointOf x := by omega
    rw [hpoint] at hread
    rw [decimalValue, hlength, hpoint', Nat.cast_one, one_mul]
    exact hread
  · next hfits =>
    refine ⟨hpos, ?_⟩
    rw [decimalValue, length_toDigits hk (by omega) (by omega)]
    exact hread

theorem decimalOf_seventeen (h : 0 < x) (hdouble : IsDouble x) : (decimalOf x 17).isSome = true := by
  obtain ⟨hnearest, hbig⟩ := (isDouble_iff h).mp hdouble
  obtain ⟨hlow, hhigh, hbelow, habove⟩ := floor_scaled (k := 17) h (by decide)
  have hten := pow10_pos (pointOf x - (17 : Nat))
  -- A whole number next to the scaled one is read as the double.
  have hread : ∀ s : Nat, 0 < s → |(s : Rat) - x / pow10 (pointOf x - (17 : Nat))| ≤ 1 / 2 →
      ofRat ((s : Rat) * pow10 (pointOf x - (17 : Nat))) = .finite x := by
    intro s hs hnear
    have hpos : 0 < (s : Rat) * pow10 (pointOf x - (17 : Nat)) := mul_pos (by exact_mod_cast hs) hten
    have hdistance : |(s : Rat) * pow10 (pointOf x - (17 : Nat)) - x| < x * pow2 (-54) := by
      have hback : (s : Rat) * pow10 (pointOf x - (17 : Nat)) - x =
          (s - x / pow10 (pointOf x - (17 : Nat))) * pow10 (pointOf x - (17 : Nat)) := by
        rw [sub_mul, div_mul_cancel₀ _ hten.ne']
      have hpoint := (pointOf_spec h).1
      have hsplit : pow10 (pointOf x - (17 : Nat)) = pow10 (pointOf x - 1) * pow10 (-16) := by
        rw [← pow10_add]
        congr 1
        omega
      rw [hback, abs_mul, abs_of_pos hten]
      calc |(s : Rat) - x / pow10 (pointOf x - (17 : Nat))| * pow10 (pointOf x - (17 : Nat))
          ≤ 1 / 2 * (pow10 (pointOf x - 1) * pow10 (-16)) := by
            rw [← hsplit]
            exact mul_le_mul_of_nonneg_right hnear hten.le
        _ ≤ 1 / 2 * (x * pow10 (-16)) := by
            have hmul := mul_le_mul_of_nonneg_right hpoint (pow10_pos (-16)).le
            linarith
        _ < x * pow2 (-54) := by
            have hless : 1 / 2 * pow10 (-16) < pow2 (-54) := by norm_num [pow10_eq_zpow, pow2_eq_zpow]
            calc 1 / 2 * (x * pow10 (-16)) = x * (1 / 2 * pow10 (-16)) := by ring
              _ < x * pow2 (-54) := mul_lt_mul_of_pos_left hless h
    have hround := nearest_of_near h hnearest hpos hdistance
    rw [ofRat_pos hpos, hround, if_neg (not_le.mpr hbig)]
  have hfirst : 0 < (x / pow10 (pointOf x - (17 : Nat))).floor.toNat :=
    Nat.lt_of_lt_of_le (by decide) hlow
  rw [decimalOf, Option.isSome_map, List.find?_isSome]
  generalize (x / pow10 (pointOf x - (17 : Nat))).floor.toNat = low at *
  split
  · next hnear =>
    refine ⟨low, List.mem_cons_self, decide_eq_true ⟨hfirst, hread low hfirst ?_⟩⟩
    rw [abs_sub_comm, abs_of_nonneg (by linarith)]
    exact hnear
  · next hfar =>
    refine ⟨low + 1, List.mem_cons_self, decide_eq_true ⟨Nat.succ_pos _, hread (low + 1) (Nat.succ_pos _) ?_⟩⟩
    push_cast
    rw [abs_of_nonneg (by linarith)]
    linarith

theorem shortest_value (h : 0 < x) (hdouble : IsDouble x) :
    0 < (shortest x).1 ∧ ofRat (decimalValue (shortest x)) = .finite x := by
  rw [shortest]
  cases hfound : (List.range 17).findSome? fun k => decimalOf x (k + 1) with
  | none =>
    have hnone := List.findSome?_eq_none_iff.mp hfound 16 (List.mem_range.mpr (by decide))
    have hsome := decimalOf_seventeen h hdouble
    rw [hnone] at hsome
    cases hsome
  | some decimal =>
    obtain ⟨k, -, hdecimal⟩ := List.exists_of_findSome?_eq_some hfound
    exact decimalOf_value h (Nat.succ_pos k) hdecimal

/-! ### Reading what is written -/

theorem toLiteral_value (h : x ≠ 0) :
    (toLiteral x).value = if x < 0 then -decimalValue (shortest |x|) else decimalValue (shortest |x|) := by
  have hmagnitude := @layout_value (Nat.toDigits 10 (shortest |x|).1) Nat.toDigits_ne_nil (shortest |x|).2
  rw [digitsValue_toDigits] at hmagnitude
  have hunsigned : (layout (Nat.toDigits 10 (shortest |x|).1) (shortest |x|).2).negative = false := by
    unfold layout
    dsimp only
    repeat' split
    all_goals rfl
  rw [toLiteral, if_neg h]
  rw [Literal.value, hunsigned] at hmagnitude
  rw [Literal.value]
  simp only [decide_eq_true_eq]
  rw [decimalValue, ← hmagnitude]
  rfl

theorem ofRat_toLiteral (h : IsDouble x) : ofRat (toLiteral x).value = .finite x := by
  rcases lt_trichotomy x 0 with hneg | rfl | hpos
  · have hmagnitude : 0 < -x := neg_pos.mpr hneg
    have hdouble : IsDouble (-x) := (ofRat_neg_eq hmagnitude).mp (by rw [neg_neg]; exact h)
    obtain ⟨hdigits, hread⟩ := shortest_value hmagnitude hdouble
    have hvalue : 0 < decimalValue (shortest (-x)) :=
      mul_pos (by exact_mod_cast hdigits) (pow10_pos _)
    rw [toLiteral_value hneg.ne, if_pos hneg, abs_of_neg hneg]
    conv_rhs => rw [← neg_neg x]
    exact (ofRat_neg_eq hvalue).mpr hread
  · decide +kernel
  · rw [toLiteral_value hpos.ne', if_neg (not_lt.mpr hpos.le), abs_of_pos hpos]
    exact (shortest_value hpos h).2

theorem toLiteral_inj {y : Rat} (hx : IsDouble x) (hy : IsDouble y) (h : toLiteral x = toLiteral y) :
    x = y := by
  have hread := ofRat_toLiteral hx
  rw [h, ofRat_toLiteral hy] at hread
  exact (Double.finite.inj hread).symm

end Apim.JsNumber
