import Apim.Shared.Telemetry

/-!
# Minutes and their names

A window is named by the text of its start. No two minutes share a name: each field of the text has
its own place, and the date tells the day. Nothing here depends on the order of the names, which
follows the order of the minutes in the years of four digits only.
-/

namespace Apim.Telemetry

/-! ### Days -/

theorem century_bounds {x h y e : Nat} (he : e < 4) (hx : x < 36524) (hh : h = (24 * e + x) / 1460)
    (hy : y = (x - h) / 365) : y < 100 ∧ 365 * y + y / 4 ≤ x ∧ x ≤ 365 * y + y / 4 + 365 := by
  obtain ⟨j, hj⟩ : ∃ j, j = x / 1460 := ⟨_, rfl⟩
  have hjr : h = j ∨ h = j + 1 := by omega
  obtain ⟨k, hk⟩ : ∃ k, k = (x % 1460 + 365 - h) / 365 := ⟨_, rfl⟩
  have hyk : y = 4 * j + k - 1 := by omega
  have hk5 : k = 0 ∨ k = 1 ∨ k = 2 ∨ k = 3 ∨ k = 4 := by omega
  refine ⟨by omega, ?_, ?_⟩
  · rcases hk5 with rfl | rfl | rfl | rfl | rfl <;> omega
  · rcases hk5 with rfl | rfl | rfl | rfl | rfl <;> omega

theorem yearOfEra_bounds {doe yoe : Nat} (hdoe : doe < 146097)
    (hyoe : yoe = (doe - doe / 1460 + doe / 36524 - doe / 146096) / 365) :
    yoe < 400 ∧ 365 * yoe + yoe / 4 - yoe / 100 ≤ doe ∧
      doe - (365 * yoe + yoe / 4 - yoe / 100) ≤ 365 := by
  rcases Nat.lt_or_ge doe 146096 with hlt | hlast
  · obtain ⟨e, he⟩ : ∃ e, e = doe / 36524 := ⟨_, rfl⟩
    obtain ⟨x, hx⟩ : ∃ x, x = doe % 36524 := ⟨_, rfl⟩
    have he4 : e < 4 := by omega
    have hdoe' : doe = 36524 * e + x := by omega
    obtain ⟨hy, hlow, hhigh⟩ := century_bounds (x := x) he4 (by omega) rfl rfl
    generalize hyy : (x - (24 * e + x) / 1460) / 365 = y at hy hlow hhigh
    have hyear : yoe = 100 * e + y := by
      have hleaps : doe / 1460 = 25 * e + (24 * e + x) / 1460 := by omega
      have hera : doe / 146096 = 0 := by omega
      rw [hyoe, hera, ← he, hleaps, ← hyy]
      omega
    have hcentury : yoe / 100 = e := by omega
    have hleap : yoe / 4 = 25 * e + y / 4 := by omega
    rw [hcentury, hleap, hdoe', hyear]
    omega
  · obtain rfl : doe = 146096 := by omega
    obtain rfl : yoe = 399 := hyoe
    decide

theorem dateOf_spec (day : Nat) : ∃ era yoe doy, yoe < 400 ∧ doy ≤ 365 ∧
    day + 719468 = era * 146097 + (365 * yoe + yoe / 4 - yoe / 100) + doy ∧
      dateOf day = (yoe + era * 400 + (if (if (5 * doy + 2) / 153 < 10 then (5 * doy + 2) / 153 + 3
        else (5 * doy + 2) / 153 - 9) ≤ 2 then 1 else 0),
        if (5 * doy + 2) / 153 < 10 then (5 * doy + 2) / 153 + 3 else (5 * doy + 2) / 153 - 9,
        doy - (153 * ((5 * doy + 2) / 153) + 2) / 5 + 1) := by
  have hdoe := Nat.mod_lt (day + 719468) (by decide : 0 < 146097)
  have hday := Nat.div_add_mod (day + 719468) 146097
  obtain ⟨hyoe, hstart, hdoy⟩ := yearOfEra_bounds hdoe rfl
  refine ⟨_, _, _, hyoe, hdoy, ?_, rfl⟩
  omega

theorem dateOf_injective : Function.Injective dateOf := by
  intro a b h
  obtain ⟨eraA, yoeA, doyA, hyoeA, hdoyA, hA, hdateA⟩ := dateOf_spec a
  obtain ⟨eraB, yoeB, doyB, hyoeB, hdoyB, hB, hdateB⟩ := dateOf_spec b
  rw [hdateA, hdateB] at h
  simp only [Prod.mk.injEq] at h
  obtain ⟨hyear, hmonth, hday⟩ := h
  have hmp : (5 * doyA + 2) / 153 = (5 * doyB + 2) / 153 := by
    split at hmonth <;> split at hmonth <;> omega
  rw [hmp] at hyear hday
  have hdoy : doyA = doyB := by omega
  have hera : eraA = eraB := by omega
  have hyoe : yoeA = yoeB := by omega
  rw [hera, hyoe, hdoy, ← hB] at hA
  exact Nat.add_right_cancel hA

theorem dateOf_bounds (day : Nat) : (dateOf day).2.1 < 100 ∧ (dateOf day).2.2 < 100 := by
  obtain ⟨era, yoe, doy, -, hdoy, -, hdate⟩ := dateOf_spec day
  rw [hdate]
  dsimp only
  constructor
  · split <;> omega
  · omega

/-! ### Texts of a fixed width -/

theorem toList_padded (width n : Nat) : (padded width n).toList =
    List.replicate (width - (Nat.toDigits 10 n).length) '0' ++ Nat.toDigits 10 n := by
  have hlen : (toString n).length = (Nat.toDigits 10 n).length := by
    rw [Nat.toString_eq_ofList_toDigits, String.length_ofList]
  unfold padded
  dsimp only
  rw [String.toList_append, String.toList_ofList, hlen, Nat.toString_eq_ofList_toDigits,
    String.toList_ofList]

theorem padded_injective (width : Nat) : Function.Injective (padded width) := by
  intro a b h
  have hread : ∀ n, Nat.ofDigitChars 10 (padded width n).toList 0 = n := by
    intro n
    rw [toList_padded, Nat.ofDigitChars_append, Nat.ofDigitChars_replicate_zero, Nat.mul_zero,
      Nat.ofDigitChars_ten_toDigits]
  rw [← hread a, h, hread b]

theorem le_length_padded (width n : Nat) : width ≤ (padded width n).toList.length := by
  rw [toList_padded, List.length_append, List.length_replicate]
  omega

theorem length_padded {width n : Nat} (hwidth : 0 < width) (h : n < 10 ^ width) :
    (padded width n).toList.length = width := by
  have hdigits := (Nat.length_toDigits_le_iff (b := 10) (by decide) hwidth).mpr h
  rw [toList_padded, List.length_append, List.length_replicate]
  omega

theorem append_padded_inj {x y sep : String} {width a b : Nat} (hwidth : 0 < width)
    (ha : a < 10 ^ width) (hb : b < 10 ^ width)
    (h : x ++ sep ++ padded width a = y ++ sep ++ padded width b) : x = y ∧ a = b := by
  have hlist := congrArg String.toList h
  simp only [String.toList_append] at hlist
  have hlen : (padded width a).toList.length = (padded width b).toList.length :=
    (length_padded hwidth ha).trans (length_padded hwidth hb).symm
  obtain ⟨hfront, hlast⟩ := List.append_inj' hlist hlen
  refine ⟨?_, padded_injective width (String.toList_injective hlast)⟩
  exact String.toList_injective (List.append_cancel_right hfront)

theorem yearText_injective : Function.Injective fun year : Nat =>
    if year ≤ 9999 then padded 4 year else "+" ++ padded 6 year := by
  have hlonger : ∀ a b : Nat, a ≤ 9999 → padded 4 a ≠ "+" ++ padded 6 b := by
    intro a b ha h
    have hshort : (padded 4 a).toList.length = 4 := length_padded (by decide) (by omega)
    have hlong := le_length_padded 6 b
    rw [h, String.toList_append, List.length_append] at hshort
    omega
  intro a b h
  dsimp only at h
  split at h <;> split at h
  · exact padded_injective 4 h
  · exact absurd h (hlonger a b ‹_›)
  · exact absurd h.symm (hlonger b a ‹_›)
  · have hlist := congrArg String.toList h
    rw [String.toList_append, String.toList_append] at hlist
    exact padded_injective 6 (String.toList_injective (List.append_cancel_left hlist))

/-! ### Windows -/

theorem toISOString_eq (ms : Nat) : toISOString ms =
    (if (dateOf (ms / 86400000)).1 ≤ 9999 then padded 4 (dateOf (ms / 86400000)).1
      else "+" ++ padded 6 (dateOf (ms / 86400000)).1) ++ "-" ++
    padded 2 (dateOf (ms / 86400000)).2.1 ++ "-" ++ padded 2 (dateOf (ms / 86400000)).2.2 ++ "T" ++
    padded 2 (ms / 3600000 % 24) ++ ":" ++ padded 2 (ms / 60000 % 60) ++ ":" ++
    padded 2 (ms / 1000 % 60) ++ "." ++ padded 3 (ms % 1000) ++ "Z" := rfl

theorem toISOString_injective : Function.Injective toISOString := by
  intro a b h
  rw [toISOString_eq, toISOString_eq] at h
  obtain ⟨hmonthA, hdayA⟩ := dateOf_bounds (a / 86400000)
  obtain ⟨hmonthB, hdayB⟩ := dateOf_bounds (b / 86400000)
  have hlist := congrArg String.toList h
  rw [String.toList_append, String.toList_append (t := "Z")] at hlist
  have h₁ := String.toList_injective (List.append_cancel_right hlist)
  obtain ⟨h₂, hms⟩ := append_padded_inj (by decide) (by omega) (by omega) h₁
  obtain ⟨h₃, hsec⟩ := append_padded_inj (by decide) (by omega) (by omega) h₂
  obtain ⟨h₄, hmin⟩ := append_padded_inj (by decide) (by omega) (by omega) h₃
  obtain ⟨h₅, hhour⟩ := append_padded_inj (by decide) (by omega) (by omega) h₄
  obtain ⟨h₆, hday⟩ := append_padded_inj (by decide) hdayA hdayB h₅
  obtain ⟨h₇, hmonth⟩ := append_padded_inj (by decide) hmonthA hmonthB h₆
  have hyear := yearText_injective h₇
  have hdate : a / 86400000 = b / 86400000 :=
    dateOf_injective (Prod.ext hyear (Prod.ext hmonth hday))
  omega

theorem windowStartOf_inj {a b : Nat} (h : windowStartOf a = windowStartOf b) :
    a / 60000 = b / 60000 := by
  have hstart := toISOString_injective h
  omega

theorem windowStartOf_congr {a b : Nat} (h : a / 60000 = b / 60000) :
    windowStartOf a = windowStartOf b := by
  rw [windowStartOf, windowStartOf, h]

end Apim.Telemetry
