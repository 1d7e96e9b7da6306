import Mathlib.Tactic.IntervalCases

/-!
# Hexadecimal digits
-/

namespace Apim.Hex

def hexDigit (c : Char) : Option Nat :=
  if '0' ≤ c ∧ c ≤ '9' then some (c.toNat - 48)
  else if 'A' ≤ c ∧ c ≤ 'F' then some (c.toNat - 55)
  else if 'a' ≤ c ∧ c ≤ 'f' then some (c.toNat - 87)
  else none

theorem toNat_hexDigit {c : Char} {n : Nat} (h : hexDigit c = some n) :
    (48 ≤ c.toNat ∧ c.toNat ≤ 57) ∨ (65 ≤ c.toNat ∧ c.toNat ≤ 70) ∨
      (97 ≤ c.toNat ∧ c.toNat ≤ 102) := by
  have hle : ∀ {a b : Char}, a ≤ b → a.toNat ≤ b.toNat := fun hab => UInt32.le_iff_toNat_le.mp hab
  unfold hexDigit at h
  split at h
  · next hrange => exact Or.inl ⟨hle hrange.1, hle hrange.2⟩
  · split at h
    · next hrange => exact Or.inr (Or.inl ⟨hle hrange.1, hle hrange.2⟩)
    · split at h
      · next hrange => exact Or.inr (Or.inr ⟨hle hrange.1, hle hrange.2⟩)
      · cases h

theorem hexDigit_digitChar {n : Nat} (h : n < 16) : hexDigit (Nat.digitChar n) = some n := by
  interval_cases n <;> decide

def hexValue (a b c d : Char) : Option Nat := do
  let a ← hexDigit a
  let b ← hexDigit b
  let c ← hexDigit c
  let d ← hexDigit d
  pure (((a * 16 + b) * 16 + c) * 16 + d)

def hexText (n : Nat) : List Char :=
  [Nat.digitChar (n / 4096), Nat.digitChar (n / 256 % 16), Nat.digitChar (n / 16 % 16),
    Nat.digitChar (n % 16)]

theorem hexValue_hexText {n : Nat} (h : n < 65536) :
    hexValue (Nat.digitChar (n / 4096)) (Nat.digitChar (n / 256 % 16)) (Nat.digitChar (n / 16 % 16))
      (Nat.digitChar (n % 16)) = some n := by
  have ha : n / 4096 < 16 := by omega
  have hb : n / 256 % 16 < 16 := by omega
  have hc : n / 16 % 16 < 16 := by omega
  have hd : n % 16 < 16 := by omega
  have hsum : ((n / 4096 * 16 + n / 256 % 16) * 16 + n / 16 % 16) * 16 + n % 16 = n := by omega
  rw [hexValue, hexDigit_digitChar ha, hexDigit_digitChar hb, hexDigit_digitChar hc,
    hexDigit_digitChar hd]
  exact congrArg some hsum

end Apim.Hex
