import Apim.Shared.Routing
import Mathlib.Algebra.Order.Floor.Ring
import Mathlib.Data.Rat.Floor
import Mathlib.Tactic.FieldSimp
import Mathlib.Tactic.Ring

/-!
# Numbers

A number of JavaScript is a double: `Number(text)` is the double nearest to what the text denotes, and
`String(number)` the shortest decimal that is nearest to the double. A decimal is read back as it was
written when it is the shortest one (`Kept`).
-/

namespace Apim.JsNumber

/-! ### Decimals -/

def isDigit (c : Char) : Bool := decide ('0' ≤ c ∧ c ≤ '9')

def digitsValue (digits : List Char) : Nat := Nat.ofDigitChars 10 digits 0

def pow10 : Int → Rat
  | .ofNat n => ((10 ^ n : Nat) : Rat)
  | .negSucc n => 1 / ((10 ^ (n + 1) : Nat) : Rat)

def pow2 : Int → Rat
  | .ofNat n => ((2 ^ n : Nat) : Rat)
  | .negSucc n => 1 / ((2 ^ (n + 1) : Nat) : Rat)

structure Literal where
  negative : Bool
  whole : List Char
  fraction : List Char
  exponent : Option (Bool × List Char)
  deriving DecidableEq, Repr

namespace Literal

def exponentValue (n : Literal) : Int :=
  match n.exponent with
  | none => 0
  | some (negative, digits) => if negative then -(digitsValue digits : Int) else digitsValue digits

def value (n : Literal) : Rat :=
  let magnitude := (digitsValue (n.whole ++ n.fraction) : Rat) * pow10 (n.exponentValue - n.fraction.length)
  if n.negative then -magnitude else magnitude

end Literal

/-! ### Doubles -/

inductive Double where
  | finite (q : Rat)
  | infinite (negative : Bool)
  deriving DecidableEq, Repr

def roundHalfEven (q : Rat) : Int :=
  let low := q.floor
  let excess := q - low
  if excess < 1 / 2 then low
  else if 1 / 2 < excess then low + 1
  else if low % 2 = 0 then low else low + 1

def exponentOf (q : Rat) : Int :=
  let e := (Nat.log2 q.num.natAbs : Int) - Nat.log2 q.den
  if q < pow2 e then e - 1 else e

def unitOf (q : Rat) : Int := max (exponentOf q - 52) (-1074)

def nearest (q : Rat) : Rat := roundHalfEven (q / pow2 (unitOf q)) * pow2 (unitOf q)

def ofRat (q : Rat) : Double :=
  if q = 0 then .finite 0
  else
    let magnitude := nearest |q|
    if pow2 1024 ≤ magnitude then .infinite (q < 0)
    else .finite (if q < 0 then -magnitude else magnitude)

/-! ### Number(text) -/

def digitOf (base : Nat) (c : Char) : Option Nat :=
  (List.range base).find? fun d => Nat.digitChar d = c.toLower

def radixDigits (base : Nat) (digits : List Char) : Option Nat :=
  if digits = [] then none
  else digits.foldlM (fun n c => (digitOf base c).map fun d => base * n + d) 0

def exponentPart : List Char → Option (Option (Bool × List Char))
  | [] => some none
  | c :: rest =>
    let negative := decide (rest.head? = some '-')
    let digits := if negative ∨ rest.head? = some '+' then rest.tail else rest
    if (c = 'e' ∨ c = 'E') ∧ digits ≠ [] ∧ ∀ d ∈ digits, isDigit d = true then some (some (negative, digits))
    else none

def decimalPart (negative : Bool) (text : List Char) : Option Literal :=
  let whole := text.takeWhile isDigit
  let rest := text.dropWhile isDigit
  let point := decide (rest.head? = some '.')
  let fraction := if point then rest.tail.takeWhile isDigit else []
  let rest := if point then rest.tail.dropWhile isDigit else rest
  if whole = [] ∧ fraction = [] then none
  else (exponentPart rest).map fun exponent => ⟨negative, whole, fraction, exponent⟩

def toNumber (text : List Char) : Option Double :=
  match Routing.trim text with
  | [] => some (.finite 0)
  | '0' :: 'x' :: digits => (radixDigits 16 digits).map fun n : Nat => ofRat n
  | '0' :: 'X' :: digits => (radixDigits 16 digits).map fun n : Nat => ofRat n
  | '0' :: 'o' :: digits => (radixDigits 8 digits).map fun n : Nat => ofRat n
  | '0' :: 'O' :: digits => (radixDigits 8 digits).map fun n : Nat => ofRat n
  | '0' :: 'b' :: digits => (radixDigits 2 digits).map fun n : Nat => ofRat n
  | '0' :: 'B' :: digits => (radixDigits 2 digits).map fun n : Nat => ofRat n
  | c :: rest =>
    let negative := decide (c = '-')
    let unsigned := if negative ∨ c = '+' then rest else c :: rest
    if unsigned = "Infinity".toList then some (.infinite negative)
    else (decimalPart negative unsigned).map fun n => ofRat n.value

example : toNumber " 1e3 ".toList = some (.finite 1000) ∧ toNumber "0x1F".toList = some (.finite 31) ∧
    toNumber "1_0".toList = none ∧ toNumber "-.5".toList = some (.finite (-1 / 2)) := by decide +kernel

/-! ### The shortest decimal -/

def pointOf (x : Rat) : Int :=
  if 1 ≤ x then (Nat.toDigits 10 x.floor.toNat).length
  else 1 - (Nat.toDigits 10 ((1 / x).ceil.toNat - 1)).length

/-- The decimal of `k` digits that is nearest to the double, where there is one that is read as it: its
digits and where their point is. -/
def decimalOf (x : Rat) (k : Nat) : Option (Nat × Int) :=
  let scaled := x / pow10 (pointOf x - k)
  let low : Nat := scaled.floor.toNat
  let carried := fun s : Nat => if s = 10 ^ k then (1, pointOf x + 1) else (s, pointOf x)
  let candidates : List Nat := if scaled - (low : Rat) ≤ 1 / 2 then [low, low + 1] else [low + 1, low]
  (candidates.find? fun s : Nat => decide (0 < s ∧ ofRat ((s : Rat) * pow10 (pointOf x - k)) = .finite x)).map carried

def shortest (x : Rat) : Nat × Int :=
  ((List.range 17).findSome? fun k => decimalOf x (k + 1)).getD
    (max 1 (roundHalfEven (x / pow10 (pointOf x - 17))).toNat, pointOf x)

/-- `Number::toString` of the digits of `s` with the point after `n` of them. -/
def layout (digits : List Char) (n : Int) : Literal :=
  let k := digits.length
  if k ≤ n ∧ n ≤ 21 then ⟨false, digits ++ List.replicate (n - k).toNat '0', [], none⟩
  else if 0 < n ∧ n ≤ 21 then ⟨false, digits.take n.toNat, digits.drop n.toNat, none⟩
  else if -6 < n ∧ n ≤ 0 then ⟨false, ['0'], List.replicate (-n).toNat '0' ++ digits, none⟩
  else ⟨false, digits.take 1, digits.drop 1, some (n - 1 < 0, Nat.toDigits 10 (n - 1).natAbs)⟩

def toLiteral (x : Rat) : Literal :=
  if x = 0 then ⟨false, ['0'], [], none⟩
  else { layout (Nat.toDigits 10 (shortest |x|).1) (shortest |x|).2 with negative := x < 0 }

/-- The number a JSON text of the double denotes; an infinite one is written `null`. -/
def Double.shown : Double → Option Rat
  | .finite x => some (toLiteral x).value
  | .infinite _ => none

def Kept (q : Rat) : Prop := (ofRat q).shown = some q

instance (q : Rat) : Decidable (Kept q) := inferInstanceAs (Decidable ((ofRat q).shown = some q))

example : Kept (1 / 10) ∧ ¬Kept 9007199254740993 := by decide +kernel

/-! ### Natural numbers are doubles -/

theorem exponentOf_natCast {n : Nat} (h : 0 < n) : exponentOf (n : Rat) = (Nat.log2 n : Int) := by
  have hle : ¬(n : Rat) < pow2 (Nat.log2 n : Int) := by
    rw [not_lt]
    show ((2 ^ Nat.log2 n : Nat) : Rat) ≤ n
    exact_mod_cast Nat.log2_self_le (by omega)
  unfold exponentOf
  have hone : Nat.log2 1 = 0 := by decide
  simp only [Rat.num_natCast, Int.natAbs_natCast, Rat.den_natCast, hone, Nat.cast_zero, sub_zero, if_neg hle]

theorem roundHalfEven_natCast (n : Nat) : roundHalfEven (n : Rat) = n := by
  unfold roundHalfEven
  have hfloor : (n : Rat).floor = n := by
    rw [← Int.cast_natCast, Rat.floor_intCast]
  rw [hfloor]
  have hover : ((n : Rat) - ((n : Int) : Rat)) < 1 / 2 := by
    rw [Int.cast_natCast, sub_self]
    norm_num
  simp only [if_pos hover]

theorem pow2_mono {k m : Nat} (h : k ≤ m) : pow2 (k : Int) ≤ pow2 (m : Int) := by
  show ((2 ^ k : Nat) : Rat) ≤ ((2 ^ m : Nat) : Rat)
  exact_mod_cast Nat.pow_le_pow_right (by decide) h

theorem pow2_neg (k : Nat) : pow2 (-(k : Int)) = 1 / ((2 ^ k : Nat) : Rat) := by
  cases k with
  | zero => simp [pow2]
  | succ k => rfl

theorem nearest_natCast {n : Nat} (h : 0 < n) (hlt : n < 2 ^ 53) : nearest (n : Rat) = n := by
  have hlog : Nat.log2 n < 53 := (Nat.log2_lt (by omega)).mpr hlt
  obtain ⟨k, hk⟩ : ∃ k : Nat, unitOf (n : Rat) = -(k : Int) := by
    refine ⟨52 - Nat.log2 n, ?_⟩
    rw [unitOf, exponentOf_natCast h]
    omega
  have hpow : ((2 ^ k : Nat) : Rat) ≠ 0 := by
    exact_mod_cast (Nat.two_pow_pos k).ne'
  have hscaled : (n : Rat) / pow2 (unitOf (n : Rat)) = ((n * 2 ^ k : Nat) : Rat) := by
    rw [hk, pow2_neg, div_div_eq_mul_div, div_one]
    push_cast
    rfl
  rw [nearest, hscaled, roundHalfEven_natCast, hk, pow2_neg]
  push_cast
  rw [mul_one_div, mul_div_assoc, div_self (by exact_mod_cast hpow), mul_one]

theorem ofRat_natCast {n : Nat} (h : 0 < n) (hlt : n < 2 ^ 53) : ofRat (n : Rat) = .finite n := by
  have hne : (n : Rat) ≠ 0 := by exact_mod_cast h.ne'
  have habs : |(n : Rat)| = n := abs_of_nonneg (Nat.cast_nonneg n)
  have hbig : ¬pow2 1024 ≤ (n : Rat) := by
    rw [not_le]
    have hpow : (n : Rat) < pow2 (53 : Nat) := by
      show (n : Rat) < ((2 ^ 53 : Nat) : Rat)
      exact_mod_cast hlt
    exact hpow.trans_le (pow2_mono (by decide))
  have hnonneg : ¬(n : Rat) < 0 := by
    rw [not_lt]
    exact Nat.cast_nonneg n
  rw [ofRat, if_neg hne, habs, nearest_natCast h hlt]
  simp only [if_neg hbig, if_neg hnonneg]

/-! ### What is written is a literal -/

def Leading (digits : List Char) : Prop :=
  digits ≠ [] ∧ digits.head? ≠ some '0' ∧ ∀ c ∈ digits, isDigit c = true

structure Literal.WellFormed (n : Literal) : Prop where
  whole : n.whole = ['0'] ∨ Leading n.whole
  fraction : ∀ c ∈ n.fraction, isDigit c = true
  exponent : ∀ e ∈ n.exponent, e.2 ≠ [] ∧ ∀ c ∈ e.2, isDigit c = true

theorem isDigit_of_mem_toDigits {n : Nat} {c : Char} (h : c ∈ Nat.toDigits 10 n) : isDigit c = true := by
  have hdigit := Nat.isDigit_of_mem_toDigits (by decide) (by decide) h
  rw [isDigit, Bool.decide_and]
  exact hdigit

theorem toString_injective {m n : Nat} (h : toString m = toString n) : m = n := by
  have hlist := congrArg String.toList h
  rw [Nat.toString_eq_ofList_toDigits, Nat.toString_eq_ofList_toDigits, String.toList_ofList,
    String.toList_ofList] at hlist
  have hvalue := congrArg (Nat.ofDigitChars 10 · 0) hlist
  simpa only [Nat.ofDigitChars_ten_toDigits] using hvalue

theorem leading_toDigits {n : Nat} (h : 0 < n) : Leading (Nat.toDigits 10 n) := by
  refine ⟨Nat.toDigits_ne_nil, ?_, fun c hc => isDigit_of_mem_toDigits hc⟩
  induction n using Nat.strongRecOn with
  | _ n ih =>
    by_cases hsmall : n < 10
    · rw [Nat.toDigits_of_lt_base hsmall]
      have hall : ∀ d < 10, 0 < d → [Nat.digitChar d].head? ≠ some '0' := by decide
      exact hall n hsmall h
    · rw [Nat.toDigits_of_base_le (by decide) (by omega)]
      have hhead := ih (n / 10) (by omega) (by omega)
      cases hdigits : Nat.toDigits 10 (n / 10) with
      | nil => exact absurd hdigits Nat.toDigits_ne_nil
      | cons c rest =>
        rw [hdigits] at hhead
        exact hhead

theorem shortest_pos (x : Rat) : 0 < (shortest x).1 := by
  rw [shortest]
  cases hfound : (List.range 17).findSome? fun k => decimalOf x (k + 1) with
  | none =>
    show 0 < max 1 _
    exact Nat.lt_of_lt_of_le Nat.one_pos (Nat.le_max_left _ _)
  | some found =>
    obtain ⟨k, -, hdecimal⟩ := List.exists_of_findSome?_eq_some hfound
    rw [decimalOf, Option.map_eq_some_iff] at hdecimal
    obtain ⟨s, hs, hcarried⟩ := hdecimal
    have hfits := List.find?_some hs
    rw [decide_eq_true_eq] at hfits
    have hpos : 0 < s := hfits.1
    rw [Option.getD_some, ← hcarried]
    split
    · exact Nat.one_pos
    · exact hpos

theorem layout_wellFormed {digits : List Char} (h : Leading digits) (n : Int) :
    (layout digits n).WellFormed := by
  obtain ⟨hne, hhead, hdigits⟩ := h
  have htake : ∀ {m : Nat}, 0 < m → Leading (digits.take m) := by
    intro m hm
    cases digits with
    | nil => exact absurd rfl hne
    | cons c rest =>
      obtain ⟨m, rfl⟩ : ∃ l, m = l + 1 := ⟨m - 1, by omega⟩
      exact ⟨nofun, hhead, fun d hd => hdigits d (List.mem_of_mem_take hd)⟩
  have hzeros : ∀ {m : Nat} {c : Char}, c ∈ List.replicate m '0' → isDigit c = true := by
    intro m c hc
    rw [List.eq_of_mem_replicate hc]
    decide
  unfold layout
  dsimp only
  split
  · refine ⟨Or.inr ⟨?_, ?_, fun c hc => ?_⟩, nofun, nofun⟩
    · exact List.append_ne_nil_of_left_ne_nil hne _
    · rwa [List.head?_append_of_ne_nil _ hne]
    · rcases List.mem_append.mp hc with hc | hc
      · exact hdigits c hc
      · exact hzeros hc
  · split
    · next hpoint =>
      refine ⟨Or.inr (htake ?_), fun c hc => hdigits c (List.mem_of_mem_drop hc), nofun⟩
      omega
    · split
      · refine ⟨Or.inl rfl, fun c hc => ?_, nofun⟩
        rcases List.mem_append.mp hc with hc | hc
        · exact hzeros hc
        · exact hdigits c hc
      · refine ⟨Or.inr (htake Nat.one_pos), fun c hc => hdigits c (List.mem_of_mem_drop hc), ?_⟩
        intro e he
        cases he
        exact ⟨Nat.toDigits_ne_nil, fun c hc => isDigit_of_mem_toDigits hc⟩

theorem toLiteral_wellFormed (x : Rat) : (toLiteral x).WellFormed := by
  unfold toLiteral
  split
  · exact ⟨Or.inl rfl, nofun, nofun⟩
  · have hlayout := layout_wellFormed (leading_toDigits (shortest_pos |x|)) (shortest |x|).2
    exact ⟨hlayout.whole, hlayout.fraction, hlayout.exponent⟩

end Apim.JsNumber
