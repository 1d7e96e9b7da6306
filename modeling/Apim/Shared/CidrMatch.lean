import Apim.Shared.Net

/-!
# What a range matches

`ipInCidr` compares the first bits of an address and of the network of a range, for every range that
`cidrError` accepts (`ipInCidr_iff`). The prefix length is what `Number` makes of the text behind the
slash, and an octet of an address what it makes of the text between the dots, so texts are accepted that
are no decimal digits (`cidr_matching_iff`).
-/

namespace Apim.Net
open JsNumber (isDigit digitsValue IsDigits wholeUpTo)

/-! ### Ranges -/

/-- Dotted decimal, a slash and a text `Number` reads as a prefix length; more slashes may follow. -/
def ReadRange (range : Text) (n : BitVec 32) (bits : Nat) : Prop :=
  ∃ network bitsRaw more, range.splitOn '/' = network :: bitsRaw :: more ∧ Dotted network n ∧
    wholeUpTo 32 bitsRaw = some bits

def RangeText (range : Text) (n : BitVec 32) (bits : Nat) : Prop :=
  ∃ network digits, range = network ++ '/' :: digits ∧ Dotted network n ∧ IsDigits digits ∧
    digitsValue digits = bits ∧ bits ≤ 32

/-- A prefix length that is read though it is not in digits, or that more is behind. -/
def LooseRange (range : Text) : Prop :=
  ∃ network bitsRaw more n, range.splitOn '/' = network :: bitsRaw :: more ∧ Dotted network n ∧
    (wholeUpTo 32 bitsRaw).isSome = true ∧ (more ≠ [] ∨ ¬ IsDigits bitsRaw)

def LooseAddress (address : Text) : Prop :=
  (address.splitOn '.').length = 4 ∧ (∀ part ∈ address.splitOn '.', (octet part).isSome = true) ∧
    ∃ part ∈ address.splitOn '.', ¬ IsDigits part

theorem rangeError_eq_none_iff (ip bitsRaw : Text) : rangeError ip bitsRaw = none ↔
    (∃ n, Dotted ip n) ∧ (wholeUpTo 32 bitsRaw).isSome = true := by
  unfold rangeError
  by_cases hempty : ip = []
  · rw [if_pos hempty]
    refine ⟨fun h => (by cases h), ?_⟩
    rintro ⟨⟨n, hdotted⟩, _⟩
    exact absurd hempty (dotted_ne_nil hdotted)
  rw [if_neg hempty]
  by_cases hlength : (ip.splitOn '.').length = 4
  · rw [if_neg (not_not_intro hlength)]
    cases hfind : (ip.splitOn '.').find? fun text =>
        (wholeUpTo 255 text).isNone || !decide (IsDigits text) with
    | some text =>
      refine ⟨fun h => (by cases h), ?_⟩
      rintro ⟨⟨n, hdotted⟩, _⟩
      obtain ⟨-, heach, -⟩ := (dotted_iff ip n).mp hdotted
      have hoctet := heach text (List.mem_of_find?_eq_some hfind)
      have hread : wholeUpTo 255 text = some (digitsValue text) := by
        rw [JsNumber.wholeUpTo_digits (by decide) hoctet.1, if_pos hoctet.2]
      have hrefused := List.find?_some hfind
      simp [hread, hoctet.1] at hrefused
    | none =>
      have hdotted : Dotted ip (numberOf (ip.splitOn '.')) := by
        refine (dotted_iff ip _).mpr ⟨hlength, fun part hpart => ?_, rfl⟩
        have hnot := List.find?_eq_none.mp hfind part hpart
        simp only [Bool.or_eq_true, Bool.not_eq_true', decide_eq_false_iff_not, not_or,
          not_not, Option.isNone_iff_eq_none] at hnot
        refine isOctet_of_octet hnot.2 ?_
        rw [octet, if_neg hnot.2.1]
        exact Option.isSome_iff_ne_none.mpr hnot.1
      by_cases hbits : (wholeUpTo 32 bitsRaw).isNone = true
      · rw [if_pos hbits]
        refine ⟨fun h => (by cases h), ?_⟩
        rintro ⟨_, hsome⟩
        rw [Option.isNone_iff_eq_none.mp hbits] at hsome
        cases hsome
      · rw [if_neg hbits]
        exact ⟨fun _ => ⟨⟨_, hdotted⟩, Option.isSome_iff_ne_none.mpr (by simpa using hbits)⟩,
          fun _ => rfl⟩
  · rw [if_pos hlength]
    refine ⟨fun h => (by cases h), ?_⟩
    rintro ⟨⟨n, hdotted⟩, _⟩
    exact absurd ((dotted_iff ip n).mp hdotted).1 hlength

theorem cidrError_eq_none_iff (range : Text) :
    cidrError range = none ↔ ∃ n bits, ReadRange range n bits := by
  unfold cidrError
  constructor
  · intro h
    split at h
    · rename_i ip bitsRaw more hcut
      obtain ⟨⟨n, hdotted⟩, hread⟩ := (rangeError_eq_none_iff ip bitsRaw).mp h
      obtain ⟨bits, hbits⟩ := Option.isSome_iff_exists.mp hread
      exact ⟨n, bits, ip, bitsRaw, more, hcut, hdotted, hbits⟩
    · cases h
  · rintro ⟨n, bits, ip, bitsRaw, more, hcut, hdotted, hbits⟩
    rw [hcut]
    exact (rangeError_eq_none_iff ip bitsRaw).mpr ⟨⟨n, hdotted⟩, by rw [hbits]; rfl⟩

theorem splitOn_slash {network digits : Text} {n : BitVec 32} (h : Dotted network n)
    (hdigits : IsDigits digits) : (network ++ '/' :: digits).splitOn '/' = [network, digits] := by
  rw [List.splitOn_append_cons_self_of_not_mem (notMem_dotted h (by decide) (by decide)),
    List.splitOn_eq_singleton (notMem_of_isDigits hdigits (by decide))]

theorem ReadRange.rangeText {range : Text} {n : BitVec 32} {bits : Nat} (h : ReadRange range n bits)
    (hloose : ¬ LooseRange range) : RangeText range n bits := by
  obtain ⟨network, bitsRaw, more, hcut, hdotted, hbits⟩ := h
  have hstrict : more = [] ∧ IsDigits bitsRaw := by
    by_contra hnot
    refine hloose ⟨network, bitsRaw, more, n, hcut, hdotted, by rw [hbits]; rfl, ?_⟩
    tauto
  obtain ⟨rfl, hdigits⟩ := hstrict
  have hjoined := congrArg (['/'].intercalate) hcut
  rw [List.intercalate_splitOn, List.intercalate_cons_cons, List.intercalate_singleton,
    List.append_assoc] at hjoined
  rw [JsNumber.wholeUpTo_digits (by decide) hdigits] at hbits
  by_cases hle : digitsValue bitsRaw ≤ 32
  · rw [if_pos hle] at hbits
    obtain rfl := Option.some.inj hbits
    exact ⟨network, bitsRaw, hjoined, hdotted, hdigits, rfl, hle⟩
  · rw [if_neg hle] at hbits
    cases hbits

/-! ### The first bits -/

theorem getMsbD_maskOf {bits : Nat} (hpos : 0 < bits) (hle : bits ≤ 32) (i : Nat) :
    (maskOf bits).getMsbD i = decide (i < bits) := by
  have hshift : (32 - bits) % 32 = 32 - bits := Nat.mod_eq_of_lt (by omega)
  rw [maskOf, hshift, BitVec.getMsbD_shiftLeft, BitVec.getMsbD_allOnes]
  exact decide_eq_decide.mpr (by omega)

theorem and_maskOf_eq_iff {bits : Nat} (hpos : 0 < bits) (hle : bits ≤ 32) (a n : BitVec 32) :
    a &&& maskOf bits = n &&& maskOf bits ↔ ∀ i < bits, a.getMsbD i = n.getMsbD i := by
  constructor
  · intro h i hi
    have hbit := congrArg (BitVec.getMsbD · i) h
    simpa [getMsbD_maskOf hpos hle, hi] using hbit
  · intro h
    refine BitVec.eq_of_getMsbD_eq fun i _ => ?_
    rw [BitVec.getMsbD_and, BitVec.getMsbD_and, getMsbD_maskOf hpos hle]
    by_cases hi : i < bits
    · rw [h i hi]
    · rw [decide_eq_false hi, Bool.and_false, Bool.and_false]

theorem le_of_wholeUpTo {bound n : Nat} {text : Text} (h : wholeUpTo bound text = some n) :
    n ≤ bound := by
  unfold wholeUpTo at h
  split at h
  · split at h
    · rename_i hwhole
      obtain rfl := Option.some.inj h
      omega
    · cases h
  · cases h

theorem ipInCidr_iff {address range : Text} {a n : BitVec 32} {bits : Nat}
    (haddress : Ipv4Text address a) (hrange : ReadRange range n bits) :
    ipInCidr address range = true ↔ ∀ i < bits, a.getMsbD i = n.getMsbD i := by
  obtain ⟨network, bitsRaw, more, hcut, hdotted, hbits⟩ := hrange
  have hle := le_of_wholeUpTo hbits
  unfold ipInCidr
  simp only [hcut, List.headD_cons, List.getElem?_cons_succ, List.getElem?_cons_zero,
    Option.getD_some, ipv4ToInt_canonicalIp haddress, ipv4ToInt_dotted hdotted, hbits]
  by_cases hzero : bits = 0
  · subst hzero
    simp
  · rw [if_neg hzero, beq_iff_eq]
    exact and_maskOf_eq_iff (Nat.pos_of_ne_zero hzero) hle a n

/-! ### Addresses -/

theorem dotted_of_ipv4ToInt {address : Text} (h : (ipv4ToInt address).isSome = true)
    (hloose : ¬ LooseAddress address) : ∃ a, Dotted address a := by
  obtain ⟨hlength, hparts⟩ := parts_of_ipv4ToInt h
  refine ⟨_, (dotted_iff address _).mpr ⟨hlength, fun part hpart => ?_, rfl⟩⟩
  have hdigits : IsDigits part := by
    by_contra hnot
    exact hloose ⟨hlength, hparts, part, hpart, hnot⟩
  exact isOctet_of_octet hdigits (hparts part hpart)

/-- A range the check accepts holds the addresses that begin with its bits, and states its prefix length
in digits behind dotted decimal; what is read as an address is dotted decimal. -/
structure CidrMatching (address range : Text) : Prop where
  matching : cidrError range = none → ∀ a, Ipv4Text address a → ∃ n bits, ReadRange range n bits ∧
    (ipInCidr address range = true ↔ ∀ i < bits, a.getMsbD i = n.getMsbD i)
  range : cidrError range = none → ∃ n bits, RangeText range n bits
  address : (ipv4ToInt address).isSome = true → ∃ a, Dotted address a

/-- This is so of every address and range but those that `Number` reads and that are not in digits. -/
theorem cidr_matching_iff (address range : Text) :
    CidrMatching address range ↔ ¬ LooseRange range ∧ ¬ LooseAddress address := by
  constructor
  · intro h
    constructor
    · rintro ⟨network, bitsRaw, more, n, hcut, hdotted, hread, hloose⟩
      obtain ⟨bits, hbits⟩ := Option.isSome_iff_exists.mp hread
      obtain ⟨n', bits', network', digits, rfl, hdotted', hdigits, -⟩ := h.range
        ((cidrError_eq_none_iff range).mpr ⟨n, bits, network, bitsRaw, more, hcut, hdotted, hbits⟩)
      rw [splitOn_slash hdotted' hdigits] at hcut
      obtain ⟨-, hcut⟩ := List.cons.inj hcut
      obtain ⟨hbitsRaw, hmore⟩ := List.cons.inj hcut
      rcases hloose with hne | hnot
      · exact hne hmore.symm
      · exact hnot (hbitsRaw ▸ hdigits)
    · rintro ⟨hlength, hparts, part, hpart, hnot⟩
      obtain ⟨a, ha⟩ := h.address ((ipv4ToInt_isSome_iff address).mpr ⟨hlength, hparts⟩)
      obtain ⟨-, heach, -⟩ := (dotted_iff address a).mp ha
      exact hnot (heach part hpart).1
  · rintro ⟨hrange, haddress⟩
    constructor
    · intro hnone a ha
      obtain ⟨n, bits, hread⟩ := (cidrError_eq_none_iff range).mp hnone
      exact ⟨n, bits, hread, ipInCidr_iff ha hread⟩
    · intro hnone
      obtain ⟨n, bits, hread⟩ := (cidrError_eq_none_iff range).mp hnone
      exact ⟨n, bits, hread.rangeText hrange⟩
    · exact fun hsome => dotted_of_ipv4ToInt hsome haddress

/-- `10.0.0.0/` is accepted, and is every address. -/
theorem empty_length_accepted :
    ¬ CidrMatching "203.0.113.9".toList "10.0.0.0/".toList ∧
      ipInCidr "203.0.113.9".toList "10.0.0.0/".toList = true := by
  refine ⟨fun h => ?_, by decide +kernel⟩
  obtain ⟨n, bits, network, digits, hrange, hdotted, hdigits, -⟩ := h.range (by decide +kernel)
  have hcut := splitOn_slash hdotted hdigits
  rw [← hrange] at hcut
  have hpieces : "10.0.0.0/".toList.splitOn '/' = ["10.0.0.0".toList, []] := by decide +kernel
  rw [hpieces] at hcut
  obtain ⟨-, hlast⟩ := List.cons.inj hcut
  exact hdigits.1 (List.cons.inj hlast).1.symm

end Apim.Net
