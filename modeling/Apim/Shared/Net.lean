import Apim.Shared.Digits
import Apim.Shared.Letters
import Mathlib.Data.BitVec

/-!
# IPv4 addresses and ranges

How the gateway reads an address and a range (`shared/net.ts:23-55`), and the check of a range in a
policy (`shared/policy.ts:727-742`). All of them read an octet and a prefix length with `Number`, which
reads more than decimal digits; only the check looks at the digits of an octet too.
-/

namespace Apim.Net
open JsNumber (isDigit digitsValue IsDigits wholeUpTo)

abbrev Text := List Char

/-! ### What the code reads -/

def octet (part : Text) : Option Nat := if part = [] then none else wholeUpTo 255 part

/-- `ipv4ToInt` (`shared/net.ts:30-40`). -/
def ipv4ToInt (ip : Text) : Option (BitVec 32) :=
  let parts := ip.splitOn '.'
  if parts.length ≠ 4 then none
  else (parts.foldlM (fun value part => (octet part).map (value * 256 + ·)) 0).map (BitVec.ofNat 32)

def isDottedShape (text : Text) : Bool :=
  let parts := text.splitOn '.'
  parts.length == 4 && parts.all fun part => part != [] && part.length ≤ 3 && part.all isDigit

def isMappedHead (head : Text) : Bool := head.map Char.toLower == "::ffff:".toList

/-- `canonicalIp` (`shared/net.ts:23-28`): what is behind `::ffff:` where it is four octets. -/
def canonicalIp (ip : Text) : Text :=
  let dotted := ip.drop 7
  if isMappedHead (ip.take 7) && isDottedShape dotted &&
      (dotted.splitOn '.').all (fun part => (wholeUpTo 255 part).isSome) then dotted
  else ip

/-- `(0xffffffff << (32 - bits)) >>> 0`; a shift counts its places modulo 32. -/
def maskOf (bits : Nat) : BitVec 32 := BitVec.allOnes 32 <<< ((32 - bits) % 32)

/-- `ipInCidr` (`shared/net.ts:42-55`). -/
def ipInCidr (ip cidr : Text) : Bool :=
  let pieces := cidr.splitOn '/'
  match ipv4ToInt (canonicalIp ip), ipv4ToInt (pieces.headD []),
    wholeUpTo 32 (pieces[1]?.getD "32".toList) with
  | some ipInt, some netInt, some bits =>
    if bits = 0 then true else ipInt &&& maskOf bits == netInt &&& maskOf bits
  | _, _, _ => false

def rangeError (ip bitsRaw : Text) : Option String :=
  if ip = [] then some "expected \"<ipv4>/<bits>\""
  else
    let octets := ip.splitOn '.'
    if octets.length ≠ 4 then some "expected an IPv4 address"
    else
      match octets.find? fun text => (wholeUpTo 255 text).isNone || !decide (IsDigits text) with
      | some text => some ("\"" ++ String.ofList text ++ "\" is not an octet")
      | none =>
        if (wholeUpTo 32 bitsRaw).isNone then some "expected a prefix length 0-32" else none

/-- `cidrError` (`shared/policy.ts:728-742`). -/
def cidrError (value : Text) : Option String :=
  match value.splitOn '/' with
  | ip :: bitsRaw :: _ => rangeError ip bitsRaw
  | _ => some "expected \"<ipv4>/<bits>\""

example : ipInCidr "::FFFF:10.1.2.3".toList "10.0.0.0/8".toList = true ∧
    ipInCidr "11.1.2.3".toList "10.0.0.0/8".toList = false ∧
    cidrError "10.0.0.256/8".toList = some "\"256\" is not an octet" := by decide +kernel

/-! ### Dotted decimal -/

def IsOctet (text : Text) : Prop := IsDigits text ∧ digitsValue text ≤ 255

def numberOf (octets : List Text) : BitVec 32 :=
  BitVec.ofNat 32 (octets.foldl (fun value text => value * 256 + digitsValue text) 0)

inductive Dotted : Text → BitVec 32 → Prop
  | octets (parts : List Text) (length : parts.length = 4) (each : ∀ part ∈ parts, IsOctet part) :
      Dotted (['.'].intercalate parts) (numberOf parts)

/-- An IPv4 address as it is, or mapped, with at most three digits an octet there. -/
inductive Ipv4Text : Text → BitVec 32 → Prop
  | dotted {text : Text} {a : BitVec 32} : Dotted text a → Ipv4Text text a
  | mapped {head text : Text} {a : BitVec 32} : isMappedHead head = true → Dotted text a →
      (∀ part ∈ text.splitOn '.', part.length ≤ 3) → Ipv4Text (head ++ text) a

variable {text : Text}

theorem notMem_of_isDigits (h : IsDigits text) {c : Char} (hc : isDigit c = false) : c ∉ text := by
  intro hmem
  have hdigit := h.2 c hmem
  rw [hc] at hdigit
  cases hdigit

variable {parts : List Text}

theorem splitOn_dots (hlength : parts.length = 4) (hoctets : ∀ part ∈ parts, IsOctet part) :
    (['.'].intercalate parts).splitOn '.' = parts := by
  refine List.splitOn_intercalate '.' (fun part hpart => ?_) ?_
  · exact notMem_of_isDigits (hoctets part hpart).1 (by decide)
  · rintro rfl
    cases hlength

theorem intercalate_dots (text : Text) : ['.'].intercalate (text.splitOn '.') = text :=
  List.intercalate_splitOn '.'

theorem dotted_iff (text : Text) (a : BitVec 32) : Dotted text a ↔
    (text.splitOn '.').length = 4 ∧ (∀ part ∈ text.splitOn '.', IsOctet part) ∧
      a = numberOf (text.splitOn '.') := by
  constructor
  · rintro ⟨parts, hlength, heach⟩
    rw [splitOn_dots hlength heach]
    exact ⟨hlength, heach, rfl⟩
  · rintro ⟨hlength, heach, rfl⟩
    have h := Dotted.octets _ hlength heach
    rwa [intercalate_dots] at h

variable {a : BitVec 32}

theorem dotted_ne_nil (h : Dotted text a) : text ≠ [] := by
  rintro rfl
  obtain ⟨hlength, -⟩ := (dotted_iff [] a).mp h
  cases hlength

theorem octet_digits {part : Text} (h : IsOctet part) : octet part = some (digitsValue part) := by
  rw [octet, if_neg h.1.1, JsNumber.wholeUpTo_digits (by decide) h.1, if_pos h.2]

theorem isOctet_of_octet {part : Text} (hdigits : IsDigits part) (h : (octet part).isSome = true) :
    IsOctet part := by
  refine ⟨hdigits, ?_⟩
  rw [octet, if_neg hdigits.1, JsNumber.wholeUpTo_digits (by decide) hdigits] at h
  by_contra hbig
  rw [if_neg hbig] at h
  cases h

theorem foldlM_octets (h : ∀ part ∈ parts, IsOctet part) (value : Nat) :
    parts.foldlM (fun value part => (octet part).map (value * 256 + ·)) value =
      some (parts.foldl (fun value text => value * 256 + digitsValue text) value) := by
  induction parts generalizing value with
  | nil => rfl
  | cons part parts ih =>
    rw [List.foldlM_cons, octet_digits (h part List.mem_cons_self), Option.map_some]
    exact ih (fun other hother => h other (List.mem_cons_of_mem _ hother)) _

theorem ipv4ToInt_dotted (h : Dotted text a) : ipv4ToInt text = some a := by
  obtain ⟨hlength, heach, rfl⟩ := (dotted_iff text a).mp h
  unfold ipv4ToInt
  simp only [hlength, ne_eq, not_true, if_false, foldlM_octets heach, Option.map_some, numberOf]

theorem octets_of_foldlM {value n : Nat}
    (h : parts.foldlM (fun value part => (octet part).map (value * 256 + ·)) value = some n) :
    ∀ part ∈ parts, (octet part).isSome = true := by
  induction parts generalizing value with
  | nil => exact fun _ hpart => nomatch hpart
  | cons first parts ih =>
    rw [List.foldlM_cons] at h
    obtain ⟨next, hfirst, hrest⟩ := Option.bind_eq_some_iff.mp h
    obtain ⟨k, hk, -⟩ := Option.map_eq_some_iff.mp hfirst
    intro part hpart
    rcases List.mem_cons.mp hpart with rfl | hpart
    · rw [hk]
      rfl
    · exact ih hrest part hpart

theorem parts_of_ipv4ToInt (h : (ipv4ToInt text).isSome = true) :
    (text.splitOn '.').length = 4 ∧ ∀ part ∈ text.splitOn '.', (octet part).isSome = true := by
  obtain ⟨a, ha⟩ := Option.isSome_iff_exists.mp h
  unfold ipv4ToInt at ha
  by_cases hlength : (text.splitOn '.').length = 4
  · simp only [hlength, ne_eq, not_true, if_false] at ha
    obtain ⟨n, hn, -⟩ := Option.map_eq_some_iff.mp ha
    exact ⟨hlength, octets_of_foldlM hn⟩
  · simp only [if_pos hlength] at ha
    cases ha

theorem foldlM_octets_isSome (h : ∀ part ∈ parts, (octet part).isSome = true) (value : Nat) :
    ∃ n, parts.foldlM (fun value part => (octet part).map (value * 256 + ·)) value = some n := by
  induction parts generalizing value with
  | nil => exact ⟨value, rfl⟩
  | cons part parts ih =>
    obtain ⟨k, hk⟩ := Option.isSome_iff_exists.mp (h part List.mem_cons_self)
    rw [List.foldlM_cons, hk, Option.map_some]
    exact ih (fun other hother => h other (List.mem_cons_of_mem _ hother)) _

theorem ipv4ToInt_isSome_iff (text : Text) : (ipv4ToInt text).isSome = true ↔
    (text.splitOn '.').length = 4 ∧ ∀ part ∈ text.splitOn '.', (octet part).isSome = true := by
  refine ⟨parts_of_ipv4ToInt, fun ⟨hlength, hparts⟩ => ?_⟩
  obtain ⟨n, hn⟩ := foldlM_octets_isSome hparts 0
  unfold ipv4ToInt
  simp only [hlength, ne_eq, not_true, if_false, hn, Option.map_some, Option.isSome_some]

/-! ### The mapped form -/

theorem isDottedShape_dotted (h : Dotted text a)
    (hshort : ∀ part ∈ text.splitOn '.', part.length ≤ 3) : isDottedShape text = true := by
  obtain ⟨hlength, heach, -⟩ := (dotted_iff text a).mp h
  unfold isDottedShape
  simp only [hlength, BEq.rfl, Bool.true_and, List.all_eq_true, Bool.and_eq_true, bne_iff_ne, ne_eq,
    decide_eq_true_eq]
  exact fun part hpart => ⟨⟨(heach part hpart).1.1, hshort part hpart⟩, (heach part hpart).1.2⟩

theorem length_mappedHead {head : Text} (h : isMappedHead head = true) : head.length = 7 := by
  have hlength := congrArg List.length (eq_of_beq h)
  rwa [List.length_map] at hlength

theorem canonicalIp_mapped {head : Text} (hhead : isMappedHead head = true) (h : Dotted text a)
    (hshort : ∀ part ∈ text.splitOn '.', part.length ≤ 3) : canonicalIp (head ++ text) = text := by
  have hlength := length_mappedHead hhead
  have htake : (head ++ text).take 7 = head := by rw [← hlength, List.take_left]
  have hdrop : (head ++ text).drop 7 = text := by rw [← hlength, List.drop_left]
  obtain ⟨-, heach, -⟩ := (dotted_iff text a).mp h
  have hread : (text.splitOn '.').all (fun part => (wholeUpTo 255 part).isSome) = true := by
    refine List.all_eq_true.mpr fun part hpart => ?_
    have hoctet := heach part hpart
    rw [JsNumber.wholeUpTo_digits (by decide) hoctet.1, if_pos hoctet.2]
    rfl
  unfold canonicalIp
  simp only [htake, hdrop, hhead, isDottedShape_dotted h hshort, hread, Bool.and_self, if_true]

theorem canonicalIp_of_notMem {ip : Text} (h : ':' ∉ ip) : canonicalIp ip = ip := by
  have hhead : isMappedHead (ip.take 7) = false := by
    rw [isMappedHead, beq_eq_false_iff_ne]
    intro heq
    obtain ⟨first, rest, hcut⟩ : ∃ first rest, ip.take 7 = first :: rest := by
      cases hcut : ip.take 7 with
      | nil =>
        rw [hcut] at heq
        cases heq
      | cons first rest => exact ⟨first, rest, rfl⟩
    rw [hcut, List.map_cons] at heq
    have hcolon : first = ':' := ((Letters.toLower_eq_iff (by decide)).mp (List.cons.inj heq).1).1
    exact h (hcolon ▸ List.mem_of_mem_take (hcut ▸ List.mem_cons_self))
  unfold canonicalIp
  simp only [hhead, Bool.false_and, Bool.false_eq_true, if_false]

theorem mem_intercalate {sep : Text} {c : Char} (h : c ∈ sep.intercalate parts) :
    c ∈ sep ∨ ∃ part ∈ parts, c ∈ part := by
  induction parts with
  | nil => cases h
  | cons part parts ih =>
    cases parts with
    | nil =>
      rw [List.intercalate_singleton] at h
      exact .inr ⟨part, List.mem_cons_self, h⟩
    | cons next parts =>
      rw [List.intercalate_cons_cons, List.mem_append, List.mem_append] at h
      rcases h with (h | h) | h
      · exact .inr ⟨part, List.mem_cons_self, h⟩
      · exact .inl h
      · rcases ih h with hsep | ⟨other, hother, hc⟩
        · exact .inl hsep
        · exact .inr ⟨other, List.mem_cons_of_mem _ hother, hc⟩

theorem mem_dotted (h : Dotted text a) {c : Char} (hc : c ∈ text) : c = '.' ∨ isDigit c = true := by
  obtain ⟨parts, -, heach⟩ := h
  rcases mem_intercalate hc with hsep | ⟨part, hpart, hin⟩
  · exact .inl (List.mem_singleton.mp hsep)
  · exact .inr ((heach part hpart).1.2 c hin)

theorem notMem_dotted (h : Dotted text a) {c : Char} (hdot : c ≠ '.') (hdigit : isDigit c = false) :
    c ∉ text := by
  intro hc
  rcases mem_dotted h hc with heq | hin
  · exact hdot heq
  · rw [hdigit] at hin
    cases hin

theorem ipv4ToInt_canonicalIp (h : Ipv4Text text a) : ipv4ToInt (canonicalIp text) = some a := by
  cases h with
  | dotted h => rw [canonicalIp_of_notMem (notMem_dotted h (by decide) (by decide)), ipv4ToInt_dotted h]
  | mapped hhead h hshort => rw [canonicalIp_mapped hhead h hshort, ipv4ToInt_dotted h]

end Apim.Net
