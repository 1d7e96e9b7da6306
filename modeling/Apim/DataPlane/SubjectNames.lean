import Apim.DataPlane.Identity
import Apim.Shared.Hex
import Apim.Shared.Trimming

/-!
# The common name of a client certificate

`readCertificate` (`data-plane/src/pipeline.ts:1974-1990`) looks for `CN=` in the text of a subject with
a regular expression. The expression takes every comma for the end of an attribute, an escaped one too,
so the text of another attribute can be read as a name (`length_forged`), and what follows the name in
its relative distinguished name is read as part of it (`read_leading`).
-/

namespace Apim.DataPlane.SubjectNames
open Routing (isSpace trim)
open Hex (hexDigit toNat_hexDigit)

/-! ### The expression -/

def isLineTerminator (c : Char) : Bool :=
  c == '\n' || c == '\r' || c == '\u2028' || c == '\u2029'

def named : List Char → Option (List Char)
  | c :: n :: e :: rest =>
    if (c = 'C' ∨ c = 'c') ∧ (n = 'N' ∨ n = 'n') ∧ e = '=' then some rest else none
  | _ => none

def atCn (text : List Char) : Option (List Char) := named (text.dropWhile isSpace)

def execFrom : List Char → Option (List Char)
  | [] => none
  | c :: rest => if c = ',' then (atCn rest).or (execFrom rest) else execFrom rest

def exec (text : List Char) : Option (List Char) := (atCn text).or (execFrom text)

def takeValue : List Char → List Char
  | [] => []
  | [c] => if c = ',' then [] else [c]
  | c :: d :: rest =>
    if c = '\\' ∧ isLineTerminator d = false then c :: d :: takeValue rest
    else if c = ',' then [] else c :: takeValue (d :: rest)

def unescape : List Char → List Char
  | [] => []
  | [c] => [c]
  | c :: d :: rest =>
    if c = '\\' ∧ isLineTerminator d = false then d :: unescape rest
    else c :: unescape (d :: rest)

def valueOf (rest : List Char) : List Char := trim (unescape (takeValue rest))

/-- The `cn` of a subject (`data-plane/src/pipeline.ts:1981-1985`). -/
def cnOf (subject : String) : String :=
  match exec subject.toList with
  | some rest => String.ofList (valueOf rest)
  | none => ""

/-! ### Distinguished names -/

def isStringChar (c : Char) : Bool :=
  !(c == '\x00' || c == '"' || c == '+' || c == ',' || c == ';' || c == '<' || c == '>' || c == '\\')

def isSpecial (c : Char) : Bool :=
  c == '"' || c == '+' || c == ',' || c == ';' || c == '<' || c == '>' || c == '\\' || c == ' ' ||
    c == '#' || c == '='

def isTypeChar (c : Char) : Bool := c.isAlphanum || c == '-' || c == '.'

def octetOf (pair : Char × Char) : Option UInt8 := do
  let high ← hexDigit pair.1
  let low ← hexDigit pair.2
  pure (UInt8.ofNat (16 * high + low))

inductive Piece where
  | plain (c : Char) (h : isStringChar c = true)
  | pair (c : Char) (h : isSpecial c = true)
  | hex (c : Char) (octets : List (Char × Char))
    (h : octets.map octetOf = (String.utf8EncodeChar c).map some)

namespace Piece

def text : Piece → List Char
  | .plain c _ => [c]
  | .pair c _ => ['\\', c]
  | .hex _ octets _ => octets.flatMap fun octet => ['\\', octet.1, octet.2]

def char : Piece → Char
  | .plain c _ => c
  | .pair c _ => c
  | .hex c _ _ => c

def shown : Piece → List Char
  | .plain c _ => [c]
  | .pair c _ => [c]
  | .hex _ octets _ => octets.flatMap fun octet => [octet.1, octet.2]

def isHex : Piece → Bool
  | .hex _ _ _ => true
  | _ => false

def bare : Piece → Option Char
  | .plain c _ => some c
  | _ => none

end Piece

def Enclosed (pieces : List Piece) : Prop :=
  pieces.head?.bind Piece.bare ≠ some ' ' ∧ pieces.head?.bind Piece.bare ≠ some '#' ∧
    pieces.getLast?.bind Piece.bare ≠ some ' '

/-- The value of an attribute: a string, or `#` and the digits of its encoding. -/
inductive AttributeValue where
  | string (pieces : List Piece) (h : Enclosed pieces)
  | encoded (octets : List (Char × Char)) (h : ∀ octet ∈ octets, (octetOf octet).isSome = true)

namespace AttributeValue

def text : AttributeValue → List Char
  | .string pieces _ => pieces.flatMap Piece.text
  | .encoded octets _ => '#' :: octets.flatMap fun octet => [octet.1, octet.2]

def unescaped : AttributeValue → List Char
  | .string pieces _ => pieces.map Piece.char
  | .encoded octets _ => '#' :: octets.flatMap fun octet => [octet.1, octet.2]

def shown : AttributeValue → List Char
  | .string pieces _ => pieces.flatMap Piece.shown
  | .encoded octets _ => '#' :: octets.flatMap fun octet => [octet.1, octet.2]

def hasHex : AttributeValue → Bool
  | .string pieces _ => pieces.any Piece.isHex
  | .encoded _ _ => false

end AttributeValue

def siteIn : List Piece → Bool
  | [] => false
  | piece :: rest =>
    (piece.text == ['\\', ','] && (atCn (rest.flatMap Piece.text)).isSome) || siteIn rest

def AttributeValue.hasSite : AttributeValue → Bool
  | .string pieces _ => siteIn pieces
  | .encoded _ _ => false

structure Attribute where
  type : List Char
  typed : type.all isTypeChar = true
  value : AttributeValue

namespace Attribute

def text (atv : Attribute) : List Char := atv.type ++ '=' :: atv.value.text

def isCn (atv : Attribute) : Bool :=
  [['C', 'N'], ['C', 'n'], ['c', 'N'], ['c', 'n']].contains atv.type

end Attribute

structure Rdn where
  first : Attribute
  more : List Attribute

namespace Rdn

def attributes (rdn : Rdn) : List Attribute := rdn.first :: rdn.more

def text (rdn : Rdn) : List Char := rdn.first.text ++ rdn.more.flatMap fun other => '+' :: other.text

def types (rdn : Rdn) : List (List Char) := rdn.attributes.map Attribute.type

end Rdn

abbrev Dn := List Rdn

namespace Dn

def text : Dn → List Char
  | [] => []
  | rdn :: rest => rdn.text ++ rest.flatMap fun other => ',' :: other.text

def subject (dn : Dn) : String := String.ofList dn.text

def firstCn (dn : Dn) : Option Attribute := (dn.flatMap Rdn.attributes).find? Attribute.isCn

def cn (dn : Dn) : String :=
  String.ofList (((firstCn dn).map fun atv => atv.value.unescaped).getD [])

def SameName (dn other : Dn) : Prop :=
  other.map Rdn.types = dn.map Rdn.types ∧ firstCn other = firstCn dn

end Dn

/-! ### Taking a value -/

variable {c : Char}

theorem toNat_typeChar (h : isTypeChar c = true) :
    (48 ≤ c.toNat ∧ c.toNat ≤ 57) ∨ (65 ≤ c.toNat ∧ c.toNat ≤ 90) ∨
      (97 ≤ c.toNat ∧ c.toNat ≤ 122) ∨ c.toNat = 45 ∨ c.toNat = 46 := by
  delta isTypeChar Char.isAlphanum Char.isAlpha Char.isUpper Char.isLower Char.isDigit at h
  simp only [Bool.or_eq_true, Bool.and_eq_true, decide_eq_true_eq, beq_iff_eq, ge_iff_le,
    UInt32.le_iff_toNat_le] at h
  rcases h with (((h | h) | h) | h) | h
  · exact Or.inr (Or.inl h)
  · exact Or.inr (Or.inr (Or.inl h))
  · exact Or.inl h
  · exact Or.inr (Or.inr (Or.inr (Or.inl (by rw [h]; decide))))
  · exact Or.inr (Or.inr (Or.inr (Or.inr (by rw [h]; decide))))

theorem isSpace_typeChar (h : isTypeChar c = true) : isSpace c = false := by
  have hbounds := toNat_typeChar h
  simp [isSpace]
  omega

structure Passed (text shown : List Char) : Prop where
  taken : ∀ rest, takeValue (text ++ rest) = text ++ takeValue rest
  kept : ∀ rest, unescape (text ++ rest) = shown ++ unescape rest

variable {text : List Char}

namespace Passed

theorem nil : Passed [] [] := ⟨fun _ => rfl, fun _ => rfl⟩

theorem append {shown more others : List Char} (h : Passed text shown) (hmore : Passed more others) :
    Passed (text ++ more) (shown ++ others) := by
  constructor
  · intro rest
    rw [List.append_assoc, h.taken, hmore.taken, List.append_assoc]
  · intro rest
    rw [List.append_assoc, h.kept, hmore.kept, List.append_assoc]

theorem flatMap {α : Type} {text shown : α → List Char} (items : List α)
    (h : ∀ item ∈ items, Passed (text item) (shown item)) :
    Passed (items.flatMap text) (items.flatMap shown) := by
  induction items with
  | nil => exact nil
  | cons item rest ih =>
    rw [List.flatMap_cons, List.flatMap_cons]
    exact (h item List.mem_cons_self).append (ih fun other hother =>
      h other (List.mem_cons_of_mem _ hother))

theorem char (hslash : c ≠ '\\') (hcomma : c ≠ ',') : Passed [c] [c] := by
  constructor
  · intro rest
    cases rest with
    | nil => simp [takeValue, hcomma]
    | cons d more => simp [takeValue, hslash, hcomma]
  · intro rest
    cases rest with
    | nil => simp [unescape]
    | cons d more => simp [unescape, hslash]

theorem pair (h : isLineTerminator c = false) : Passed ['\\', c] [c] := by
  constructor
  · intro rest
    simp [takeValue, h]
  · intro rest
    simp [unescape, h]

theorem cons (hslash : c ≠ '\\') (hcomma : c ≠ ',') {shown : List Char} (h : Passed text shown) :
    Passed (c :: text) (c :: shown) := (char hslash hcomma).append h

theorem chars (h : ∀ c ∈ text, c ≠ '\\' ∧ c ≠ ',') : Passed text text := by
  induction text with
  | nil => exact nil
  | cons c rest ih =>
    have hc := h c List.mem_cons_self
    exact cons hc.1 hc.2 (ih fun d hd => h d (List.mem_cons_of_mem _ hd))

end Passed

variable {octet : Char × Char}

theorem digits_of_octetOf (h : (octetOf octet).isSome = true) :
    (∃ n, hexDigit octet.1 = some n) ∧ ∃ n, hexDigit octet.2 = some n := by
  unfold octetOf at h
  cases hhigh : hexDigit octet.1 with
  | none => rw [hhigh] at h; cases h
  | some high =>
    cases hlow : hexDigit octet.2 with
    | none => rw [hhigh, hlow] at h; cases h
    | some low => exact ⟨⟨high, rfl⟩, ⟨low, rfl⟩⟩

theorem ne_of_hexDigit {n : Nat} (h : hexDigit c = some n) :
    (c ≠ '\\' ∧ c ≠ ',') ∧ isLineTerminator c = false ∧ isSpace c = false := by
  have hrange := toNat_hexDigit h
  refine ⟨⟨?_, ?_⟩, ?_, ?_⟩
  · rintro rfl
    cases h
  · rintro rfl
    cases h
  · simp only [isLineTerminator, Bool.or_eq_false_iff, beq_eq_false_iff_ne]
    refine ⟨⟨⟨?_, ?_⟩, ?_⟩, ?_⟩ <;> (rintro rfl; cases h)
  · simp [isSpace]
    omega

theorem octets_of_piece {octets : List (Char × Char)}
    (h : octets.map octetOf = (String.utf8EncodeChar c).map some) :
    octets ≠ [] ∧ ∀ octet ∈ octets, (octetOf octet).isSome = true := by
  constructor
  · rintro rfl
    exact String.utf8EncodeChar_ne_nil (List.map_eq_nil_iff.mp h.symm)
  · intro octet hoctet
    have hmem : octetOf octet ∈ (String.utf8EncodeChar c).map some := by
      rw [← h]
      exact List.mem_map_of_mem hoctet
    obtain ⟨byte, -, hbyte⟩ := List.mem_map.mp hmem
    rw [← hbyte]
    rfl

theorem passed_octet (h : (octetOf octet).isSome = true) :
    Passed ['\\', octet.1, octet.2] [octet.1, octet.2] := by
  obtain ⟨⟨high, hhigh⟩, low, hlow⟩ := digits_of_octetOf h
  have hdigit := ne_of_hexDigit hlow
  exact (Passed.pair (ne_of_hexDigit hhigh).2.1).append (Passed.char hdigit.1.1 hdigit.1.2)

theorem passed_digits (h : (octetOf octet).isSome = true) :
    Passed [octet.1, octet.2] [octet.1, octet.2] := by
  obtain ⟨⟨high, hhigh⟩, low, hlow⟩ := digits_of_octetOf h
  have hfirst := ne_of_hexDigit hhigh
  have hsecond := ne_of_hexDigit hlow
  exact Passed.cons hfirst.1.1 hfirst.1.2 (Passed.char hsecond.1.1 hsecond.1.2)

theorem passed_piece (piece : Piece) : Passed piece.text piece.shown := by
  cases piece with
  | plain c h =>
    refine Passed.char ?_ ?_ <;> (rintro rfl; cases h)
  | pair c h =>
    refine Passed.pair ?_
    simp only [isLineTerminator, Bool.or_eq_false_iff, beq_eq_false_iff_ne]
    refine ⟨⟨⟨?_, ?_⟩, ?_⟩, ?_⟩ <;> (rintro rfl; cases h)
  | hex c octets h =>
    exact Passed.flatMap octets fun octet hoctet => passed_octet ((octets_of_piece h).2 octet hoctet)

theorem passed_value (value : AttributeValue) : Passed value.text value.shown := by
  cases value with
  | string pieces h => exact Passed.flatMap pieces fun piece _ => passed_piece piece
  | encoded octets h =>
    exact Passed.cons (by decide) (by decide)
      (Passed.flatMap octets fun octet hoctet => passed_digits (h octet hoctet))

namespace Attribute

def shown (atv : Attribute) : List Char := atv.type ++ '=' :: atv.value.shown

theorem passed (atv : Attribute) : Passed atv.text atv.shown := by
  refine (Passed.chars fun c hc => ?_).append (Passed.cons (by decide) (by decide)
    (passed_value atv.value))
  have htyped := List.all_eq_true.mp atv.typed c hc
  constructor <;> (rintro rfl; cases htyped)

end Attribute

def Rdn.tail (rdn : Rdn) : List Char := rdn.more.flatMap fun other => '+' :: other.text

theorem Rdn.passed_tail (rdn : Rdn) :
    Passed rdn.tail (rdn.more.flatMap fun other => '+' :: other.shown) :=
  Passed.flatMap rdn.more fun other _ => Passed.cons (by decide) (by decide) other.passed

/-! ### Where a name is found -/

def Ends (rest : List Char) : Prop := ∀ c ∈ rest.head?, c = ',' ∨ c = '+'

variable {rest : List Char}

theorem named_eq_some_iff : named text = some rest ↔
    ∃ c n, (c = 'C' ∨ c = 'c') ∧ (n = 'N' ∨ n = 'n') ∧ text = c :: n :: '=' :: rest := by
  constructor
  · intro h
    unfold named at h
    split at h
    · next c n e after =>
      split at h
      · next hletters =>
        obtain rfl := Option.some.inj h
        exact ⟨c, n, hletters.1, hletters.2.1, by rw [hletters.2.2]⟩
      · cases h
    · cases h
  · rintro ⟨c, n, hc, hn, rfl⟩
    rw [named, if_pos ⟨hc, hn, rfl⟩]

theorem named_typed {type : List Char} (hsign : ∀ c ∈ type, c ≠ '=') {after : List Char}
    (h : named (type ++ '=' :: rest) = some after) :
    [['C', 'N'], ['C', 'n'], ['c', 'N'], ['c', 'n']].contains type = true := by
  obtain ⟨c, n, hc, hn, heq⟩ := named_eq_some_iff.mp h
  match type with
  | [] =>
    have hfirst := (List.cons.inj heq).1
    rcases hc with rfl | rfl <;> cases hfirst
  | [d] =>
    have hsecond := (List.cons.inj (List.cons.inj heq).2).1
    rcases hn with rfl | rfl <;> cases hsecond
  | [d, e] =>
    obtain ⟨hd, hrest⟩ := List.cons.inj heq
    obtain ⟨he, -⟩ := List.cons.inj hrest
    rw [hd, he]
    rcases hc with rfl | rfl <;> rcases hn with rfl | rfl <;> decide
  | d :: e :: f :: more =>
    have hthird := (List.cons.inj (List.cons.inj (List.cons.inj heq).2).2).1
    exact absurd hthird (hsign f (by simp))

theorem atCn_typed (atv : Attribute) (rest : List Char) :
    atCn (atv.text ++ rest) = if atv.isCn = true then some (atv.value.text ++ rest) else none := by
  obtain ⟨type, typed, value⟩ := atv
  have hstart : (type ++ '=' :: (value.text ++ rest)).dropWhile isSpace =
      type ++ '=' :: (value.text ++ rest) := by
    cases type with
    | nil => exact List.dropWhile_cons_of_neg (by decide)
    | cons c more =>
      have hc := isSpace_typeChar (List.all_eq_true.mp typed c List.mem_cons_self)
      rw [List.cons_append, List.dropWhile_cons_of_neg (by simp [hc])]
  have hat : atCn (Attribute.text ⟨type, typed, value⟩ ++ rest) =
      named (type ++ '=' :: (value.text ++ rest)) := by
    rw [← hstart, atCn, Attribute.text, List.append_assoc, List.cons_append]
  rw [hat]
  by_cases hname : Attribute.isCn ⟨type, typed, value⟩ = true
  · rw [if_pos hname, named_eq_some_iff]
    simp only [Attribute.isCn, List.contains_iff_mem, List.mem_cons, List.not_mem_nil,
      or_false] at hname
    rcases hname with rfl | rfl | rfl | rfl
    · exact ⟨'C', 'N', Or.inl rfl, Or.inl rfl, rfl⟩
    · exact ⟨'C', 'n', Or.inl rfl, Or.inr rfl, rfl⟩
    · exact ⟨'c', 'N', Or.inr rfl, Or.inl rfl, rfl⟩
    · exact ⟨'c', 'n', Or.inr rfl, Or.inr rfl, rfl⟩
  · rw [if_neg hname, Option.eq_none_iff_forall_ne_some]
    intro after hafter
    refine hname (named_typed ?_ hafter)
    rintro c hc rfl
    have htyped := List.all_eq_true.mp typed _ hc
    cases htyped

theorem atCn_append (h : atCn text = none) (hrest : Ends rest) : atCn (text ++ rest) = none := by
  cases rest with
  | nil => rwa [List.append_nil]
  | cons d more =>
    have hd : (d ≠ 'C' ∧ d ≠ 'c') ∧ (d ≠ 'N' ∧ d ≠ 'n') ∧ d ≠ '=' ∧ isSpace d = false := by
      rcases hrest d rfl with rfl | rfl <;> decide
    have hstart : (text ++ d :: more).dropWhile isSpace = text.dropWhile isSpace ++ d :: more := by
      rw [List.dropWhile_append]
      split
      · next hempty =>
        rw [List.isEmpty_iff.mp hempty, List.nil_append,
          List.dropWhile_cons_of_neg (by simp [hd.2.2.2])]
      · rfl
    rw [atCn, Option.eq_none_iff_forall_ne_some, hstart]
    intro after hafter
    obtain ⟨c, n, hc, hn, heq⟩ := named_eq_some_iff.mp hafter
    -- The end of the value would have to be one of the two letters or the sign.
    match hkept : text.dropWhile isSpace with
    | [] =>
      rw [hkept] at heq
      have hfirst := (List.cons.inj heq).1
      rcases hc with rfl | rfl
      · exact hd.1.1 hfirst
      · exact hd.1.2 hfirst
    | [x] =>
      rw [hkept] at heq
      have hsecond := (List.cons.inj (List.cons.inj heq).2).1
      rcases hn with rfl | rfl
      · exact hd.2.1.1 hsecond
      · exact hd.2.1.2 hsecond
    | [x, y] =>
      rw [hkept] at heq
      exact hd.2.2.1 (List.cons.inj (List.cons.inj (List.cons.inj heq).2).2).1
    | x :: y :: z :: others =>
      rw [hkept] at heq
      have hsome : atCn text = some others := by
        rw [atCn, hkept, named_eq_some_iff]
        obtain ⟨hx, hrest⟩ := List.cons.inj heq
        obtain ⟨hy, hrest⟩ := List.cons.inj hrest
        obtain ⟨hz, -⟩ := List.cons.inj hrest
        exact ⟨c, n, hc, hn, by rw [hx, hy, hz]⟩
      rw [h] at hsome
      cases hsome

theorem execFrom_cons (hc : c ≠ ',') (rest : List Char) : execFrom (c :: rest) = execFrom rest := by
  rw [execFrom, if_neg hc]

theorem execFrom_comma (rest : List Char) : execFrom (',' :: rest) = exec rest := by
  rw [execFrom, if_pos rfl, exec]

theorem execFrom_append (h : ∀ c ∈ text, c ≠ ',') (rest : List Char) :
    execFrom (text ++ rest) = execFrom rest := by
  induction text with
  | nil => rfl
  | cons c more ih =>
    rw [List.cons_append, execFrom_cons (h c List.mem_cons_self)]
    exact ih fun d hd => h d (List.mem_cons_of_mem _ hd)

theorem comma_of_piece (piece : Piece) (h : piece.text ≠ ['\\', ',']) : ∀ c ∈ piece.text, c ≠ ',' := by
  cases piece with
  | plain c hc =>
    intro d hd
    rw [List.mem_singleton.mp hd]
    rintro rfl
    cases hc
  | pair c hc =>
    rintro d hd rfl
    simp only [Piece.text, List.mem_cons, List.not_mem_nil, or_false] at hd
    rcases hd with hd | rfl
    · cases hd
    · exact h rfl
  | hex c octets hoctets =>
    rintro d hd rfl
    obtain ⟨octet, hoctet, hmem⟩ := List.mem_flatMap.mp hd
    obtain ⟨⟨high, hhigh⟩, low, hlow⟩ :=
      digits_of_octetOf ((octets_of_piece hoctets).2 octet hoctet)
    simp only [List.mem_cons, List.not_mem_nil, or_false] at hmem
    rcases hmem with hmem | hmem | hmem
    · cases hmem
    · exact (ne_of_hexDigit hhigh).1.2 hmem.symm
    · exact (ne_of_hexDigit hlow).1.2 hmem.symm

theorem execFrom_pieces {pieces : List Piece} (h : siteIn pieces = false) (hrest : Ends rest) :
    execFrom (pieces.flatMap Piece.text ++ rest) = execFrom rest := by
  induction pieces with
  | nil => rfl
  | cons piece more ih =>
    rw [siteIn, Bool.or_eq_false_iff] at h
    rw [List.flatMap_cons, List.append_assoc, ← ih h.2]
    by_cases hcomma : piece.text = ['\\', ',']
    · have hnone : atCn (more.flatMap Piece.text) = none := by
        have hsite := h.1
        rw [hcomma] at hsite
        simpa using hsite
      rw [hcomma, List.cons_append, List.cons_append, List.nil_append,
        execFrom_cons (by decide), execFrom_comma, exec, atCn_append hnone hrest, Option.none_or]
    · exact execFrom_append (comma_of_piece piece hcomma) _

variable {value : AttributeValue}

theorem execFrom_value (h : value.hasSite = false) (hrest : Ends rest) :
    execFrom (value.text ++ rest) = execFrom rest := by
  cases value with
  | string pieces hpieces => exact execFrom_pieces h hrest
  | encoded octets hoctets =>
    refine execFrom_append (fun c hc => ?_) rest
    rcases List.mem_cons.mp hc with rfl | hc
    · decide
    · obtain ⟨octet, hoctet, hmem⟩ := List.mem_flatMap.mp hc
      obtain ⟨⟨high, hhigh⟩, low, hlow⟩ := digits_of_octetOf (hoctets octet hoctet)
      simp only [List.mem_cons, List.not_mem_nil, or_false] at hmem
      rcases hmem with rfl | rfl
      · exact (ne_of_hexDigit hhigh).1.2
      · exact (ne_of_hexDigit hlow).1.2

theorem execFrom_attribute {atv : Attribute} (h : atv.value.hasSite = false) (hrest : Ends rest) :
    execFrom (atv.text ++ rest) = execFrom rest := by
  rw [Attribute.text, List.append_assoc, execFrom_append, List.cons_append,
    execFrom_cons (by decide), execFrom_value h hrest]
  rintro c hc rfl
  have htyped := List.all_eq_true.mp atv.typed _ hc
  cases htyped

theorem ends_more (more : List Attribute) (hrest : Ends rest) :
    Ends ((more.flatMap fun other => '+' :: other.text) ++ rest) := by
  cases more with
  | nil => exact hrest
  | cons atv others =>
    intro c hc
    cases hc
    exact Or.inr rfl

theorem execFrom_more {more : List Attribute} (h : ∀ atv ∈ more, atv.value.hasSite = false)
    (hrest : Ends rest) :
    execFrom ((more.flatMap fun other => '+' :: other.text) ++ rest) = execFrom rest := by
  induction more with
  | nil => rfl
  | cons atv others ih =>
    rw [List.flatMap_cons, List.append_assoc, List.cons_append, execFrom_cons (by decide),
      execFrom_attribute (h atv List.mem_cons_self) (ends_more others hrest)]
    exact ih fun other hother => h other (List.mem_cons_of_mem _ hother)

namespace Rdn

theorem text_eq (rdn : Rdn) (rest : List Char) : rdn.text ++ rest = rdn.first.text ++ (rdn.tail ++ rest) :=
  List.append_assoc _ _ _

theorem execFrom (rdn : Rdn) (h : ∀ atv ∈ rdn.attributes, atv.value.hasSite = false)
    (hrest : Ends rest) : SubjectNames.execFrom (rdn.text ++ rest) = SubjectNames.execFrom rest := by
  rw [text_eq, tail, execFrom_attribute (h _ List.mem_cons_self) (ends_more rdn.more hrest)]
  exact execFrom_more (fun atv hatv => h atv (List.mem_cons_of_mem _ hatv)) hrest

end Rdn

def commas (dn : Dn) : List Char := dn.flatMap fun other => ',' :: other.text

theorem ends_commas (dn : Dn) : Ends (commas dn) := by
  cases dn with
  | nil => intro c hc; cases hc
  | cons rdn rest =>
    intro c hc
    cases hc
    exact Or.inl rfl

theorem exec_text (rdn : Rdn) (rest : Dn) : exec (Dn.text (rdn :: rest)) = execFrom (commas (rdn :: rest)) := by
  rw [commas, List.flatMap_cons, List.cons_append, execFrom_comma]
  rfl

theorem execFrom_commas (rdn : Rdn) (rest : Dn) : execFrom (commas (rdn :: rest)) =
    if rdn.first.isCn = true then some (rdn.first.value.text ++ (rdn.tail ++ commas rest))
    else execFrom (rdn.text ++ commas rest) := by
  have hcons : commas (rdn :: rest) = ',' :: (rdn.text ++ commas rest) := by
    rw [commas, List.flatMap_cons, List.cons_append]
    rfl
  rw [hcons, execFrom_comma, exec, Rdn.text_eq, atCn_typed]
  by_cases hname : rdn.first.isCn = true
  · rw [if_pos hname, if_pos hname, Option.some_or]
  · rw [if_neg hname, if_neg hname, Option.none_or]

/-! ### What is read -/

theorem takeValue_commas (dn : Dn) : takeValue (commas dn) = [] := by
  cases dn with
  | nil => rfl
  | cons rdn rest =>
    rw [commas, List.flatMap_cons, List.cons_append]
    cases rdn.text ++ List.flatMap (fun other : Rdn => ',' :: other.text) rest with
    | nil => rfl
    | cons c more => simp [takeValue]

theorem valueOf_tail {shown : List Char} (h : Passed text shown) (rest : Dn) :
    valueOf (text ++ commas rest) = trim shown := by
  have hkept := h.kept []
  rw [List.append_nil, unescape, List.append_nil] at hkept
  rw [valueOf, h.taken, takeValue_commas, List.append_nil, hkept]

theorem read_leading (rdn : Rdn) (rest : Dn) (h : rdn.first.isCn = true) :
    cnOf (Dn.subject (rdn :: rest)) = String.ofList (trim (rdn.first.value.shown ++
      rdn.more.flatMap fun other => '+' :: other.shown)) := by
  rw [cnOf, Dn.subject, String.toList_ofList, exec_text, execFrom_commas, if_pos h]
  have hpassed := (passed_value rdn.first.value).append rdn.passed_tail
  rw [← List.append_assoc, ← valueOf_tail hpassed rest]

namespace AttributeValue

def Verbatim (value : AttributeValue) : Prop :=
  value.hasHex = false ∧ trim value.unescaped = value.unescaped

theorem shown_of_hasHex (h : value.hasHex = false) : value.shown = value.unescaped := by
  cases value with
  | encoded octets _ => rfl
  | string pieces henclosed =>
    simp only [shown, unescaped, hasHex] at h ⊢
    clear henclosed
    induction pieces with
    | nil => rfl
    | cons piece rest ih =>
      rw [List.any_cons, Bool.or_eq_false_iff] at h
      have hpiece : piece.shown = [piece.char] := by
        cases piece with
        | plain c _ => rfl
        | pair c _ => rfl
        | hex c octets _ => cases h.1
      rw [List.flatMap_cons, List.map_cons, hpiece, List.singleton_append, ih h.2]

end AttributeValue

theorem Piece.length_shown (piece : Piece) :
    1 ≤ piece.shown.length ∧ (piece.isHex = true → 1 < piece.shown.length) := by
  cases piece with
  | plain c _ => exact ⟨Nat.le_refl 1, nofun⟩
  | pair c _ => exact ⟨Nat.le_refl 1, nofun⟩
  | hex c octets h =>
    cases octets with
    | nil => exact absurd rfl (octets_of_piece h).1
    | cons octet more =>
      simp only [Piece.shown, List.flatMap_cons, List.length_append, List.length_cons, List.length_nil]
      omega

namespace AttributeValue

theorem length_unescaped (value : AttributeValue) : value.unescaped.length ≤ value.shown.length ∧
    (value.hasHex = true → value.unescaped.length < value.shown.length) := by
  cases value with
  | encoded octets _ => exact ⟨Nat.le_refl _, nofun⟩
  | string pieces henclosed =>
    simp only [shown, unescaped, hasHex]
    clear henclosed
    induction pieces with
    | nil => exact ⟨Nat.le_refl _, nofun⟩
    | cons piece rest ih =>
      have hpiece := piece.length_shown
      rw [List.flatMap_cons, List.map_cons, List.length_append, List.length_cons, List.any_cons,
        Bool.or_eq_true]
      constructor
      · omega
      · rintro (hhex | hhex)
        · have hlong := hpiece.2 hhex
          omega
        · have hlong := ih.2 hhex
          omega

theorem head_shown (value : AttributeValue) (hc : c ∈ value.shown.head?) (hblank : isSpace c = true) :
    c ∈ value.unescaped.head? := by
  cases value with
  | encoded octets _ => exact hc
  | string pieces _ =>
    cases pieces with
    | nil => cases hc
    | cons piece rest =>
      cases piece with
      | plain d _ => exact hc
      | pair d _ => exact hc
      | hex d octets h =>
        cases octets with
        | nil => exact absurd rfl (octets_of_piece h).1
        | cons octet more =>
          obtain ⟨⟨high, hhigh⟩, -⟩ :=
            digits_of_octetOf ((octets_of_piece h).2 octet List.mem_cons_self)
          cases hc
          rw [(ne_of_hexDigit hhigh).2.2] at hblank
          cases hblank

theorem last_shown (value : AttributeValue) (hc : c ∈ value.shown.getLast?)
    (hblank : isSpace c = true) : c ∈ value.unescaped.getLast? := by
  cases value with
  | encoded octets _ => exact hc
  | string pieces _ =>
    rcases List.eq_nil_or_concat pieces with rfl | ⟨before, piece, rfl⟩
    · cases hc
    · simp only [shown, unescaped, List.concat_eq_append, List.flatMap_append, List.map_append,
        List.flatMap_cons, List.flatMap_nil, List.append_nil, List.map_cons, List.map_nil] at hc ⊢
      cases piece with
      | plain d _ => simpa [Piece.shown, Piece.char] using hc
      | pair d _ => simpa [Piece.shown, Piece.char] using hc
      | hex d octets h =>
        rcases List.eq_nil_or_concat octets with rfl | ⟨others, octet, rfl⟩
        · exact absurd rfl (octets_of_piece h).1
        · obtain ⟨-, low, hlow⟩ := digits_of_octetOf ((octets_of_piece h).2 octet (by simp))
          have hlast : c = octet.2 := by simpa [Piece.shown] using hc.symm
          rw [hlast, (ne_of_hexDigit hlow).2.2] at hblank
          cases hblank

theorem bare_shown (h : Routing.Bare value.unescaped) : Routing.Bare value.shown := by
  constructor
  · intro c hc
    rw [Bool.eq_false_iff]
    intro hblank
    have hhead := h.1 c (value.head_shown hc hblank)
    rw [hblank] at hhead
    cases hhead
  · intro c hc
    rw [Bool.eq_false_iff]
    intro hblank
    have hlast := h.2 c (value.last_shown hc hblank)
    rw [hblank] at hlast
    cases hlast

theorem trim_shown_iff (value : AttributeValue) :
    trim value.shown = value.unescaped ↔ value.Verbatim := by
  constructor
  · intro h
    have hbare : Routing.Bare value.unescaped := by
      rw [← h]
      exact Routing.bare_trim _
    have hsame : value.shown = value.unescaped := by
      rw [← h, Routing.trim_of_bare (bare_shown hbare)]
    constructor
    · rw [Bool.eq_false_iff]
      intro hhex
      have hlong := value.length_unescaped.2 hhex
      rw [hsame] at hlong
      omega
    · exact Routing.trim_of_bare hbare
  · rintro ⟨hhex, htrim⟩
    rw [shown_of_hasHex hhex, htrim]

theorem trim_shown_append_ne (value : AttributeValue) (more : List Char) :
    trim (value.shown ++ '+' :: more) ≠ value.unescaped := by
  intro h
  have hbare : Routing.Bare value.unescaped := by
    rw [← h]
    exact Routing.bare_trim _
  rw [Routing.trim_append_cons _ (by decide), Routing.dropWhile_of_head (bare_shown hbare).1] at h
  have hlength := congrArg List.length h
  have hle := value.length_unescaped.1
  rw [List.length_append, List.length_cons] at hlength
  omega

end AttributeValue

/-! ### Which names are read -/

namespace Dn

def Leads : Dn → Prop
  | [] => True
  | rdn :: _ => rdn.first.isCn = true ∧ rdn.more = [] ∧ rdn.first.value.Verbatim

/-- No value in front of the first name reads like one, and the name is alone in its relative name. -/
def Undisturbed : Dn → Prop
  | [] => True
  | rdn :: rest =>
    if rdn.attributes.any Attribute.isCn = true then
      rdn.first.isCn = true ∧ rdn.more = [] ∧ rdn.first.value.Verbatim
    else (∀ atv ∈ rdn.attributes, atv.value.hasSite = false) ∧ Undisturbed rest

theorem firstCn_of_isCn {rdn : Rdn} (rest : Dn) (h : rdn.first.isCn = true) :
    firstCn (rdn :: rest) = some rdn.first := by
  rw [firstCn, List.flatMap_cons, Rdn.attributes, List.cons_append, List.find?_cons_of_pos h]

theorem cn_of_isCn {rdn : Rdn} (rest : Dn) (h : rdn.first.isCn = true) :
    cn (rdn :: rest) = String.ofList rdn.first.value.unescaped := by
  rw [cn, firstCn_of_isCn rest h]
  rfl

theorem cn_of_none {rdn : Rdn} (rest : Dn) (h : rdn.attributes.any Attribute.isCn = false) :
    cn (rdn :: rest) = cn rest := by
  rw [cn, cn, firstCn, firstCn, List.flatMap_cons, List.find?_append]
  have hnone : rdn.attributes.find? Attribute.isCn = none := by
    rw [List.find?_eq_none]
    intro atv hatv hname
    have hany := List.any_eq_true.mpr ⟨atv, hatv, hname⟩
    rw [h] at hany
    cases hany
  rw [hnone, Option.none_or]

theorem cnOf_leading_iff (rdn : Rdn) (rest : Dn) (h : rdn.first.isCn = true) :
    cnOf (subject (rdn :: rest)) = cn (rdn :: rest) ↔ rdn.more = [] ∧ rdn.first.value.Verbatim := by
  rw [read_leading rdn rest h, cn_of_isCn rest h, String.ofList_inj]
  cases hmore : rdn.more with
  | nil =>
    rw [List.flatMap_nil, List.append_nil, AttributeValue.trim_shown_iff]
    simp
  | cons atv others =>
    rw [List.flatMap_cons, List.cons_append]
    constructor
    · intro hread
      exact absurd hread (AttributeValue.trim_shown_append_ne _ _)
    · rintro ⟨hnil, -⟩
      cases hnil

theorem read_undisturbed (dn : Dn) (h : Undisturbed dn) :
    (match execFrom (commas dn) with
      | some rest => String.ofList (valueOf rest)
      | none => "") = cn dn := by
  induction dn with
  | nil => rfl
  | cons rdn rest ih =>
    rw [Undisturbed] at h
    by_cases hany : rdn.attributes.any Attribute.isCn = true
    · rw [if_pos hany] at h
      have hread := (cnOf_leading_iff rdn rest h.1).mpr h.2
      rwa [cnOf, subject, String.toList_ofList, exec_text] at hread
    · rw [if_neg hany] at h
      rw [Bool.not_eq_true] at hany
      have hfirst : ¬rdn.first.isCn = true := fun hname =>
        Bool.eq_false_iff.mp hany (List.any_eq_true.mpr ⟨rdn.first, List.mem_cons_self, hname⟩)
      rw [execFrom_commas, if_neg hfirst, rdn.execFrom h.1 (ends_commas rest), cn_of_none rest hany]
      exact ih h.2

theorem cnOf_undisturbed (dn : Dn) (h : Undisturbed dn) : cnOf dn.subject = cn dn := by
  cases dn with
  | nil => decide
  | cons rdn rest =>
    rw [cnOf, subject, String.toList_ofList, exec_text]
    exact read_undisturbed _ h

end Dn

/-! ### What a value can be made to say -/

def forged (n : Nat) : AttributeValue :=
  .string (.pair ',' rfl :: .plain 'C' rfl :: .plain 'N' rfl :: .plain '=' rfl ::
    List.replicate (n + 1) (.plain 'x' rfl)) (by
      refine ⟨nofun, nofun, ?_⟩
      rw [List.replicate_succ', ← List.cons_append, ← List.cons_append, ← List.cons_append,
        ← List.cons_append, List.getLast?_concat]
      nofun)

theorem text_forged (n : Nat) :
    (forged n).text = ['\\', ',', 'C', 'N', '='] ++ (List.replicate n 'x' ++ ['x']) := by
  have htext : (List.replicate (n + 1) (Piece.plain 'x' rfl)).flatMap Piece.text =
      List.replicate n 'x' ++ ['x'] := by
    rw [← List.replicate_succ']
    induction n + 1 with
    | zero => rfl
    | succ m ih =>
      rw [List.replicate_succ, List.flatMap_cons, ih]
      rfl
  rw [← htext]
  rfl

theorem length_forged (rdn : Rdn) (rest : Dn) (n : Nat) (h : rdn.first.isCn = false)
    (hforged : rdn.first.value = forged n) : n < (cnOf (Dn.subject (rdn :: rest))).toList.length := by
  have hletters : Passed (List.replicate n 'x' ++ ['x']) (List.replicate n 'x' ++ ['x']) := by
    refine Passed.chars fun c hc => ?_
    have hx : c = 'x' := by
      rcases List.mem_append.mp hc with hc | hc
      · exact List.eq_of_mem_replicate hc
      · exact List.mem_singleton.mp hc
    rw [hx]
    decide
  have htext : rdn.text ++ commas rest = (rdn.first.type ++ ['=', '\\']) ++ ',' :: 'C' :: 'N' :: '=' ::
      ((List.replicate n 'x' ++ ['x'] ++ rdn.tail) ++ commas rest) := by
    rw [Rdn.text_eq, Attribute.text, hforged, text_forged]
    simp
  have htype : ∀ c ∈ rdn.first.type ++ ['=', '\\'], c ≠ ',' := by
    rintro c hc rfl
    rcases List.mem_append.mp hc with hc | hc
    · have htyped := List.all_eq_true.mp rdn.first.typed _ hc
      cases htyped
    · exact absurd hc (by decide)
  have hat : ∀ after : List Char, exec ('C' :: 'N' :: '=' :: after) = some after := fun after => by
    rw [exec, atCn, List.dropWhile_cons_of_neg (by decide), named, if_pos (by simp), Option.some_or]
  rw [cnOf, Dn.subject, String.toList_ofList, exec_text, execFrom_commas, if_neg (by simp [h]), htext,
    execFrom_append htype, execFrom_comma, hat]
  simp only [String.toList_ofList]
  rw [valueOf_tail (hletters.append rdn.passed_tail), List.append_assoc, List.singleton_append, Routing.trim_append_cons _ (by decide), List.length_append, List.length_cons,
    Routing.dropWhile_of_head, List.length_replicate]
  · omega
  · intro c hc
    rw [List.eq_of_mem_replicate (List.mem_of_mem_head? hc)]
    decide

theorem disturbed (rdn : Rdn) (rest : Dn) (h : rdn.first.isCn = false) :
    ∃ other : Dn, Dn.SameName (rdn :: rest) other ∧ cnOf other.subject ≠ Dn.cn (rdn :: rest) := by
  let changed : Rdn :=
    ⟨⟨rdn.first.type, rdn.first.typed, forged (Dn.cn (rdn :: rest)).toList.length⟩, rdn.more⟩
  refine ⟨changed :: rest, ⟨rfl, ?_⟩, fun hsame => ?_⟩
  · have hchanged : ¬changed.first.isCn = true := by
      rw [Bool.not_eq_true, ← h]
      rfl
    rw [Dn.firstCn, Dn.firstCn, List.flatMap_cons, List.flatMap_cons, Rdn.attributes, Rdn.attributes,
      List.cons_append, List.cons_append, List.find?_cons_of_neg hchanged,
      List.find?_cons_of_neg (by simp [h])]
  · have hlong := length_forged changed rest _ h rfl
    rw [hsame] at hlong
    exact Nat.lt_irrefl _ hlong

/-! ### The certificate -/

theorem cn_readCertificate (headers : Headers) (names : CertificateHeaders) (dn : Dn)
    (hsubject : headers.get names.dn = some dn.subject) :
    (readCertificate cnOf headers names).map ClientCertificate.cn =
      if dn.isEmpty then none else some (cnOf dn.subject) := by
  cases dn with
  | nil => rw [readCertificate, hsubject]; rfl
  | cons rdn rest =>
    have hne : Dn.subject (rdn :: rest) ≠ "" := by
      intro hempty
      have hlist := congrArg String.toList hempty
      rw [Dn.subject, String.toList_ofList] at hlist
      have hnil : rdn.text = [] := (List.append_eq_nil_iff.mp hlist).1
      have htext : rdn.first.text = [] := (List.append_eq_nil_iff.mp hnil).1
      have hsign := (List.append_eq_nil_iff.mp htext).2
      cases hsign
    rw [readCertificate, hsubject]
    simp only [if_neg hne]
    rfl

def Named (headers : Headers) (names : CertificateHeaders) (dn : Dn) : Prop :=
  (readCertificate cnOf headers names).map ClientCertificate.cn =
    if dn.isEmpty then none else some dn.cn

theorem named_iff {headers : Headers} {names : CertificateHeaders} {rdn : Rdn} {rest : Dn}
    (hsubject : headers.get names.dn = some (Dn.subject (rdn :: rest))) :
    Named headers names (rdn :: rest) ↔ cnOf (Dn.subject (rdn :: rest)) = Dn.cn (rdn :: rest) := by
  rw [Named, cn_readCertificate headers names _ hsubject]
  simp

theorem named_nil {headers : Headers} {names : CertificateHeaders}
    (hsubject : headers.get names.dn = some (Dn.subject [])) : Named headers names [] := by
  rw [Named, cn_readCertificate headers names _ hsubject]
  rfl

theorem Dn.leads_of_sameName {dn other : Dn} (h : dn.Leads) (hsame : Dn.SameName dn other) :
    other.Leads := by
  cases dn with
  | nil =>
    rw [List.map_eq_nil_iff.mp hsame.1]
    trivial
  | cons rdn rest =>
    cases other with
    | nil => trivial
    | cons changed others =>
      obtain ⟨hname, hmore, hverbatim⟩ := h
      have htypes : changed.types = rdn.types := (List.cons.inj hsame.1).1
      rw [Rdn.types, Rdn.types, Rdn.attributes, Rdn.attributes, hmore] at htypes
      have htype : changed.first.type = rdn.first.type := (List.cons.inj htypes).1
      have hchanged : changed.first.isCn = true := by
        rw [Attribute.isCn, htype]
        exact hname
      have hfirst : changed.first = rdn.first := by
        have hcn := hsame.2
        rw [Dn.firstCn_of_isCn others hchanged, Dn.firstCn_of_isCn rest hname] at hcn
        exact Option.some.inj hcn
      exact ⟨hchanged, List.map_eq_nil_iff.mp (List.cons.inj htypes).2, by rwa [hfirst]⟩

theorem exists_headers (name value : String) : ∃ headers : Headers, headers.get name = some value := by
  refine ⟨Headers.set Headers.empty name value, ?_⟩
  rw [Headers.get_set, if_pos rfl]

theorem names_read (names : CertificateHeaders) (dn : Dn) :
    ((∀ (other : Dn) (headers : Headers), Dn.SameName dn other →
        headers.get names.dn = some other.subject → Named headers names other) ↔ dn.Leads) ∧
      (dn.Undisturbed → ∀ headers : Headers, headers.get names.dn = some dn.subject →
        Named headers names dn) := by
  refine ⟨⟨fun hall => ?_, fun hleads other headers hsame hsubject => ?_⟩,
    fun hundisturbed headers hsubject => ?_⟩
  · cases dn with
    | nil => trivial
    | cons rdn rest =>
      by_cases hname : rdn.first.isCn = true
      · obtain ⟨headers, hsubject⟩ := exists_headers names.dn (Dn.subject (rdn :: rest))
        have hread := (named_iff hsubject).mp (hall _ headers ⟨rfl, rfl⟩ hsubject)
        exact ⟨hname, (Dn.cnOf_leading_iff rdn rest hname).mp hread⟩
      · obtain ⟨other, hsame, hother⟩ := disturbed rdn rest (Bool.eq_false_iff.mpr hname)
        obtain ⟨headers, hsubject⟩ := exists_headers names.dn other.subject
        have hread := hall other headers hsame hsubject
        rw [Named, cn_readCertificate headers names other hsubject] at hread
        cases other with
        | nil => cases hsame.1
        | cons changed others =>
          have hcn : Dn.cn (changed :: others) = Dn.cn (rdn :: rest) := by
            rw [Dn.cn, hsame.2, Dn.cn]
          rw [← hcn] at hother
          exact absurd (Option.some.inj hread) hother
  · have hother := Dn.leads_of_sameName hleads hsame
    cases other with
    | nil => exact named_nil hsubject
    | cons changed others =>
      exact (named_iff hsubject).mpr ((Dn.cnOf_leading_iff changed others hother.1).mpr hother.2)
  · cases dn with
    | nil => exact named_nil hsubject
    | cons rdn rest => exact (named_iff hsubject).mpr (Dn.cnOf_undisturbed _ hundisturbed)

/-- `O=Foo\, CN=admin,CN=real` is somebody who asked for an organisation of that name. -/
theorem read_from_organisation : ∃ (dn : Dn) (headers : Headers),
    dn.subject = "O=Foo\\, CN=admin,CN=real" ∧ headers.get "x-ssl-client-s-dn" = some dn.subject ∧
      dn.cn = "real" ∧
      (readCertificate cnOf headers ⟨"x-ssl-client-s-dn", "x-ssl-client-i-dn", "x-ssl-client-verify",
        "x-ssl-client-fingerprint", "x-ssl-client-san"⟩).map ClientCertificate.cn = some "admin" := by
  let organisation : AttributeValue := .string [.plain 'F' rfl, .plain 'o' rfl, .plain 'o' rfl,
    .pair ',' rfl, .plain ' ' rfl, .plain 'C' rfl, .plain 'N' rfl, .plain '=' rfl, .plain 'a' rfl,
    .plain 'd' rfl, .plain 'm' rfl, .plain 'i' rfl, .plain 'n' rfl] ⟨nofun, nofun, nofun⟩
  let real : AttributeValue := .string [.plain 'r' rfl, .plain 'e' rfl, .plain 'a' rfl, .plain 'l' rfl]
    ⟨nofun, nofun, nofun⟩
  let dn : Dn := [⟨⟨['O'], rfl, organisation⟩, []⟩, ⟨⟨['C', 'N'], rfl, real⟩, []⟩]
  have hsubject : dn.subject = "O=Foo\\, CN=admin,CN=real" := by decide +kernel
  refine ⟨dn, Headers.set Headers.empty "x-ssl-client-s-dn" dn.subject, hsubject, ?_, by decide +kernel, ?_⟩
  · rw [Headers.get_set, if_pos rfl]
  · rw [cn_readCertificate _ _ dn (by rw [Headers.get_set, if_pos rfl]), hsubject]
    decide +kernel

end Apim.DataPlane.SubjectNames
