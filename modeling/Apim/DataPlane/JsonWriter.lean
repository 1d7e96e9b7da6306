import Apim.DataPlane.JsonReader

/-!
# What is written is read back

`JSON.stringify` of a value, as the tree its text is of. The reader gives the tree back (`readValue_text`).
-/

namespace Apim.JsonReader
open DataPlane (JsonLimits)
open Hex JsNumber

/-! ### Writing -/

def isHigh (u : UInt16) : Bool := decide (0xd800 ≤ u.toNat ∧ u.toNat < 0xdc00)

def isLow (u : UInt16) : Bool := decide (0xdc00 ≤ u.toNat ∧ u.toNat < 0xe000)

def pairChar (high low : UInt16) : Char :=
  Char.ofNat (0x10000 + (high.toNat - 0xd800) * 0x400 + (low.toNat - 0xdc00))

def escapeLetter (n : Nat) : Option Char :=
  if n = 8 then some 'b' else if n = 9 then some 't' else if n = 10 then some 'n'
  else if n = 12 then some 'f' else if n = 13 then some 'r' else if n = 34 then some '"'
  else if n = 92 then some '\\' else none

def unitText (u : UInt16) : List Char :=
  match escapeLetter u.toNat with
  | some letter => ['\\', letter]
  | none =>
    if u.toNat < 0x20 ∨ isHigh u = true ∨ isLow u = true then '\\' :: 'u' :: hexText u.toNat
    else [Char.ofNat u.toNat]

def quoted : Units → List Char
  | [] => []
  | [u] => unitText u
  | u :: v :: rest =>
    if isHigh u = true ∧ isLow v = true then pairChar u v :: quoted rest
    else unitText u ++ quoted (v :: rest)

def quote (s : Units) : List Char := '"' :: (quoted s ++ ['"'])

def literalText (n : Literal) : List Char :=
  (if n.negative then ['-'] else []) ++ (n.whole ++ ((if n.fraction = [] then [] else '.' :: n.fraction) ++
    match n.exponent with
    | none => []
    | some (negative, digits) => 'e' :: (if negative then '-' else '+') :: digits))

mutual
def textOf : Tree → List Char
  | .null => "null".toList
  | .bool true => "true".toList
  | .bool false => "false".toList
  | .num n => literalText n
  | .str s => quote s
  | .arr items => '[' :: (itemsText items ++ [']'])
  | .obj members => '\x7b' :: (membersText members ++ ['\x7d'])

def itemsText : List Tree → List Char
  | [] => []
  | [v] => textOf v
  | v :: w :: rest => textOf v ++ ',' :: itemsText (w :: rest)

def membersText : List (Units × Tree) → List Char
  | [] => []
  | [(key, v)] => quote key ++ ':' :: textOf v
  | (key, v) :: next :: rest => quote key ++ ':' :: (textOf v ++ ',' :: membersText (next :: rest))
end

mutual
/-- The tree of the text `JSON.stringify` writes. An infinite number is written `null`. -/
def printed : JsValue → Tree
  | .null => .null
  | .bool b => .bool b
  | .num (.finite x) => .num (toLiteral x)
  | .num (.infinite _) => .null
  | .str s => .str s
  | .arr items => .arr (itemsPrinted items)
  | .obj members => .obj (membersPrinted members)

def itemsPrinted : List JsValue → List Tree
  | [] => []
  | v :: rest => printed v :: itemsPrinted rest

def membersPrinted : List (Units × JsValue) → List (Units × Tree)
  | [] => []
  | (key, v) :: rest => (key, printed v) :: membersPrinted rest
end

def stringify (v : JsValue) : List Char := textOf (printed v)

mutual
def WellFormed : Tree → Prop
  | .num n => n.WellFormed
  | .arr items => ItemsWellFormed items
  | .obj members => MembersWellFormed members
  | _ => True

def ItemsWellFormed : List Tree → Prop
  | [] => True
  | v :: rest => WellFormed v ∧ ItemsWellFormed rest

def MembersWellFormed : List (Units × Tree) → Prop
  | [] => True
  | (_, v) :: rest => WellFormed v ∧ MembersWellFormed rest
end

mutual
theorem printed_wellFormed : ∀ v : JsValue, WellFormed (printed v)
  | .null => trivial
  | .bool _ => trivial
  | .num (.finite x) => toLiteral_wellFormed x
  | .num (.infinite _) => trivial
  | .str _ => trivial
  | .arr items => itemsPrinted_wellFormed items
  | .obj members => membersPrinted_wellFormed members

theorem itemsPrinted_wellFormed : ∀ items : List JsValue, ItemsWellFormed (itemsPrinted items)
  | [] => trivial
  | v :: rest => ⟨printed_wellFormed v, itemsPrinted_wellFormed rest⟩

theorem membersPrinted_wellFormed :
    ∀ members : List (Units × JsValue), MembersWellFormed (membersPrinted members)
  | [] => trivial
  | (_, v) :: rest => ⟨printed_wellFormed v, membersPrinted_wellFormed rest⟩
end

/-! ### Strings -/

theorem unitsOf_ofNat {u : UInt16} (h : ¬(isHigh u = true ∨ isLow u = true)) :
    unitsOf (Char.ofNat u.toNat) = [u] := by
  have hlt := u.toNat_lt
  simp only [isHigh, isLow, decide_eq_true_eq] at h
  have hvalid : u.toNat.isValidChar := by
    rw [Nat.isValidChar]
    omega
  have hnat : (Char.ofNat u.toNat).toNat = u.toNat := by
    rw [Char.ofNat, dif_pos hvalid]
    rfl
  rw [unitsOf, hnat, if_pos (by omega), UInt16.ofNat_toNat]

theorem unitsOf_pairChar {u v : UInt16} (hu : isHigh u = true) (hv : isLow v = true) :
    0x10000 ≤ (pairChar u v).toNat ∧ unitsOf (pairChar u v) = [u, v] := by
  simp only [isHigh, isLow, decide_eq_true_eq] at hu hv
  have hvalid : (0x10000 + (u.toNat - 0xd800) * 0x400 + (v.toNat - 0xdc00)).isValidChar := by
    rw [Nat.isValidChar]
    omega
  have hnat : (pairChar u v).toNat = 0x10000 + (u.toNat - 0xd800) * 0x400 + (v.toNat - 0xdc00) := by
    rw [pairChar, Char.ofNat, dif_pos hvalid]
    rfl
  refine ⟨by rw [hnat]; omega, ?_⟩
  rw [unitsOf, hnat, if_neg (by omega)]
  have hhigh : 0xd800 + (0x10000 + (u.toNat - 0xd800) * 0x400 + (v.toNat - 0xdc00) - 0x10000) / 0x400 =
      u.toNat := by omega
  have hlow : 0xdc00 + (0x10000 + (u.toNat - 0xd800) * 0x400 + (v.toNat - 0xdc00) - 0x10000) % 0x400 =
      v.toNat := by omega
  rw [hhigh, hlow, UInt16.ofNat_toNat, UInt16.ofNat_toNat]

theorem readString_quote (text : List Char) : readString ('"' :: text) = .ok ([], text) := by
  rw [readString.eq_def]
  simp only [if_true]

variable {c : Char}

theorem readString_plain (hquote : c ≠ '"') (hslash : c ≠ '\\') (hcontrol : 0x20 ≤ c.toNat)
    (text : List Char) : readString (c :: text) = after (unitsOf c) (readString text) := by
  have hvisible : ¬c.toNat < 0x20 := by omega
  rw [readString.eq_def]
  simp only [if_neg hquote, if_neg hslash, if_neg hvisible]

theorem readString_escape {e : Char} (hunicode : e ≠ 'u') (h : simpleEscape e = some c)
    (text : List Char) : readString ('\\' :: e :: text) = after (unitsOf c) (readString text) := by
  have hquote : '\\' ≠ '"' := by decide
  rw [readString.eq_def]
  simp only [if_neg hquote, if_true, if_neg hunicode, h]

theorem readString_hex {a b d : Char} {n : Nat} (h : hexValue a b c d = some n) (text : List Char) :
    readString ('\\' :: 'u' :: a :: b :: c :: d :: text) =
      after [UInt16.ofNat n] (readString text) := by
  have hquote : '\\' ≠ '"' := by decide
  rw [readString.eq_def]
  simp only [if_neg hquote, if_true, h]

theorem escapeLetter_eq_some {n : Nat} {letter : Char} (h : escapeLetter n = some letter) :
    letter ≠ 'u' ∧ ∃ c, simpleEscape letter = some c ∧ unitsOf c = [UInt16.ofNat n] := by
  unfold escapeLetter at h
  split at h
  · next hn => cases h; exact ⟨by decide, '\x08', by decide, by rw [hn]; decide⟩
  split at h
  · next hn => cases h; exact ⟨by decide, '\t', by decide, by rw [hn]; decide⟩
  split at h
  · next hn => cases h; exact ⟨by decide, '\n', by decide, by rw [hn]; decide⟩
  split at h
  · next hn => cases h; exact ⟨by decide, '\x0c', by decide, by rw [hn]; decide⟩
  split at h
  · next hn => cases h; exact ⟨by decide, '\r', by decide, by rw [hn]; decide⟩
  split at h
  · next hn => cases h; exact ⟨by decide, '"', by decide, by rw [hn]; decide⟩
  split at h
  · next hn => cases h; exact ⟨by decide, '\\', by decide, by rw [hn]; decide⟩
  · cases h

theorem ne_of_escapeLetter {n : Nat} (h : escapeLetter n = none) : n ≠ 34 ∧ n ≠ 92 := by
  constructor <;> (rintro rfl; exact absurd h (by decide))

theorem readString_unit (u : UInt16) (text : List Char) :
    readString (unitText u ++ text) = after [u] (readString text) := by
  have hlt := u.toNat_lt
  unfold unitText
  cases hletter : escapeLetter u.toNat with
  | some letter =>
    obtain ⟨hunicode, c, hescape, hunits⟩ := escapeLetter_eq_some hletter
    show readString ('\\' :: letter :: text) = _
    rw [readString_escape hunicode hescape, hunits, UInt16.ofNat_toNat]
  | none =>
    show readString ((if _ then _ else _) ++ text) = _
    split
    · show readString ('\\' :: 'u' :: Nat.digitChar (u.toNat / 4096) ::
        Nat.digitChar (u.toNat / 256 % 16) :: Nat.digitChar (u.toNat / 16 % 16) ::
        Nat.digitChar (u.toNat % 16) :: text) = _
      rw [readString_hex (hexValue_hexText (by omega)), UInt16.ofNat_toNat]
    · next hplain =>
      have hne := ne_of_escapeLetter hletter
      have hsurrogate : ¬(isHigh u = true ∨ isLow u = true) := fun h => hplain (Or.inr h)
      have hunits := unitsOf_ofNat hsurrogate
      simp only [isHigh, isLow, decide_eq_true_eq] at hsurrogate
      have hnat : (Char.ofNat u.toNat).toNat = u.toNat := by
        have hvalid : u.toNat.isValidChar := by
          rw [Nat.isValidChar]
          omega
        rw [Char.ofNat, dif_pos hvalid]
        rfl
      rw [List.singleton_append, readString_plain, hunits]
      · intro hquote
        rw [hquote] at hnat
        exact hne.1 hnat.symm
      · intro hslash
        rw [hslash] at hnat
        exact hne.2 hnat.symm
      · rw [hnat]
        omega

theorem readString_quoted (s : Units) (text : List Char) :
    readString (quoted s ++ '"' :: text) = .ok (s, text) := by
  induction s using quoted.induct with
  | case1 =>
    exact readString_quote text
  | case2 u =>
    rw [quoted, readString_unit, readString_quote]
    rfl
  | case3 u v rest hpair ih =>
    obtain ⟨hlarge, hunits⟩ := unitsOf_pairChar hpair.1 hpair.2
    rw [quoted, if_pos hpair, List.cons_append, readString_plain, ih, hunits]
    · rfl
    · intro hquote
      rw [hquote] at hlarge
      exact absurd hlarge (by decide)
    · intro hslash
      rw [hslash] at hlarge
      exact absurd hlarge (by decide)
    · omega
  | case4 u v rest hpair ih =>
    rw [quoted, if_neg hpair, List.append_assoc, readString_unit, ih]
    rfl

/-! ### Numbers -/

def Ends (rest : List Char) : Prop := ∀ c ∈ rest.head?, c = ',' ∨ c = ']' ∨ c = '\x7d'

def NoDigit (rest : List Char) : Prop := ∀ c ∈ rest.head?, isDigit c = false

variable {rest : List Char}

theorem span_digits {digits : List Char} (h : ∀ c ∈ digits, isDigit c = true) (hrest : NoDigit rest) :
    (digits ++ rest).takeWhile isDigit = digits ∧ (digits ++ rest).dropWhile isDigit = rest := by
  rw [List.takeWhile_append_of_pos h, List.dropWhile_append_of_pos h]
  cases rest with
  | nil => exact ⟨List.append_nil _, rfl⟩
  | cons c more =>
    have hc : ¬isDigit c = true := Bool.eq_false_iff.mp (hrest c rfl)
    rw [List.takeWhile_cons_of_neg hc, List.dropWhile_cons_of_neg hc, List.append_nil]
    exact ⟨rfl, rfl⟩

theorem readWhole_leading {whole : List Char} (h : whole = ['0'] ∨ Leading whole)
    (hrest : NoDigit rest) : readWhole (whole ++ rest) = .ok (whole, rest) := by
  rcases h with rfl | ⟨hne, hhead, hdigits⟩
  · show readWhole ('0' :: rest) = _
    rw [readWhole, if_pos rfl]
  · cases whole with
    | nil => exact absurd rfl hne
    | cons c more =>
      have hzero : c ≠ '0' := fun hc => hhead (by rw [hc]; rfl)
      obtain ⟨htake, hdrop⟩ :=
        span_digits (fun d hd => hdigits d (List.mem_cons_of_mem c hd)) hrest
      rw [List.cons_append, readWhole, if_neg hzero, if_pos (hdigits c List.mem_cons_self), htake, hdrop]

def fractionText (fraction : List Char) : List Char := if fraction = [] then [] else '.' :: fraction

def exponentText : Option (Bool × List Char) → List Char
  | none => []
  | some (negative, digits) => 'e' :: (if negative then '-' else '+') :: digits

theorem literalText_eq (n : Literal) : literalText n =
    (if n.negative then ['-'] else []) ++ (n.whole ++ (fractionText n.fraction ++ exponentText n.exponent)) := by
  rw [literalText, fractionText, exponentText.eq_def]

theorem readExponent_text {exponent : Option (Bool × List Char)}
    (h : ∀ e ∈ exponent, e.2 ≠ [] ∧ ∀ c ∈ e.2, isDigit c = true) (hrest : NoDigit rest)
    (hletter : ∀ c ∈ rest.head?, c ≠ 'e' ∧ c ≠ 'E') :
    readExponent (exponentText exponent ++ rest) = .ok (exponent, rest) := by
  cases exponent with
  | none =>
    show readExponent rest = _
    rw [readExponent, if_neg]
    rintro (hhead | hhead)
    · exact (hletter _ hhead).1 rfl
    · exact (hletter _ hhead).2 rfl
  | some e =>
    obtain ⟨negative, digits⟩ := e
    obtain ⟨hne, hdigits⟩ := h _ rfl
    obtain ⟨htake, hdrop⟩ := span_digits hdigits hrest
    have hsign : readSign ((if negative then '-' else '+') :: (digits ++ rest)) =
        (negative, digits ++ rest) := by
      cases negative <;> rfl
    show readExponent ('e' :: (if negative then '-' else '+') :: (digits ++ rest)) = _
    rw [readExponent, if_pos (Or.inl List.head?_cons)]
    simp only [List.tail_cons, hsign, htake, hdrop, if_neg hne]

theorem head_exponentText (exponent : Option (Bool × List Char))
    (h : c ∈ (exponentText exponent ++ rest).head?) : c = 'e' ∨ c ∈ rest.head? := by
  cases exponent with
  | none => exact Or.inr h
  | some e => cases h; exact Or.inl rfl

theorem readFraction_text {fraction : List Char} (h : ∀ c ∈ fraction, isDigit c = true)
    (hrest : NoDigit rest) (hpoint : ∀ c ∈ rest.head?, c ≠ '.') :
    readFraction (fractionText fraction ++ rest) = .ok (fraction, rest) := by
  unfold fractionText
  split
  · next hnil =>
    have hnone : ¬rest.head? = some '.' := fun hhead => hpoint _ hhead rfl
    rw [List.nil_append, readFraction, if_neg hnone, hnil]
  · next hne =>
    obtain ⟨htake, hdrop⟩ := span_digits h hrest
    show readFraction ('.' :: (fraction ++ rest)) = _
    rw [readFraction, if_pos List.head?_cons]
    simp only [List.tail_cons, htake, hdrop, if_neg hne]

theorem Ends.number (h : Ends rest) :
    ∀ c ∈ rest.head?, isDigit c = false ∧ c ≠ '.' ∧ c ≠ 'e' ∧ c ≠ 'E' := by
  intro c hc
  rcases h c hc with rfl | rfl | rfl <;> decide

theorem head_whole {whole : List Char} (h : whole = ['0'] ∨ Leading whole) :
    ∃ c rest, whole = c :: rest ∧ isDigit c = true := by
  rcases h with rfl | ⟨hne, -, hdigits⟩
  · exact ⟨'0', [], rfl, by decide⟩
  · cases whole with
    | nil => exact absurd rfl hne
    | cons c rest => exact ⟨c, rest, rfl, hdigits c List.mem_cons_self⟩

theorem readNumber_text {n : Literal} (h : n.WellFormed) (hrest : Ends rest) :
    readNumber (literalText n ++ rest) = .ok (n, rest) := by
  have hexponent := readExponent_text h.exponent (fun c hc => (hrest.number c hc).1)
    (fun c hc => (hrest.number c hc).2.2)
  have hnoDigit : NoDigit (exponentText n.exponent ++ rest) := fun c hc => by
    rcases head_exponentText n.exponent hc with rfl | hc
    · decide
    · exact (hrest.number c hc).1
  have hfraction := readFraction_text h.fraction hnoDigit fun c hc => by
    rcases head_exponentText n.exponent hc with rfl | hc
    · decide
    · exact (hrest.number c hc).2.1
  have hafterWhole : NoDigit (fractionText n.fraction ++ (exponentText n.exponent ++ rest)) := by
    unfold fractionText
    split
    · exact hnoDigit
    · intro c hc
      cases hc
      decide
  have hwhole := readWhole_leading h.whole hafterWhole
  obtain ⟨c, more, hc, hdigit⟩ := head_whole h.whole
  have hminus : c ≠ '-' := by
    rintro rfl
    cases hdigit
  have htext : literalText n ++ rest = (if n.negative then ['-'] else []) ++
      (n.whole ++ (fractionText n.fraction ++ (exponentText n.exponent ++ rest))) := by
    rw [literalText_eq]
    simp only [List.append_assoc]
  rw [htext, readNumber]
  obtain ⟨negative, whole, fraction, exponent⟩ := n
  cases negative with
  | false =>
    have hsign : ¬(whole ++ (fractionText fraction ++ (exponentText exponent ++ rest))).head? =
        some '-' := by
      rw [show whole = c :: more from hc]
      exact fun hhead => hminus (Option.some.inj hhead)
    simp only [Bool.false_eq_true, if_false, List.nil_append, decide_eq_false hsign]
    rw [hwhole]
    show (readFraction _ >>= _) = _
    rw [hfraction]
    show (readExponent _ >>= _) = _
    rw [hexponent]
    rfl
  | true =>
    simp only [if_true, List.cons_append, List.nil_append, List.head?_cons, decide_true, List.tail_cons]
    rw [hwhole]
    show (readFraction _ >>= _) = _
    rw [hfraction]
    show (readExponent _ >>= _) = _
    rw [hexponent]
    rfl

/-! ### Values -/

theorem skipWs_cons (h : isWs c = false) (rest : List Char) : skipWs (c :: rest) = c :: rest :=
  List.dropWhile_cons_of_neg (Bool.eq_false_iff.mp h)

theorem readValue_cons (hws : isWs c = false) (fuel depth : Nat) (path : List Step)
    (rest : List Char) : readValue none (fuel + 1) depth path (c :: rest) =
      if c = '"' then (readString rest).map fun (s, rest) => (.str s, rest)
      else if c = '-' ∨ isDigit c = true then
        (readNumber (c :: rest)).map fun (n, rest) => (.num n, rest)
      else if c = 't' then literal "true" (.bool true) (c :: rest)
      else if c = 'f' then literal "false" (.bool false) (c :: rest)
      else if c = 'n' then literal "null" .null (c :: rest)
      else if c = '[' then
        if (skipWs rest).head? = some ']' then .ok (.arr [], (skipWs rest).tail)
        else (readItems none fuel depth path 0 (skipWs rest)).map fun (items, rest) => (.arr items, rest)
      else if c = '\x7b' then
        if (skipWs rest).head? = some '\x7d' then .ok (.obj [], (skipWs rest).tail)
        else (readMembers none fuel depth path [] 0 (skipWs rest)).map fun (members, rest) =>
          (.obj members, rest)
      else .error ⟨.unexpectedCharacter, c :: rest, []⟩ := by
  have hexceeds : ¬exceeds none JsonLimits.maxDepth depth = true := Bool.false_ne_true
  rw [readValue, if_neg hexceeds, skipWs_cons hws]

theorem literalText_cons {n : Literal} (h : n.WellFormed) : ∃ c rest, literalText n = c :: rest ∧
    isWs c = false ∧ c ≠ '"' ∧ (c = '-' ∨ isDigit c = true) ∧ c ≠ ']' := by
  obtain ⟨c, rest, hwhole, hdigit⟩ := head_whole h.whole
  rw [literalText_eq, hwhole]
  cases n.negative with
  | true => exact ⟨'-', _, rfl, by decide, by decide, Or.inl rfl, by decide⟩
  | false =>
    refine ⟨c, _, rfl, ?_, ?_, Or.inr hdigit, ?_⟩
    · simp only [isWs, Bool.or_eq_false_iff, beq_eq_false_iff_ne]
      refine ⟨⟨⟨?_, ?_⟩, ?_⟩, ?_⟩ <;> (rintro rfl; cases hdigit)
    · rintro rfl
      cases hdigit
    · rintro rfl
      cases hdigit

variable {v : Tree}

theorem textOf_cons (h : WellFormed v) :
    ∃ c rest, textOf v = c :: rest ∧ isWs c = false ∧ c ≠ ']' := by
  cases v with
  | null => exact ⟨'n', ['u', 'l', 'l'], rfl, by decide, by decide⟩
  | bool b =>
    cases b with
    | true => exact ⟨'t', ['r', 'u', 'e'], rfl, by decide, by decide⟩
    | false => exact ⟨'f', ['a', 'l', 's', 'e'], rfl, by decide, by decide⟩
  | num n =>
    obtain ⟨c, rest, htext, hws, -, -, hbracket⟩ := literalText_cons h
    exact ⟨c, rest, htext, hws, hbracket⟩
  | str s => exact ⟨'"', _, rfl, by decide, by decide⟩
  | arr items => exact ⟨'[', _, rfl, by decide, by decide⟩
  | obj members => exact ⟨'\x7b', _, rfl, by decide, by decide⟩

theorem ends_cons (h : c = ',' ∨ c = ']' ∨ c = '\x7d') (rest : List Char) : Ends (c :: rest) := by
  intro d hd
  cases hd
  exact h

theorem itemsText_cons {v : Tree} {items : List Tree} (h : WellFormed v) :
    ∃ c rest, itemsText (v :: items) = c :: rest ∧ isWs c = false ∧ c ≠ ']' := by
  obtain ⟨c, rest, htext, hc⟩ := textOf_cons h
  cases items with
  | nil => exact ⟨c, rest, by rw [itemsText, htext], hc⟩
  | cons w others => exact ⟨c, rest ++ ',' :: itemsText (w :: others), by rw [itemsText, htext]; rfl, hc⟩

theorem membersText_cons (member : Units × Tree) (members : List (Units × Tree)) :
    ∃ rest, membersText (member :: members) = '"' :: rest := by
  obtain ⟨key, v⟩ := member
  cases members with
  | nil => exact ⟨quoted key ++ ['"'] ++ ':' :: textOf v, rfl⟩
  | cons next others =>
    exact ⟨quoted key ++ ['"'] ++ ':' :: (textOf v ++ ',' :: membersText (next :: others)), rfl⟩

variable {path : List Step}

theorem readItems_last {fuel depth count : Nat} {text : List Char}
    (hv : readValue none fuel (depth + 1) (path ++ [.index count]) text = .ok (v, ']' :: rest))  :
    readItems none (fuel + 1) depth path count text = .ok ([v], rest) := by
  have hexceeds : ¬exceeds none JsonLimits.maxArrayLength (count + 1) = true := Bool.false_ne_true
  rw [readItems, if_neg hexceeds, hv]
  rfl

theorem readItems_next {fuel depth count : Nat} {text more : List Char} {items : List Tree}
    (hv : readValue none fuel (depth + 1) (path ++ [.index count]) text = .ok (v, ',' :: more))
    (hmore : readItems none fuel depth path (count + 1) more = .ok (items, rest)) :
    readItems none (fuel + 1) depth path count text = .ok (v :: items, rest) := by
  have hexceeds : ¬exceeds none JsonLimits.maxArrayLength (count + 1) = true := Bool.false_ne_true
  rw [readItems, if_neg hexceeds, hv]
  show (readItems none fuel depth path (count + 1) more >>= _) = _
  rw [hmore]
  rfl

theorem readMembers_key {fuel depth keys : Nat} {own : List Units} {key : Units} (body : List Char) :
    readMembers none (fuel + 1) depth path own keys (quote key ++ ':' :: body) =
      (readValue none fuel (depth + 1) (path ++ [.name key]) body >>= fun (v, rest) =>
        match skipWs rest with
        | [] => .error ⟨.unterminatedObject, [], path⟩
        | c :: rest =>
          if c = ',' then do
            let (members, rest) ← readMembers none fuel depth path (assigned own key) (keys + 1) rest
            pure ((key, v) :: members, rest)
          else if c = '\x7d' then .ok ([(key, v)], rest)
          else .error ⟨.expectedMemberEnd, c :: rest, path⟩) := by
  have htext : quote key ++ ':' :: body = '"' :: (quoted key ++ '"' :: ':' :: body) := by
    rw [quote, List.cons_append, List.append_assoc]
    rfl
  have hexceeds : ¬exceeds none JsonLimits.maxObjectKeys (keys + 1) = true := Bool.false_ne_true
  have hduplicate : ¬isDuplicate none own key = true := by
    rw [isDuplicate, Option.any_none, Bool.and_false]
    exact Bool.false_ne_true
  rw [htext, readMembers, skipWs_cons (by decide), if_neg (fun h => h List.head?_cons), List.tail_cons,
    readString_quoted]
  simp only [bind, Except.bind]
  rw [if_neg hexceeds, if_neg hduplicate, skipWs_cons (by decide), if_neg (fun h => h List.head?_cons)]
  rfl

theorem readMembers_last {fuel depth keys : Nat} {own : List Units} {key : Units} {body : List Char}
    (hv : readValue none fuel (depth + 1) (path ++ [.name key]) body = .ok (v, '\x7d' :: rest)) :
    readMembers none (fuel + 1) depth path own keys (quote key ++ ':' :: body) =
      .ok ([(key, v)], rest) := by
  rw [readMembers_key, hv]
  rfl

theorem readMembers_next {fuel depth keys : Nat} {own : List Units} {key : Units}
    {body more : List Char} {members : List (Units × Tree)}
    (hv : readValue none fuel (depth + 1) (path ++ [.name key]) body = .ok (v, ',' :: more))
    (hmore : readMembers none fuel depth path (assigned own key) (keys + 1) more = .ok (members, rest)) :
    readMembers none (fuel + 1) depth path own keys (quote key ++ ':' :: body) =
      .ok ((key, v) :: members, rest) := by
  rw [readMembers_key, hv]
  show (readMembers none fuel depth path (assigned own key) (keys + 1) more >>= _) = _
  rw [hmore]
  rfl

mutual
theorem readValue_text : ∀ v : Tree, WellFormed v → ∀ {rest : List Char}, Ends rest →
    ∀ {fuel : Nat} (depth : Nat) (path : List Step), 2 * (textOf v).length ≤ fuel →
      readValue none fuel depth path (textOf v ++ rest) = .ok (v, rest)
  | .null, _, rest, _, fuel, depth, path, hfuel => by
    obtain ⟨left, rfl⟩ : ∃ left, fuel = left + 1 := ⟨fuel - 1, by
      have hlength : (textOf .null).length = 4 := rfl
      omega⟩
    show readValue none (left + 1) depth path ('n' :: 'u' :: 'l' :: 'l' :: rest) = _
    rw [readValue_cons (by decide)]
    rfl
  | .bool true, _, rest, _, fuel, depth, path, hfuel => by
    obtain ⟨left, rfl⟩ : ∃ left, fuel = left + 1 := ⟨fuel - 1, by
      have hlength : (textOf (.bool true)).length = 4 := rfl
      omega⟩
    show readValue none (left + 1) depth path ('t' :: 'r' :: 'u' :: 'e' :: rest) = _
    rw [readValue_cons (by decide)]
    rfl
  | .bool false, _, rest, _, fuel, depth, path, hfuel => by
    obtain ⟨left, rfl⟩ : ∃ left, fuel = left + 1 := ⟨fuel - 1, by
      have hlength : (textOf (.bool false)).length = 5 := rfl
      omega⟩
    show readValue none (left + 1) depth path ('f' :: 'a' :: 'l' :: 's' :: 'e' :: rest) = _
    rw [readValue_cons (by decide)]
    rfl
  | .num n, h, rest, hrest, fuel, depth, path, hfuel => by
    obtain ⟨c, more, htext, hws, hquote, hnumber, -⟩ := literalText_cons h
    have hlength : 0 < (textOf (.num n)).length := by
      rw [textOf, htext]
      exact Nat.succ_pos _
    obtain ⟨left, rfl⟩ : ∃ left, fuel = left + 1 := ⟨fuel - 1, by omega⟩
    have hread := readNumber_text h hrest
    rw [textOf, htext] at *
    rw [List.cons_append] at hread ⊢
    rw [readValue_cons hws, if_neg hquote, if_pos hnumber, hread]
    rfl
  | .str s, _, rest, _, fuel, depth, path, hfuel => by
    obtain ⟨left, rfl⟩ : ∃ left, fuel = left + 1 := ⟨fuel - 1, by
      have hlength : 0 < (textOf (.str s)).length := Nat.succ_pos _
      omega⟩
    show readValue none (left + 1) depth path ('"' :: (quoted s ++ ['"'] ++ rest)) = _
    rw [readValue_cons (by decide), if_pos rfl, List.append_assoc, List.singleton_append,
      readString_quoted]
    rfl
  | .arr items, h, rest, _, fuel, depth, path, hfuel => by
    have hlength : (textOf (.arr items)).length = (itemsText items).length + 2 := by
      rw [textOf, List.length_cons, List.length_append]
      rfl
    obtain ⟨left, rfl⟩ : ∃ left, fuel = left + 1 := ⟨fuel - 1, by omega⟩
    have htext : textOf (.arr items) ++ rest = '[' :: (itemsText items ++ ']' :: rest) := by
      rw [textOf, List.cons_append, List.append_assoc]
      rfl
    rw [htext, readValue_cons (by decide), if_neg (by decide), if_neg (by decide), if_neg (by decide),
      if_neg (by decide), if_neg (by decide), if_pos rfl]
    cases items with
    | nil => rfl
    | cons v others =>
      obtain ⟨c, more, hfirst, hws, hbracket⟩ := @itemsText_cons v others h.1
      have hopen : ¬(skipWs (itemsText (v :: others) ++ ']' :: rest)).head? = some ']' := by
        rw [hfirst, List.cons_append, skipWs_cons hws]
        exact fun hhead => hbracket (Option.some.inj hhead)
      have hskip : skipWs (itemsText (v :: others) ++ ']' :: rest) =
          itemsText (v :: others) ++ ']' :: rest := by
        rw [hfirst, List.cons_append, skipWs_cons hws]
      rw [if_neg hopen, hskip, readItems_text (v :: others) nofun h depth path 0 (by omega)]
      rfl
  | .obj members, h, rest, _, fuel, depth, path, hfuel => by
    have hlength : (textOf (.obj members)).length = (membersText members).length + 2 := by
      rw [textOf, List.length_cons, List.length_append]
      rfl
    obtain ⟨left, rfl⟩ : ∃ left, fuel = left + 1 := ⟨fuel - 1, by omega⟩
    have htext : textOf (.obj members) ++ rest = '\x7b' :: (membersText members ++ '\x7d' :: rest) := by
      rw [textOf, List.cons_append, List.append_assoc]
      rfl
    rw [htext, readValue_cons (by decide), if_neg (by decide), if_neg (by decide), if_neg (by decide),
      if_neg (by decide), if_neg (by decide), if_neg (by decide), if_pos rfl]
    cases members with
    | nil => rfl
    | cons member others =>
      obtain ⟨more, hfirst⟩ := membersText_cons member others
      have hopen : ¬(skipWs (membersText (member :: others) ++ '\x7d' :: rest)).head? = some '\x7d' := by
        rw [hfirst, List.cons_append, skipWs_cons (by decide)]
        exact fun hhead => absurd (Option.some.inj hhead) (by decide)
      have hskip : skipWs (membersText (member :: others) ++ '\x7d' :: rest) =
          membersText (member :: others) ++ '\x7d' :: rest := by
        rw [hfirst, List.cons_append, skipWs_cons (by decide)]
      rw [if_neg hopen, hskip, readMembers_text (member :: others) nofun h depth path [] 0 (by omega)]
      rfl

theorem readItems_text : ∀ items : List Tree, items ≠ [] → ItemsWellFormed items →
    ∀ {rest : List Char} {fuel : Nat} (depth : Nat) (path : List Step) (count : Nat),
      2 * (itemsText items).length + 1 ≤ fuel →
      readItems none fuel depth path count (itemsText items ++ ']' :: rest) = .ok (items, rest)
  | [], hne, _, _, _, _, _, _, _ => absurd rfl hne
  | [v], _, h, rest, fuel, depth, path, count, hfuel => by
    obtain ⟨left, rfl⟩ : ∃ left, fuel = left + 1 := ⟨fuel - 1, by omega⟩
    rw [itemsText] at hfuel ⊢
    exact readItems_last (readValue_text v h.1 (ends_cons (Or.inr (Or.inl rfl)) rest) _ _ (by omega))
  | v :: w :: others, _, h, rest, fuel, depth, path, count, hfuel => by
    obtain ⟨left, rfl⟩ : ∃ left, fuel = left + 1 := ⟨fuel - 1, by omega⟩
    rw [itemsText, List.length_append, List.length_cons] at hfuel
    have hleft : 2 * (textOf v).length ≤ left := by omega
    have hmore : 2 * (itemsText (w :: others)).length + 1 ≤ left := by omega
    have hfirst := readValue_text v h.1 (ends_cons (Or.inl rfl) (itemsText (w :: others) ++ ']' :: rest))
      (depth + 1) (path ++ [.index count]) hleft
    have hothers := @readItems_text (w :: others) nofun h.2 rest left depth path (count + 1) hmore
    rw [itemsText, List.append_assoc, List.cons_append]
    exact readItems_next hfirst hothers

theorem readMembers_text : ∀ members : List (Units × Tree), members ≠ [] → MembersWellFormed members →
    ∀ {rest : List Char} {fuel : Nat} (depth : Nat) (path : List Step) (own : List Units) (keys : Nat),
      2 * (membersText members).length + 1 ≤ fuel →
      readMembers none fuel depth path own keys (membersText members ++ '\x7d' :: rest) =
        .ok (members, rest)
  | [], hne, _, _, _, _, _, _, _, _ => absurd rfl hne
  | [(key, v)], _, h, rest, fuel, depth, path, own, keys, hfuel => by
    obtain ⟨left, rfl⟩ : ∃ left, fuel = left + 1 := ⟨fuel - 1, by omega⟩
    rw [membersText, List.length_append, List.length_cons] at hfuel
    have hleft : 2 * (textOf v).length ≤ left := by omega
    have hvalue := readValue_text v h.1 (ends_cons (Or.inr (Or.inr rfl)) rest) (depth + 1)
      (path ++ [.name key]) hleft
    rw [membersText, List.append_assoc, List.cons_append]
    exact readMembers_last hvalue
  | (key, v) :: next :: others, _, h, rest, fuel, depth, path, own, keys, hfuel => by
    obtain ⟨left, rfl⟩ : ∃ left, fuel = left + 1 := ⟨fuel - 1, by omega⟩
    rw [membersText, List.length_append, List.length_cons, List.length_append, List.length_cons] at hfuel
    have hleft : 2 * (textOf v).length ≤ left := by omega
    have hmore : 2 * (membersText (next :: others)).length + 1 ≤ left := by omega
    have hvalue := readValue_text v h.1
      (ends_cons (Or.inl rfl) (membersText (next :: others) ++ '\x7d' :: rest)) (depth + 1)
      (path ++ [.name key]) hleft
    have hothers := @readMembers_text (next :: others) nofun h.2 rest left depth path (assigned own key)
      (keys + 1) hmore
    rw [membersText, List.append_assoc, List.cons_append, List.append_assoc, List.cons_append]
    exact readMembers_next hvalue hothers
end

theorem readTree_text {t : Tree} (h : WellFormed t) : readTree none (textOf t) = .ok t := by
  have hfuel : 2 * (textOf t).length ≤ 2 * (textOf t).length + 2 := Nat.le_add_right _ _
  have hread := @readValue_text t h [] nofun _ 1 [] hfuel
  rw [List.append_nil] at hread
  rw [readTree]
  show (readValue none (2 * (textOf t).length + 2) 1 [] (textOf t) >>= _) = _
  rw [hread]
  rfl

theorem readTree_stringify (v : JsValue) : readTree none (stringify v) = .ok (printed v) :=
  readTree_text (printed_wellFormed v)

end Apim.JsonReader
