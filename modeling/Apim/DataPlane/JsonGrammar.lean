import Apim.DataPlane.JsonWriter
import Apim.Lib.Guard

/-!
# The grammar of JSON

What a text denotes by the grammar, as a relation between the text, the tree that it begins with and what is
left of it. Strings and numbers are read as the grammar derives them (`readString_of_chars`,
`readNumber_of`).
-/

namespace Apim.JsonReader
open DataPlane (JsonLimits DuplicateKeys)
open Hex JsNumber

/-! ### Texts -/

inductive Ws : List Char → List Char → Prop
  | nil (text : List Char) : Ws text text
  | cons {c : Char} {text rest : List Char} (hc : isWs c = true) (h : Ws text rest) : Ws (c :: text) rest

inductive Chars : List Char → Units → List Char → Prop
  | close (rest : List Char) : Chars ('"' :: rest) [] rest
  | plain {c : Char} {text rest : List Char} {s : Units} (hquote : c ≠ '"') (hslash : c ≠ '\\')
    (hcontrol : 0x20 ≤ c.toNat) (h : Chars text s rest) : Chars (c :: text) (unitsOf c ++ s) rest
  | escape {e c : Char} {text rest : List Char} {s : Units} (he : simpleEscape e = some c)
    (h : Chars text s rest) : Chars ('\\' :: e :: text) (unitsOf c ++ s) rest
  | unicode {a b c d : Char} {n : Nat} {text rest : List Char} {s : Units} (hhex : hexValue a b c d = some n)
    (h : Chars text s rest) : Chars ('\\' :: 'u' :: a :: b :: c :: d :: text) (UInt16.ofNat n :: s) rest

inductive Exponent : Option (Bool × List Char) → List Char → Prop
  | none : Exponent none []
  | plus {e : Char} (he : e = 'e' ∨ e = 'E') (digits : List Char) : Exponent (some (false, digits)) (e :: '+' :: digits)
  | minus {e : Char} (he : e = 'e' ∨ e = 'E') (digits : List Char) : Exponent (some (true, digits)) (e :: '-' :: digits)
  | bare {e : Char} (he : e = 'e' ∨ e = 'E') (digits : List Char) : Exponent (some (false, digits)) (e :: digits)

structure Number (text : List Char) (n : Literal) (rest : List Char) : Prop where
  wellFormed : n.WellFormed
  written : ∃ exponent, Exponent n.exponent exponent ∧ text = (if n.negative then ['-'] else []) ++
    (n.whole ++ (fractionText n.fraction ++ (exponent ++ rest)))

mutual
inductive Derives : List Char → Tree → List Char → Prop
  | null (rest : List Char) : Derives ('n' :: 'u' :: 'l' :: 'l' :: rest) .null rest
  | yes (rest : List Char) : Derives ('t' :: 'r' :: 'u' :: 'e' :: rest) (.bool true) rest
  | no (rest : List Char) : Derives ('f' :: 'a' :: 'l' :: 's' :: 'e' :: rest) (.bool false) rest
  | str {text rest : List Char} {s : Units} (h : Chars text s rest) : Derives ('"' :: text) (.str s) rest
  | num {text rest : List Char} {n : Literal} (h : Number text n rest) : Derives text (.num n) rest
  | noItems {text rest : List Char} (h : Ws text (']' :: rest)) : Derives ('[' :: text) (.arr []) rest
  | items {text rest : List Char} {items : List Tree} (h : DerivesItems text items rest) :
    Derives ('[' :: text) (.arr items) rest
  | noMembers {text rest : List Char} (h : Ws text ('\x7d' :: rest)) : Derives ('\x7b' :: text) (.obj []) rest
  | members {text rest : List Char} {members : List (Units × Tree)} (h : DerivesMembers text members rest) :
    Derives ('\x7b' :: text) (.obj members) rest

inductive DerivesItems : List Char → List Tree → List Char → Prop
  | last {text front behind rest : List Char} {v : Tree} (hfront : Ws text front) (h : Derives front v behind)
    (hend : Ws behind (']' :: rest)) : DerivesItems text [v] rest
  | next {text front behind more rest : List Char} {v : Tree} {items : List Tree} (hfront : Ws text front)
    (h : Derives front v behind) (hcomma : Ws behind (',' :: more)) (hmore : DerivesItems more items rest) :
    DerivesItems text (v :: items) rest

inductive DerivesMembers : List Char → List (Units × Tree) → List Char → Prop
  | last {text key colon value front behind rest : List Char} {name : Units} {v : Tree}
    (hkey : Ws text ('"' :: key)) (hname : Chars key name colon) (hcolon : Ws colon (':' :: value))
    (hfront : Ws value front) (h : Derives front v behind) (hend : Ws behind ('\x7d' :: rest)) :
    DerivesMembers text [(name, v)] rest
  | next {text key colon value front behind more rest : List Char} {name : Units} {v : Tree}
    {members : List (Units × Tree)} (hkey : Ws text ('"' :: key)) (hname : Chars key name colon)
    (hcolon : Ws colon (':' :: value)) (hfront : Ws value front) (h : Derives front v behind)
    (hcomma : Ws behind (',' :: more)) (hmore : DerivesMembers more members rest) :
    DerivesMembers text ((name, v) :: members) rest
end

def JsonText (text : List Char) (v : Tree) : Prop :=
  ∃ front behind, Ws text front ∧ Derives front v behind ∧ Ws behind []

/-! ### Strings -/

theorem ws_skipWs (text : List Char) : Ws text (skipWs text) := by
  induction text with
  | nil => exact .nil []
  | cons c rest ih =>
    unfold skipWs
    by_cases hc : isWs c = true
    · rw [List.dropWhile_cons_of_pos hc]
      exact .cons hc ih
    · rw [List.dropWhile_cons_of_neg hc]
      exact .nil _

variable {text rest : List Char}

theorem skipWs_of_ws (h : Ws text rest) (hrest : ∀ c ∈ rest.head?, isWs c = false) :
    skipWs text = rest := by
  induction h with
  | nil text =>
    cases text with
    | nil => rfl
    | cons c rest => exact skipWs_cons (hrest c rfl) rest
  | cons hc _ ih =>
    rw [skipWs, List.dropWhile_cons_of_pos hc]
    exact ih hrest

theorem length_of_ws (h : Ws text rest) : rest.length ≤ text.length := by
  induction h with
  | nil => exact Nat.le_refl _
  | cons _ _ ih => exact Nat.le_succ_of_le ih

theorem after_eq_ok {front s : Units} {result : Except JsonError (Units × List Char)} :
    after front result = .ok (s, rest) ↔ ∃ more, result = .ok (more, rest) ∧ s = front ++ more := by
  cases result with
  | error e => exact ⟨nofun, nofun⟩
  | ok p =>
    obtain ⟨more, rest'⟩ := p
    constructor
    · intro h
      cases h
      exact ⟨more, rfl, rfl⟩
    · rintro ⟨_, h, rfl⟩
      cases h
      rfl

theorem chars_of_readString {s : Units} (h : readString text = .ok (s, rest)) :
    Chars text s rest := by
  induction hlength : text.length using Nat.strongRecOn generalizing text s with
  | _ n ih =>
    subst hlength
    cases text with
    | nil => cases h
    | cons c text =>
      rw [readString.eq_def] at h
      simp only at h
      split at h
      next hquote =>
        subst hquote
        cases h
        exact .close _
      next hquote =>
      split at h
      next hslash =>
        subst hslash
        cases text with
        | nil => cases h
        | cons e more =>
          simp only at h
          split at h
          next hunicode =>
            subst hunicode
            split at h
            next a b c d rest' =>
              split at h
              next n hhex =>
                obtain ⟨s, hs, rfl⟩ := after_eq_ok.mp h
                exact .unicode hhex (ih _ (by simp only [List.length_cons]; omega) hs rfl)
              next => cases h
            next => cases h
          next =>
            split at h
            next c he =>
              obtain ⟨s, hs, rfl⟩ := after_eq_ok.mp h
              exact .escape he (ih _ (by simp only [List.length_cons]; omega) hs rfl)
            next => cases h
      next hslash =>
      split at h
      next => cases h
      next hcontrol =>
        obtain ⟨s, hs, rfl⟩ := after_eq_ok.mp h
        exact .plain hquote hslash (Nat.le_of_not_lt hcontrol) (ih _ (by simp only [List.length_cons]; omega) hs rfl)

theorem simpleEscape_ne {e c : Char} (h : simpleEscape e = some c) : e ≠ 'u' := by
  rintro rfl
  cases h

theorem readString_of_chars {s : Units} (h : Chars text s rest) :
    readString text = .ok (s, rest) := by
  induction h with
  | close rest => exact readString_quote rest
  | plain hquote hslash hcontrol _ ih =>
    rw [readString_plain hquote hslash hcontrol, ih]
    rfl
  | escape he _ ih =>
    rw [readString_escape (simpleEscape_ne he) he, ih]
    rfl
  | unicode hhex _ ih =>
    rw [readString_hex hhex, ih]
    rfl

theorem length_of_chars {s : Units} (h : Chars text s rest) : rest.length < text.length := by
  induction h with
  | close rest => exact Nat.lt_succ_self _
  | plain _ _ _ _ ih => exact Nat.lt_succ_of_lt ih
  | escape _ _ ih =>
    simp only [List.length_cons]
    omega
  | unicode _ _ ih =>
    simp only [List.length_cons]
    omega

/-! ### Numbers -/

theorem all_digits (text : List Char) : ∀ c ∈ text.takeWhile isDigit, isDigit c = true :=
  List.all_eq_true.mp List.all_takeWhile

def Follows (rest : List Char) : Prop := ∀ c ∈ rest.head?, isWs c = true ∨ c = ',' ∨ c = ']' ∨ c = '\x7d'

theorem Follows.number (h : Follows rest) :
    ∀ c ∈ rest.head?, isDigit c = false ∧ c ≠ '.' ∧ c ≠ 'e' ∧ c ≠ 'E' := by
  intro c hc
  obtain hws | rfl | rfl | rfl := h c hc
  · have hcases : c = ' ' ∨ c = '\t' ∨ c = '\n' ∨ c = '\r' := by
      simpa [isWs, or_assoc] using hws
    obtain rfl | rfl | rfl | rfl := hcases <;> decide
  · decide
  · decide
  · decide

variable {exponent : Option (Bool × List Char)}

theorem readExponent_of (h : Exponent exponent text)
    (hdigits : ∀ e ∈ exponent, e.2 ≠ [] ∧ ∀ c ∈ e.2, isDigit c = true) (hrest : Follows rest) :
    readExponent (text ++ rest) = .ok (exponent, rest) := by
  have hnoDigit : NoDigit rest := fun c hc => (hrest.number c hc).1
  have hsigned : ∀ {e : Char} {signed digits : List Char} {negative : Bool}, e = 'e' ∨ e = 'E' →
      readSign (signed ++ rest) = (negative, digits ++ rest) → digits ≠ [] →
      (∀ c ∈ digits, isDigit c = true) →
      readExponent (e :: (signed ++ rest)) = .ok (some (negative, digits), rest) := by
    intro e signed digits negative he hsign hne hall
    obtain ⟨htake, hdrop⟩ := span_digits hall hnoDigit
    have hletter : (e :: (signed ++ rest)).head? = some 'e' ∨ (e :: (signed ++ rest)).head? = some 'E' := by
      obtain rfl | rfl := he
      · exact .inl rfl
      · exact .inr rfl
    rw [readExponent, if_pos hletter]
    simp only [List.tail_cons, hsign, htake, hdrop, if_neg hne]
  cases h with
  | none =>
    rw [List.nil_append, readExponent, if_neg]
    rintro (hhead | hhead)
    · exact (hrest.number _ hhead).2.2.1 rfl
    · exact (hrest.number _ hhead).2.2.2 rfl
  | plus he digits =>
    obtain ⟨hne, hall⟩ := hdigits _ rfl
    exact @hsigned _ ('+' :: digits) digits false he rfl hne hall
  | minus he digits =>
    obtain ⟨hne, hall⟩ := hdigits _ rfl
    exact @hsigned _ ('-' :: digits) digits true he rfl hne hall
  | bare he digits =>
    obtain ⟨hne, hall⟩ := hdigits _ rfl
    refine @hsigned _ digits digits false he ?_ hne hall
    cases digits with
    | nil => exact absurd rfl hne
    | cons d digits =>
      have hd := hall d List.mem_cons_self
      have hminus : d ≠ '-' := fun heq => absurd hd (by rw [heq]; decide)
      have hplus : d ≠ '+' := fun heq => absurd hd (by rw [heq]; decide)
      simp [readSign, hminus, hplus]

theorem head_exponent (h : Exponent exponent text) {c : Char} (hc : c ∈ (text ++ rest).head?) :
    c = 'e' ∨ c = 'E' ∨ c ∈ rest.head? := by
  cases h with
  | none => exact .inr (.inr hc)
  | plus he _ | minus he _ | bare he _ =>
    cases hc
    obtain rfl | rfl := he
    · exact .inl rfl
    · exact .inr (.inl rfl)

theorem readNumber_of {n : Literal} (h : Number text n rest) (hrest : Follows rest) :
    readNumber text = .ok (n, rest) := by
  obtain ⟨hwell, exponent, hexponent, rfl⟩ := h
  have hread := readExponent_of hexponent hwell.exponent hrest
  have hnoDigit : NoDigit (exponent ++ rest) := fun c hc => by
    obtain rfl | rfl | hc := head_exponent hexponent hc
    · decide
    · decide
    · exact (hrest.number c hc).1
  have hfraction := readFraction_text hwell.fraction hnoDigit fun c hc => by
    obtain rfl | rfl | hc := head_exponent hexponent hc
    · decide
    · decide
    · exact (hrest.number c hc).2.1
  have hafterWhole : NoDigit (fractionText n.fraction ++ (exponent ++ rest)) := by
    unfold fractionText
    split
    · exact hnoDigit
    · intro c hc
      cases hc
      decide
  have hwhole := readWhole_leading hwell.whole hafterWhole
  obtain ⟨c, more, hc, hdigit⟩ := head_whole hwell.whole
  have hminus : c ≠ '-' := by
    rintro rfl
    cases hdigit
  have hsign : ∀ tail : List Char, ¬(n.whole ++ tail).head? = some '-' := by
    intro tail
    rw [hc]
    exact fun hhead => hminus (Option.some.inj hhead)
  have hbody : readWhole (n.whole ++ (fractionText n.fraction ++ (exponent ++ rest))) =
      .ok (n.whole, fractionText n.fraction ++ (exponent ++ rest)) := hwhole
  obtain ⟨negative, whole, fraction, exp⟩ := n
  unfold readNumber
  cases negative with
  | false =>
    simp only [Bool.false_eq_true, if_false, List.nil_append, decide_eq_false (hsign _)]
    rw [hbody]
    show (readFraction _ >>= _) = _
    rw [hfraction]
    show (readExponent _ >>= _) = _
    rw [hread]
    rfl
  | true =>
    simp only [if_true, List.cons_append, List.nil_append, List.head?_cons, decide_true, List.tail_cons]
    rw [hbody]
    show (readFraction _ >>= _) = _
    rw [hfraction]
    show (readExponent _ >>= _) = _
    rw [hread]
    rfl

theorem readWhole_eq_ok {whole : List Char} (h : readWhole text = .ok (whole, rest)) :
    (whole = ['0'] ∨ Leading whole) ∧ text = whole ++ rest := by
  cases text with
  | nil => cases h
  | cons c text =>
    rw [readWhole] at h
    by_cases hzero : c = '0'
    · rw [if_pos hzero] at h
      cases h
      subst hzero
      exact ⟨.inl rfl, rfl⟩
    rw [if_neg hzero] at h
    by_cases hdigit : isDigit c = true
    · rw [if_pos hdigit] at h
      cases h
      refine ⟨.inr ⟨by simp, fun hhead => hzero (Option.some.inj hhead), ?_⟩, ?_⟩
      · exact List.forall_mem_cons.mpr ⟨hdigit, all_digits text⟩
      · rw [List.cons_append, List.takeWhile_append_dropWhile]
    · rw [if_neg hdigit] at h
      cases h

theorem readFraction_eq_ok {fraction : List Char} (h : readFraction text = .ok (fraction, rest)) :
    (∀ c ∈ fraction, isDigit c = true) ∧ text = fractionText fraction ++ rest := by
  unfold readFraction at h
  split at h
  next hpoint =>
    obtain ⟨more, rfl⟩ := List.head?_eq_some_iff.mp hpoint
    by_cases hne : ('.' :: more).tail.takeWhile isDigit = []
    · rw [if_pos hne] at h
      cases h
    · rw [if_neg hne] at h
      cases h
      refine ⟨all_digits more, ?_⟩
      show _ = (if ('.' :: more).tail.takeWhile isDigit = [] then [] else _) ++ _
      rw [if_neg hne]
      exact congrArg _ List.takeWhile_append_dropWhile.symm
  next =>
    cases h
    exact ⟨nofun, rfl⟩

theorem readSign_eq (text : List Char) :
    (text = '-' :: (readSign text).2 ∧ (readSign text).1 = true) ∨
      (text = '+' :: (readSign text).2 ∧ (readSign text).1 = false) ∨
      (text = (readSign text).2 ∧ (readSign text).1 = false) := by
  unfold readSign
  split
  next hminus =>
    obtain ⟨more, rfl⟩ := List.head?_eq_some_iff.mp hminus
    exact .inl ⟨rfl, rfl⟩
  next =>
    split
    next hplus =>
      obtain ⟨more, rfl⟩ := List.head?_eq_some_iff.mp hplus
      exact .inr (.inl ⟨rfl, rfl⟩)
    next => exact .inr (.inr ⟨rfl, rfl⟩)

theorem readExponent_eq_ok (h : readExponent text = .ok (exponent, rest)) :
    (∀ e ∈ exponent, e.2 ≠ [] ∧ ∀ c ∈ e.2, isDigit c = true) ∧
      ∃ written, Exponent exponent written ∧ text = written ++ rest := by
  unfold readExponent at h
  split at h
  next hletter =>
    have he : ∃ e more, text = e :: more ∧ (e = 'e' ∨ e = 'E') := by
      obtain hletter | hletter := hletter
      · obtain ⟨more, rfl⟩ := List.head?_eq_some_iff.mp hletter
        exact ⟨'e', more, rfl, .inl rfl⟩
      · obtain ⟨more, rfl⟩ := List.head?_eq_some_iff.mp hletter
        exact ⟨'E', more, rfl, .inr rfl⟩
    obtain ⟨e, more, rfl, he⟩ := he
    by_cases hne : (readSign (e :: more).tail).2.takeWhile isDigit = []
    · rw [if_pos hne] at h
      cases h
    · rw [if_neg hne] at h
      cases h
      have hjoin : (readSign more).2.takeWhile isDigit ++ (readSign more).2.dropWhile isDigit =
        (readSign more).2 := List.takeWhile_append_dropWhile
      refine ⟨?_, ?_⟩
      · intro e' he'
        obtain rfl := Option.some.inj he'
        exact ⟨hne, all_digits _⟩
      · rw [List.tail_cons]
        obtain ⟨hmore, hsign⟩ | ⟨hmore, hsign⟩ | ⟨hmore, hsign⟩ := readSign_eq more
        · rw [hsign]
          exact ⟨_, .minus he _, by rw [List.cons_append, List.cons_append, hjoin, ← hmore]⟩
        · rw [hsign]
          exact ⟨_, .plus he _, by rw [List.cons_append, List.cons_append, hjoin, ← hmore]⟩
        · rw [hsign]
          exact ⟨_, .bare he _, by rw [List.cons_append, hjoin, ← hmore]⟩
  next =>
    cases h
    exact ⟨nofun, [], .none, rfl⟩

theorem number_of_readNumber {n : Literal} (h : readNumber text = .ok (n, rest)) :
    Number text n rest := by
  unfold readNumber at h
  simp only [Guard.bind_eq_ok, Guard.pure_eq_ok] at h
  obtain ⟨⟨whole, behind⟩, hwhole, ⟨fraction, behind'⟩, hfraction, ⟨exponent, behind''⟩, hexponent, hn⟩ := h
  cases hn
  obtain ⟨hwell, htext⟩ := readWhole_eq_ok hwhole
  obtain ⟨hdigits, rfl⟩ := readFraction_eq_ok hfraction
  obtain ⟨hexp, written, hwritten, rfl⟩ := readExponent_eq_ok hexponent
  refine ⟨⟨hwell, hdigits, hexp⟩, written, hwritten, ?_⟩
  by_cases hminus : text.head? = some '-'
  · obtain ⟨more, rfl⟩ := List.head?_eq_some_iff.mp hminus
    simpa using htext
  · simpa [hminus] using htext

theorem length_of_number {n : Literal} (h : Number text n rest) : rest.length < text.length := by
  obtain ⟨hwell, exponent, -, rfl⟩ := h
  obtain ⟨c, more, hc, -⟩ := head_whole hwell.whole
  simp only [List.length_append, hc, List.length_cons]
  omega

end Apim.JsonReader
