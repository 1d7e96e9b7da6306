import Apim.Shared.Digits
import Apim.Shared.Hex
import Apim.Shared.XmlWriter

/-!
# References

The name of a reference is what stands between `&` and `;`. `decodeEntities` reads the digits of a numeric
one with `Number`, or with `parseInt` where they begin with an x (`shared/xml.ts:78-127`), and both read
more than digits.
-/

namespace Apim.Xml
open Guard
open Routing (isSpace trim)
open JsNumber (isDigit digitsValue)

/-! ### Codes as they are read -/

def isHexDigit (c : Char) : Bool := (Hex.hexDigit c).isSome

def hexDigitsValue (digits : Text) : Nat :=
  digits.foldl (fun n c => 16 * n + (Hex.hexDigit c).getD 0) 0

def withoutHexMark : Text → Text
  | '0' :: 'x' :: rest => rest
  | '0' :: 'X' :: rest => rest
  | rest => rest

/-- `parseInt(text, 16)`: white space and a sign may come before the digits, and anything behind them. -/
def parseHex (text : Text) : Option Int :=
  let bare := text.dropWhile isSpace
  let negative := decide (bare.head? = some '-')
  let unsigned := if negative ∨ bare.head? = some '+' then bare.tail else bare
  let digits := (withoutHexMark unsigned).takeWhile isHexDigit
  if digits = [] then none
  else some (if negative then -(hexDigitsValue digits : Int) else hexDigitsValue digits)

def wholeNumber (text : Text) : Option Int :=
  match JsNumber.toNumber text with
  | some (.finite q) => if q.den = 1 then some q.num else none
  | _ => none

def jsCharCode : Text → Option Int
  | 'x' :: hex => parseHex hex
  | 'X' :: hex => parseHex hex
  | digits => wholeNumber digits

example : jsCharCode "1e1".toList = some 10 ∧ jsCharCode "x 41zz".toList = some 65 ∧
    jsCharCode "0x41".toList = some 65 ∧ jsCharCode "".toList = some 0 ∧ jsCharCode "x".toList = none := by
  decide +kernel

/-! ### References as they are written -/

def IsXmlChar (code : Nat) : Prop :=
  code = 0x9 ∨ code = 0xa ∨ code = 0xd ∨ (0x20 ≤ code ∧ code ≤ 0xd7ff) ∨ (0xe000 ≤ code ∧ code ≤ 0xfffd)

inductive StandsFor : Text → Char → Prop
  | amp : StandsFor ['a', 'm', 'p'] '&'
  | lt : StandsFor ['l', 't'] '<'
  | gt : StandsFor ['g', 't'] '>'
  | quot : StandsFor ['q', 'u', 'o', 't'] '"'
  | apos : StandsFor ['a', 'p', 'o', 's'] '\''
  | decimal {digits : Text} (hne : digits ≠ []) (hdigits : ∀ c ∈ digits, isDigit c = true)
    (hchar : IsXmlChar (digitsValue digits)) : StandsFor ('#' :: digits) (charOf (digitsValue digits))
  | hex {digits : Text} (hne : digits ≠ []) (hdigits : ∀ c ∈ digits, isHexDigit c = true)
    (hchar : IsXmlChar (hexDigitsValue digits)) :
    StandsFor ('#' :: 'x' :: digits) (charOf (hexDigitsValue digits))

/-- Every `&` starts a reference. -/
def EveryReference (raw : Text) : Prop :=
  ∀ before behind, raw = before ++ '&' :: behind →
    ∃ name rest c, behind = name ++ ';' :: rest ∧ StandsFor name c

inductive Replaced : Text → Text → Prop
  | nil : Replaced [] []
  | char {c : Char} {rest out : Text} (hc : c ≠ '&') (h : Replaced rest out) :
    Replaced (c :: rest) (c :: out)
  | reference {name rest out : Text} {c : Char} (hname : StandsFor name c) (h : Replaced rest out) :
    Replaced ('&' :: (name ++ ';' :: rest)) (c :: out)

structure Decodes (raw : Text) : Prop where
  accepted : (∃ out, decodeEntities jsCharCode raw = .ok out) ↔ EveryReference raw
  replaced : ∀ out, decodeEntities jsCharCode raw = .ok out → Replaced raw out
  escaped : decodeEntities jsCharCode (escapeXml raw) = .ok raw

/-! ### Names -/

def namesFrom : Option Text → Text → Option (List Text)
  | none, [] => some []
  | some _, [] => none
  | none, c :: rest => if c = '&' then namesFrom (some []) rest else namesFrom none rest
  | some name, c :: rest =>
    if c = ';' then (namesFrom none rest).map (name.reverse :: ·) else namesFrom (some (c :: name)) rest

def referenceNames (raw : Text) : Option (List Text) := namesFrom none raw

/-- A name with a code in range that is not written in digits, or is of no character. -/
def Loose (name : Text) : Prop :=
  (∃ digits code, name = '#' :: digits ∧ jsCharCode digits = some code ∧ 0 < code ∧ code ≤ 0xffff) ∧
    ∀ c, ¬StandsFor name c

def Refused (name : Text) : Prop := (∀ c, ¬StandsFor name c) ∧ ¬Loose name

variable {c : Char}

theorem ne_of_isHexDigit (h : isHexDigit c = true) : c ≠ '&' ∧ c ≠ ';' := by
  constructor
  · rintro rfl
    exact absurd h (by decide)
  · rintro rfl
    exact absurd h (by decide)

theorem ne_of_isDigit (h : isDigit c = true) : c ≠ '&' ∧ c ≠ ';' := by
  constructor
  · rintro rfl
    exact absurd h (by decide)
  · rintro rfl
    exact absurd h (by decide)

variable {name : Text}

theorem marks_notMem (h : StandsFor name c) : '&' ∉ name ∧ ';' ∉ name := by
  cases h with
  | amp => decide
  | lt => decide
  | gt => decide
  | quot => decide
  | apos => decide
  | @decimal digits hne hdigits hchar =>
    constructor
    · intro hmem
      obtain heq | hmem := List.mem_cons.mp hmem
      · exact absurd heq (by decide)
      · exact (ne_of_isDigit (hdigits _ hmem)).1 rfl
    · intro hmem
      obtain heq | hmem := List.mem_cons.mp hmem
      · exact absurd heq (by decide)
      · exact (ne_of_isDigit (hdigits _ hmem)).2 rfl
  | @hex digits hne hdigits hchar =>
    constructor
    · intro hmem
      obtain heq | hmem := List.mem_cons.mp hmem
      · exact absurd heq (by decide)
      · obtain heq | hmem := List.mem_cons.mp hmem
        · exact absurd heq (by decide)
        · exact (ne_of_isHexDigit (hdigits _ hmem)).1 rfl
    · intro hmem
      obtain heq | hmem := List.mem_cons.mp hmem
      · exact absurd heq (by decide)
      · obtain heq | hmem := List.mem_cons.mp hmem
        · exact absurd heq (by decide)
        · exact (ne_of_isHexDigit (hdigits _ hmem)).2 rfl

/-! ### What is read of a written code -/

theorem not_space_of_isHexDigit (h : isHexDigit c = true) : isSpace c = false := by
  obtain ⟨n, hn⟩ := Option.isSome_iff_exists.mp h
  have hbounds := Hex.toNat_hexDigit hn
  simp [isSpace]
  omega

variable {digits : Text}

theorem toNumber_digits (hne : digits ≠ []) (h : ∀ c ∈ digits, isDigit c = true)
    (hpos : 0 < digitsValue digits) (hlt : digitsValue digits < 2 ^ 53) :
    JsNumber.toNumber digits = some (.finite (digitsValue digits)) := by
  rw [JsNumber.toNumber_row ⟨hne, h⟩, JsNumber.ofRat_natCast hpos hlt]

theorem wholeNumber_digits (hne : digits ≠ []) (h : ∀ c ∈ digits, isDigit c = true)
    (hpos : 0 < digitsValue digits) (hlt : digitsValue digits < 2 ^ 53) :
    wholeNumber digits = some (digitsValue digits : Int) := by
  unfold wholeNumber
  rw [toNumber_digits hne h hpos hlt]
  simp

theorem jsCharCode_digits (hne : digits ≠ []) (h : ∀ c ∈ digits, isDigit c = true)
    (hpos : 0 < digitsValue digits) (hlt : digitsValue digits < 2 ^ 53) :
    jsCharCode digits = some (digitsValue digits : Int) := by
  have hwhole := wholeNumber_digits hne h hpos hlt
  unfold jsCharCode
  split
  · exact absurd (h 'x' List.mem_cons_self) (by decide)
  · exact absurd (h 'X' List.mem_cons_self) (by decide)
  · exact hwhole

theorem jsCharCode_hex (hne : digits ≠ []) (h : ∀ c ∈ digits, isHexDigit c = true) :
    jsCharCode ('x' :: digits) = some (hexDigitsValue digits : Int) := by
  show parseHex digits = _
  have hbare : digits.dropWhile isSpace = digits := by
    refine Routing.dropWhile_of_head fun c hc => ?_
    exact not_space_of_isHexDigit (h c (List.mem_of_mem_head? hc))
  have hminus : digits.head? ≠ some '-' := by
    intro heq
    exact absurd (h '-' (List.mem_of_mem_head? heq)) (by decide)
  have hplus : digits.head? ≠ some '+' := by
    intro heq
    exact absurd (h '+' (List.mem_of_mem_head? heq)) (by decide)
  have htake : digits.takeWhile isHexDigit = digits := List.takeWhile_eq_self_iff.mpr h
  have hkept : withoutHexMark digits = digits := by
    unfold withoutHexMark
    split
    · exact absurd (h 'x' (List.mem_cons_of_mem _ List.mem_cons_self)) (by decide)
    · exact absurd (h 'X' (List.mem_cons_of_mem _ List.mem_cons_self)) (by decide)
    · rfl
  unfold parseHex
  simp only [hbare, decide_eq_false hminus, hplus, Bool.false_eq_true, or_self, if_false, hkept, htake,
    if_neg hne]

theorem bounds_of_isXmlChar {code : Nat} (h : IsXmlChar code) : 0 < code ∧ code ≤ 0xffff := by
  unfold IsXmlChar at h
  omega

theorem reference_hash {code : Nat} (hcode : jsCharCode digits = some (code : Int))
    (hpos : 0 < code) (hle : code ≤ 0xffff) :
    reference jsCharCode ('#' :: digits) = .ok (charOf code) := by
  have hword : ∀ {word : String}, word.toList.head? ≠ some '#' → String.ofList ('#' :: digits) ≠ word := by
    rintro word hhead rfl
    rw [String.toList_ofList] at hhead
    exact hhead rfl
  unfold reference
  split
  · exact absurd ‹_› (hword (by decide))
  · exact absurd ‹_› (hword (by decide))
  · exact absurd ‹_› (hword (by decide))
  · exact absurd ‹_› (hword (by decide))
  · exact absurd ‹_› (hword (by decide))
  · simp only [hcode]
    rw [if_neg (by omega), Int.toNat_natCast]

theorem reference_stands (h : StandsFor name c) : reference jsCharCode name = .ok c := by
  cases h with
  | amp => rfl
  | lt => rfl
  | gt => rfl
  | quot => rfl
  | apos => rfl
  | @decimal digits hne hdigits hchar =>
    obtain ⟨hpos, hle⟩ := bounds_of_isXmlChar hchar
    exact reference_hash (jsCharCode_digits hne hdigits hpos (by omega)) hpos hle
  | @hex digits hne hdigits hchar =>
    obtain ⟨hpos, hle⟩ := bounds_of_isXmlChar hchar
    exact reference_hash (jsCharCode_hex hne hdigits) hpos hle

theorem stands_of_reference (h : reference jsCharCode name = .ok c) (hloose : ¬Loose name) :
    StandsFor name c := by
  have hword : ∀ {word : String} {letters : Text}, String.ofList name = word → word.toList = letters →
      name = letters := by
    rintro word letters rfl hletters
    rw [← hletters, String.toList_ofList]
  have hkept : ∀ c', StandsFor name c' → StandsFor name c := by
    intro c' hstands
    have hsame := reference_stands hstands
    rw [h] at hsame
    cases hsame
    exact hstands
  unfold reference at h
  split at h
  · rw [hword ‹_› rfl] at hkept ⊢
    exact hkept _ .amp
  · rw [hword ‹_› rfl] at hkept ⊢
    exact hkept _ .lt
  · rw [hword ‹_› rfl] at hkept ⊢
    exact hkept _ .gt
  · rw [hword ‹_› rfl] at hkept ⊢
    exact hkept _ .quot
  · rw [hword ‹_› rfl] at hkept ⊢
    exact hkept _ .apos
  split at h
  case h_2 => cases h
  next digits _ _ _ _ _ =>
  split at h
  case h_2 => cases h
  next code hcode =>
  split at h
  · cases h
  next hrange =>
  by_contra hnot
  refine hloose ⟨⟨digits, code, rfl, hcode, by omega, by omega⟩, fun c' hstands => ?_⟩
  exact hnot (hkept c' hstands)

/-! ### Decoding -/

variable {raw : Text} {state : Option Text}

section
variable {charCode : Text → Option Int}

theorem decodeFrom_name (h : ';' ∉ name) (acc rest : Text) :
    decodeFrom charCode (some acc) (name ++ ';' :: rest) = (do
      let char ← reference charCode (acc.reverse ++ name)
      let decoded ← decodeFrom charCode none rest
      return char :: decoded) := by
  induction name generalizing acc with
  | nil => rw [List.nil_append, decodeFrom, if_pos rfl, List.append_nil]
  | cons c name ih =>
    have hc : c ≠ ';' := fun heq => h (by rw [heq]; exact List.mem_cons_self)
    have hname : ';' ∉ name := fun hmem => h (List.mem_cons_of_mem _ hmem)
    rw [List.cons_append, decodeFrom, if_neg hc, ih hname, List.reverse_cons, List.append_assoc]
    rfl

theorem decodeFrom_reference (h : ';' ∉ name) (hname : reference charCode name = .ok c)
    {rest out : Text} (hrest : decodeFrom charCode none rest = .ok out) :
    decodeFrom charCode none ('&' :: (name ++ ';' :: rest)) = .ok (c :: out) := by
  rw [decodeFrom, if_pos rfl, decodeFrom_name h, List.reverse_nil, List.nil_append, hname, hrest]
  rfl

attribute [local simp] namesFrom

theorem names_of_decodeFrom {out : Text} (h : decodeFrom charCode state raw = .ok out) :
    ∃ names, namesFrom state raw = some names ∧ ∀ name ∈ names, ∃ c, reference charCode name = .ok c := by
  induction raw generalizing state out with
  | nil =>
    cases state with
    | none => exact ⟨[], rfl, nofun⟩
    | some acc => cases h
  | cons c rest ih =>
    cases state with
    | none =>
      rw [decodeFrom] at h
      rw [namesFrom]
      split at h
      next hc =>
        rw [if_pos hc]
        exact ih h
      next hc =>
        rw [if_neg hc]
        rw [bind_eq_ok] at h
        obtain ⟨decoded, hrest, -⟩ := h
        exact ih hrest
    | some acc =>
      rw [decodeFrom] at h
      rw [namesFrom]
      split at h
      next hc =>
        simp only [bind_eq_ok] at h
        obtain ⟨char, hchar, decoded, hrest, -⟩ := h
        obtain ⟨names, hnames, hall⟩ := ih hrest
        refine ⟨acc.reverse :: names, ?_, List.forall_mem_cons.mpr ⟨⟨char, hchar⟩, hall⟩⟩
        rw [if_pos hc, hnames]
        rfl
      next hc =>
        rw [if_neg hc]
        exact ih h

theorem decodeFrom_of_names {names : List Text} (hnames : namesFrom state raw = some names)
    (hall : ∀ name ∈ names, ∃ c, reference charCode name = .ok c) :
    ∃ out, decodeFrom charCode state raw = .ok out := by
  induction raw generalizing state names with
  | nil =>
    cases state with
    | none => exact ⟨[], rfl⟩
    | some acc => cases hnames
  | cons c rest ih =>
    cases state with
    | none =>
      rw [namesFrom] at hnames
      rw [decodeFrom]
      split at hnames
      next hc =>
        rw [if_pos hc]
        exact ih hnames hall
      next hc =>
        obtain ⟨out, hout⟩ := ih hnames hall
        rw [if_neg hc, hout]
        exact ⟨_, rfl⟩
    | some acc =>
      rw [namesFrom] at hnames
      rw [decodeFrom]
      split at hnames
      next hc =>
        obtain ⟨others, hothers, rfl⟩ := Option.map_eq_some_iff.mp hnames
        obtain ⟨⟨char, hchar⟩, hall⟩ := List.forall_mem_cons.mp hall
        obtain ⟨out, hout⟩ := ih hothers hall
        rw [if_pos hc, hchar, hout]
        exact ⟨_, rfl⟩
      next hc =>
        rw [if_neg hc]
        exact ih hnames hall

end

theorem namesFrom_name (h : ';' ∉ name) (acc rest : Text) :
    namesFrom (some acc) (name ++ ';' :: rest) =
      (namesFrom none rest).map ((acc.reverse ++ name) :: ·) := by
  induction name generalizing acc with
  | nil => rw [List.nil_append, namesFrom, if_pos rfl, List.append_nil]
  | cons c name ih =>
    have hc : c ≠ ';' := fun heq => h (by rw [heq]; exact List.mem_cons_self)
    have hname : ';' ∉ name := fun hmem => h (List.mem_cons_of_mem _ hmem)
    rw [List.cons_append, namesFrom, if_neg hc, ih hname, List.reverse_cons, List.append_assoc]
    rfl

namespace Replaced

theorem decode {out : Text} (h : Replaced raw out) : decodeEntities jsCharCode raw = .ok out := by
  unfold decodeEntities
  induction h with
  | nil => rfl
  | char hc _ ih =>
    rw [decodeFrom, if_neg hc, ih]
    rfl
  | reference hname _ ih => exact decodeFrom_reference (marks_notMem hname).2 (reference_stands hname) ih

theorem names {raw out : Text} (h : Replaced raw out) :
    ∃ names, referenceNames raw = some names ∧ ∀ name ∈ names, ∃ c, StandsFor name c := by
  unfold referenceNames
  induction h with
  | nil => exact ⟨[], rfl, nofun⟩
  | char hc _ ih =>
    rw [namesFrom, if_neg hc]
    exact ih
  | @reference name rest out c hname _ ih =>
    obtain ⟨names, hnames, hall⟩ := ih
    refine ⟨name :: names, ?_, List.forall_mem_cons.mpr ⟨⟨c, hname⟩, hall⟩⟩
    rw [namesFrom, if_pos rfl, namesFrom_name (marks_notMem hname).2, hnames]
    rfl

theorem everyReference {out : Text} (h : Replaced raw out) : EveryReference raw := by
  induction h with
  | nil =>
    intro before behind heq
    cases before <;> cases heq
  | char hc _ ih =>
    intro before behind heq
    cases before with
    | nil =>
      cases heq
      exact absurd rfl hc
    | cons d before =>
      exact ih before behind (List.cons.inj heq).2
  | @reference name rest out c hname _ ih =>
    intro before behind heq
    cases before with
    | nil =>
      obtain ⟨-, rfl⟩ := List.cons.inj heq
      exact ⟨name, rest, c, rfl, hname⟩
    | cons d before =>
      obtain ⟨-, htail⟩ := List.cons.inj heq
      have hnone : '&' ∉ name ++ [';'] := by
        intro hmem
        obtain hmem | hmem := List.mem_append.mp hmem
        · exact (marks_notMem hname).1 hmem
        · exact absurd (List.mem_singleton.mp hmem) (by decide)
      have hsplit : (name ++ [';']) ++ rest = before ++ '&' :: behind := by
        rw [List.append_assoc]
        exact htail
      obtain ⟨between, hbetween, hrest⟩ | ⟨between, hfront, hbehind⟩ := List.append_eq_append_iff.mp hsplit
      · exact ih between behind hrest
      · cases between with
        | nil => exact ih [] behind hbehind.symm
        | cons e between =>
          obtain ⟨rfl, -⟩ := List.cons.inj hbehind
          refine absurd ?_ hnone
          rw [hfront]
          exact List.mem_append_right _ List.mem_cons_self

end Replaced

theorem replaced_of_everyReference (h : EveryReference raw) : ∃ out, Replaced raw out := by
  induction hlength : raw.length using Nat.strongRecOn generalizing raw with
  | _ n ih =>
    have hsuffix : ∀ {front rest : Text}, raw = front ++ rest → EveryReference rest := by
      intro front rest heq before behind hrest
      refine h (front ++ before) behind ?_
      rw [heq, hrest, List.append_assoc]
    cases raw with
    | nil => exact ⟨[], .nil⟩
    | cons c rest =>
      rw [List.length_cons] at hlength
      by_cases hc : c = '&'
      · subst hc
        obtain ⟨name, behind, char, rfl, hname⟩ := h [] rest rfl
        have hrest : EveryReference behind := by
          refine @hsuffix ('&' :: (name ++ [';'])) behind ?_
          simp
        rw [List.length_append, List.length_cons] at hlength
        obtain ⟨out, hout⟩ := ih behind.length (by omega) hrest rfl
        exact ⟨char :: out, .reference hname hout⟩
      · have hrest : EveryReference rest := @hsuffix [c] rest rfl
        obtain ⟨out, hout⟩ := ih rest.length (by omega) hrest rfl
        exact ⟨c :: out, .char hc hout⟩

theorem replaced_of_decodeFrom {out : Text} (h : decodeFrom jsCharCode state raw = .ok out)
    {names : List Text} (hnames : namesFrom state raw = some names)
    (hloose : ∀ name ∈ names, ¬Loose name) :
    match state with
    | none => Replaced raw out
    | some acc => ∃ name rest c rest', raw = name ++ ';' :: rest ∧ out = c :: rest' ∧
        StandsFor (acc.reverse ++ name) c ∧ Replaced rest rest' := by
  induction raw generalizing state out names with
  | nil =>
    cases state with
    | none =>
      cases h
      exact .nil
    | some acc => cases h
  | cons c rest ih =>
    cases state with
    | none =>
      rw [decodeFrom] at h
      rw [namesFrom] at hnames
      split at h
      next hc =>
        rw [if_pos hc] at hnames
        subst hc
        obtain ⟨name, behind, char, rest', rfl, rfl, hname, hrest⟩ := ih h hnames hloose
        exact .reference hname hrest
      next hc =>
        rw [if_neg hc] at hnames
        simp only [bind_eq_ok, pure_eq_ok] at h
        obtain ⟨decoded, hrest, rfl⟩ := h
        exact .char hc (ih hrest hnames hloose)
    | some acc =>
      rw [decodeFrom] at h
      rw [namesFrom] at hnames
      split at h
      next hc =>
        rw [if_pos hc] at hnames
        obtain ⟨others, hothers, rfl⟩ := Option.map_eq_some_iff.mp hnames
        obtain ⟨hnot, hloose⟩ := List.forall_mem_cons.mp hloose
        simp only [bind_eq_ok, pure_eq_ok] at h
        obtain ⟨char, hchar, decoded, hrest, rfl⟩ := h
        refine ⟨[], rest, char, decoded, by rw [hc]; rfl, rfl, ?_, ih hrest hothers hloose⟩
        rw [List.append_nil]
        exact stands_of_reference hchar hnot
      next hc =>
        rw [if_neg hc] at hnames
        obtain ⟨name, behind, char, rest', rfl, rfl, hname, hrest⟩ := ih h hnames hloose
        refine ⟨c :: name, behind, char, rest', rfl, rfl, ?_, hrest⟩
        rw [List.reverse_cons, List.append_assoc] at hname
        exact hname

theorem references_decoded (raw : Text) :
    Decodes raw ↔ ∀ names, referenceNames raw = some names → (∃ name ∈ names, Loose name) →
      ∃ name ∈ names, Refused name := by
  constructor
  · rintro h names hnames ⟨name, hname, hloose⟩
    by_contra hrefused
    have hread : ∀ name ∈ names, ∃ c, reference jsCharCode name = .ok c := by
      intro name hname
      by_cases hstands : ∃ c, StandsFor name c
      · obtain ⟨c, hc⟩ := hstands
        exact ⟨c, reference_stands hc⟩
      · have hloose : Loose name := by
          by_contra hnot
          exact hrefused ⟨name, hname, fun c hc => hstands ⟨c, hc⟩, hnot⟩
        obtain ⟨⟨digits, code, rfl, hcode, hpos, hle⟩, -⟩ := hloose
        obtain ⟨n, rfl⟩ := Int.eq_ofNat_of_zero_le (le_of_lt hpos)
        exact ⟨charOf n, reference_hash hcode (by omega) (by omega)⟩
    obtain ⟨out, hout⟩ := decodeFrom_of_names hnames hread
    obtain ⟨others, hothers, hall⟩ := (h.replaced out hout).names
    rw [hnames] at hothers
    cases hothers
    obtain ⟨c, hc⟩ := hall name hname
    exact hloose.2 c hc
  · intro h
    have hreplaced : ∀ out, decodeEntities jsCharCode raw = .ok out → Replaced raw out := by
      intro out hout
      obtain ⟨names, hnames, hread⟩ := names_of_decodeFrom hout
      refine replaced_of_decodeFrom hout hnames fun name hname hloose => ?_
      obtain ⟨other, hother, hnone, hnot⟩ := h names hnames ⟨name, hname, hloose⟩
      obtain ⟨c, hc⟩ := hread other hother
      exact hnone c (stands_of_reference hc hnot)
    refine ⟨⟨fun ⟨out, hout⟩ => (hreplaced out hout).everyReference, fun hevery => ?_⟩, hreplaced,
      decodeEntities_escapeXml jsCharCode raw⟩
    obtain ⟨out, hout⟩ := replaced_of_everyReference hevery
    exact ⟨out, hout.decode⟩

theorem exponent_accepted : ¬Decodes "&#1e1;".toList := by
  intro h
  have hdecoded : decodeEntities jsCharCode "&#1e1;".toList = .ok ['\n'] := by decide +kernel
  obtain ⟨names, hnames, hall⟩ := (h.replaced _ hdecoded).names
  have hread : referenceNames "&#1e1;".toList = some [['#', '1', 'e', '1']] := by decide
  rw [hread] at hnames
  cases hnames
  obtain ⟨c, hstands⟩ := hall _ List.mem_cons_self
  cases hstands with
  | decimal hne hdigits hchar => exact absurd (hdigits 'e' (by decide)) (by decide)

end Apim.Xml
