import Apim.Lib.Guard
import Apim.Shared.Xml

/-!
# Writing XML

Escaped text and tags as `data-plane/src/pipeline.ts:2308-2337` writes them, and what the scan makes of
each: the lemmas go from the characters of a value to one turn of the scan.
-/

namespace Apim.Xml
open Routing (isSpace trim utf16Length)

def escapeChar (c : Char) : Text :=
  if c = '&' then ['&', 'a', 'm', 'p', ';']
  else if c = '<' then ['&', 'l', 't', ';']
  else if c = '>' then ['&', 'g', 't', ';']
  else if c = '"' then ['&', 'q', 'u', 'o', 't', ';']
  else [c]

/-- `escapeXml`: the ampersand is replaced first, so each character is replaced once. -/
def escapeXml (value : Text) : Text := value.flatMap escapeChar

def attributeText (a : RawAttribute) : Text :=
  ' ' :: (a.name ++ '=' :: '"' :: (escapeXml a.value ++ ['"']))

def attributesText (attributes : List RawAttribute) : Text := attributes.flatMap attributeText

/-! ### Values -/

theorem escapeChar_cases (c : Char) :
    (c = '&' ∧ escapeChar c = ['&', 'a', 'm', 'p', ';']) ∨
    (c = '<' ∧ escapeChar c = ['&', 'l', 't', ';']) ∨
    (c = '>' ∧ escapeChar c = ['&', 'g', 't', ';']) ∨
    (c = '"' ∧ escapeChar c = ['&', 'q', 'u', 'o', 't', ';']) ∨
    (c ≠ '&' ∧ c ≠ '<' ∧ c ≠ '>' ∧ c ≠ '"' ∧ escapeChar c = [c]) := by
  unfold escapeChar
  by_cases hamp : c = '&'
  · simp [hamp]
  by_cases hlt : c = '<'
  · simp [hlt]
  by_cases hgt : c = '>'
  · simp [hgt]
  by_cases hquot : c = '"'
  · simp [hquot]
  simp [hamp, hlt, hgt, hquot]

theorem escapeXml_cons (c : Char) (value : Text) :
    escapeXml (c :: value) = escapeChar c ++ escapeXml value := rfl

theorem lt_notMem_escapeXml (value : Text) : '<' ∉ escapeXml value := by
  intro h
  obtain ⟨c, -, hc⟩ := List.mem_flatMap.mp h
  obtain ⟨-, heq⟩ | ⟨-, heq⟩ | ⟨-, heq⟩ | ⟨-, heq⟩ | ⟨-, hlt, -, -, heq⟩ := escapeChar_cases c
  all_goals rw [heq] at hc
  · simp at hc
  · simp at hc
  · simp at hc
  · simp at hc
  · exact hlt (List.mem_singleton.mp hc).symm

theorem quot_notMem_escapeXml (value : Text) : '"' ∉ escapeXml value := by
  intro h
  obtain ⟨c, -, hc⟩ := List.mem_flatMap.mp h
  obtain ⟨-, heq⟩ | ⟨-, heq⟩ | ⟨-, heq⟩ | ⟨-, heq⟩ | ⟨-, -, -, hquot, heq⟩ := escapeChar_cases c
  all_goals rw [heq] at hc
  · simp at hc
  · simp at hc
  · simp at hc
  · simp at hc
  · exact hquot (List.mem_singleton.mp hc).symm

theorem all_isSpace_escapeXml (value : Text) : (escapeXml value).all isSpace = value.all isSpace := by
  induction value with
  | nil => rfl
  | cons c value ih =>
    rw [escapeXml_cons, List.all_append, ih, List.all_cons]
    have hchar : (escapeChar c).all isSpace = isSpace c := by
      obtain ⟨hc, heq⟩ | ⟨hc, heq⟩ | ⟨hc, heq⟩ | ⟨hc, heq⟩ | ⟨-, -, -, -, heq⟩ := escapeChar_cases c
      · rw [heq, hc]
        decide
      · rw [heq, hc]
        decide
      · rw [heq, hc]
        decide
      · rw [heq, hc]
        decide
      · rw [heq]
        simp
    rw [hchar]

variable {c : Char}

section
variable (charCode : Text → Option Int)

theorem decodeFrom_plain (hc : c ≠ '&') (rest : Text) :
    decodeFrom charCode none (c :: rest) = (decodeFrom charCode none rest).map (c :: ·) := by
  rw [decodeFrom, if_neg hc]
  cases decodeFrom charCode none rest <;> rfl

theorem decodeFrom_escapeChar (c : Char) (rest : Text) :
    decodeFrom charCode none (escapeChar c ++ rest) = (decodeFrom charCode none rest).map (c :: ·) := by
  obtain ⟨hc, heq⟩ | ⟨hc, heq⟩ | ⟨hc, heq⟩ | ⟨hc, heq⟩ | ⟨hamp, -, -, -, heq⟩ := escapeChar_cases c
  · subst hc
    rw [heq]
    cases hrest : decodeFrom charCode none rest <;> simp [decodeFrom, hrest, reference] <;> rfl
  · subst hc
    rw [heq]
    cases hrest : decodeFrom charCode none rest <;> simp [decodeFrom, hrest, reference] <;> rfl
  · subst hc
    rw [heq]
    cases hrest : decodeFrom charCode none rest <;> simp [decodeFrom, hrest, reference] <;> rfl
  · subst hc
    rw [heq]
    cases hrest : decodeFrom charCode none rest <;> simp [decodeFrom, hrest, reference] <;> rfl
  · rw [heq]
    exact decodeFrom_plain charCode hamp rest

theorem decodeEntities_escapeXml (value : Text) :
    decodeEntities charCode (escapeXml value) = .ok value := by
  unfold decodeEntities
  induction value with
  | nil => rfl
  | cons c value ih =>
    rw [escapeXml_cons, decodeFrom_escapeChar, ih]
    rfl

end

/-! ### Tags -/

theorem cut_single {before : Text} (h : c ∉ before) (rest : Text) :
    cut [c] (before ++ c :: rest) = some (before, rest) := by
  induction before with
  | nil => simp [cut, List.isPrefixOf?]
  | cons d before ih =>
    have hd : c ≠ d := fun heq => h (heq ▸ List.mem_cons_self)
    have hrest := ih fun hmem => h (List.mem_cons_of_mem _ hmem)
    rw [List.cons_append, cut]
    simp [List.isPrefixOf?, hd, hrest]

theorem cut_none {input : Text} (h : c ∉ input) : cut [c] input = none := by
  induction input with
  | nil => rfl
  | cons d input ih =>
    have hd : c ≠ d := fun heq => h (heq ▸ List.mem_cons_self)
    have hrest := ih fun hmem => h (List.mem_cons_of_mem _ hmem)
    rw [cut]
    simp [List.isPrefixOf?, hd, hrest]

theorem cut_length {input before behind : Text} (h : cut [c] input = some (before, behind)) :
    input = before ++ c :: behind ∧ c ∉ before := by
  induction input generalizing before with
  | nil => simp [cut] at h
  | cons d input ih =>
    rw [cut] at h
    by_cases hd : c = d
    · subst hd
      simp [List.isPrefixOf?] at h
      obtain ⟨rfl, rfl⟩ := h
      simp
    · simp [List.isPrefixOf?, hd] at h
      obtain ⟨front, hcut, hbefore⟩ := h
      obtain ⟨heq, hnot⟩ := ih hcut
      subst hbefore
      rw [heq]
      exact ⟨rfl, by simp [hd, hnot]⟩

theorem span_append {p : Char → Bool} {name : Text} (hname : ∀ c ∈ name, p c = true) {c : Char}
    (hc : p c = false) (rest : Text) : span p (name ++ c :: rest) = (name, c :: rest) := by
  unfold span
  rw [List.takeWhile_append_of_pos hname, List.dropWhile_append_of_pos hname,
    List.takeWhile_cons_of_neg (by simp [hc]), List.dropWhile_cons_of_neg (by simp [hc]),
    List.append_nil]

def NameChars (name : Text) : Prop := ∀ c ∈ name, nameChar c = true

theorem toNat_of_nameChar (h : nameChar c = true) : 0x2d ≤ c.toNat ∧ c.toNat < 0x80 := by
  have hrange : ∀ {low high : Char}, low.val ≤ c.val → c.val ≤ high.val →
      low.toNat ≤ c.toNat ∧ c.toNat ≤ high.toNat := fun hlow hhigh =>
    ⟨UInt32.le_iff_toNat_le.mp hlow, UInt32.le_iff_toNat_le.mp hhigh⟩
  have hbounds : 'A'.toNat = 65 ∧ 'Z'.toNat = 90 ∧ 'a'.toNat = 97 ∧ 'z'.toNat = 122 ∧
      '0'.toNat = 48 ∧ '9'.toNat = 57 := by decide
  delta nameChar Char.isAlphanum Char.isAlpha Char.isUpper Char.isLower Char.isDigit at h
  simp only [Bool.or_eq_true, Bool.and_eq_true, decide_eq_true_eq, beq_iff_eq] at h
  obtain (((((hupper | hlower) | hdigit) | hdot) | hunder) | hcolon) | hminus := h
  · have := hrange hupper.1 hupper.2
    omega
  · have := hrange hlower.1 hlower.2
    omega
  · have := hrange hdigit.1 hdigit.2
    omega
  · subst hdot
    decide
  · subst hunder
    decide
  · subst hcolon
    decide
  · subst hminus
    decide

theorem isSpace_of_nameChar (h : nameChar c = true) : isSpace c = false := by
  have hbounds := toNat_of_nameChar h
  simp [isSpace]
  omega

variable {name : Text} {attributes : List RawAttribute}

section
variable (charCode : Text → Option Int)

theorem readAttribute_written {a : RawAttribute} (hname : NameChars a.name) (hne : a.name ≠ [])
    (rest : Text) :
    readAttribute charCode (a.name ++ '=' :: '"' :: (escapeXml a.value ++ '"' :: rest)) =
      .ok (some (a, rest)) := by
  unfold readAttribute
  rw [span_append hname (by decide)]
  simp only [if_neg hne]
  have hsign : ('=' :: '"' :: (escapeXml a.value ++ '"' :: rest)).dropWhile isSpace =
      '=' :: '"' :: (escapeXml a.value ++ '"' :: rest) :=
    List.dropWhile_cons_of_neg (by decide)
  have hquote : ('"' :: (escapeXml a.value ++ '"' :: rest)).dropWhile isSpace =
      '"' :: (escapeXml a.value ++ '"' :: rest) :=
    List.dropWhile_cons_of_neg (by decide)
  rw [hsign]
  simp only [hquote, true_or, if_true]
  rw [cut_single (quot_notMem_escapeXml a.value)]
  simp only [decodeEntities_escapeXml]
  rfl

theorem dropWhile_isSpace_name (hname : NameChars name) (hne : name ≠ []) (rest : Text) :
    (name ++ rest).dropWhile isSpace = name ++ rest := by
  cases name with
  | nil => exact absurd rfl hne
  | cons c name =>
    have hc := isSpace_of_nameChar (hname c List.mem_cons_self)
    exact List.dropWhile_cons_of_neg (by simp [hc])

theorem readAttributes_name {input rest : Text} (turns : Nat)
    (hinput : input.dropWhile isSpace = c :: rest) (hgt : c ≠ '>') (hslash : c ≠ '/') :
    readAttributes charCode (turns + 1) input =
      match readAttribute charCode (c :: rest) with
      | .error message => .fails message
      | .ok none => .unfinished
      | .ok (some (a, rest)) => (readAttributes charCode turns rest).cons a := by
  rw [readAttributes, hinput]
  split
  · cases ‹_ = _›
  · cases ‹_ = _›
    exact absurd rfl hgt
  · cases ‹_ = _›
    exact absurd rfl hslash
  · rfl

theorem readAttributes_written {a : RawAttribute} (hname : NameChars a.name) (hne : a.name ≠ [])
    (turns : Nat) (rest : Text) :
    readAttributes charCode (turns + 1) (attributeText a ++ rest) =
      (readAttributes charCode turns rest).cons a := by
  have htext : attributeText a ++ rest =
      ' ' :: (a.name ++ '=' :: '"' :: (escapeXml a.value ++ '"' :: rest)) := by
    simp [attributeText]
  obtain ⟨c, name, hcons⟩ := List.exists_cons_of_ne_nil hne
  have hdrop : (attributeText a ++ rest).dropWhile isSpace =
      c :: (name ++ '=' :: '"' :: (escapeXml a.value ++ '"' :: rest)) := by
    rw [htext, List.dropWhile_cons_of_pos (by decide), dropWhile_isSpace_name hname hne, hcons,
      List.cons_append]
  have hc : nameChar c = true := hname c (by rw [hcons]; exact List.mem_cons_self)
  have hgt : c ≠ '>' := fun h => absurd hc (by rw [h]; decide)
  have hslash : c ≠ '/' := fun h => absurd hc (by rw [h]; decide)
  rw [readAttributes_name charCode turns hdrop hgt hslash, ← List.cons_append, ← hcons,
    readAttribute_written charCode hname hne]

theorem readAttributes_attributesText (hnames : ∀ a ∈ attributes, NameChars a.name ∧ a.name ≠ [])
    (rest : Text) {turns : Nat} (hturns : attributes.length < turns) :
    readAttributes charCode turns (attributesText attributes ++ '>' :: rest) =
      .closed attributes false rest := by
  induction attributes generalizing turns with
  | nil =>
    obtain ⟨turns, rfl⟩ := Nat.exists_eq_add_of_lt hturns
    have hdrop : ('>' :: rest).dropWhile isSpace = '>' :: rest :=
      List.dropWhile_cons_of_neg (by decide)
    show readAttributes charCode (0 + turns + 1) ('>' :: rest) = _
    rw [readAttributes, hdrop]
    rfl
  | cons a attributes ih =>
    obtain ⟨turns, rfl⟩ : ∃ t, turns = t + 1 := ⟨turns - 1, by simp at hturns; omega⟩
    have hless : attributes.length < turns := by simpa using hturns
    have hrest := ih (fun b hb => hnames b (List.mem_cons_of_mem _ hb)) hless
    have ha := hnames a List.mem_cons_self
    have htext : attributesText (a :: attributes) ++ '>' :: rest =
        attributeText a ++ (attributesText attributes ++ '>' :: rest) := by
      simp [attributesText]
    rw [htext, readAttributes_written charCode ha.1 ha.2, hrest]
    rfl

theorem readAttributes_unnamed (hnames : ∀ a ∈ attributes, NameChars a.name)
    (hunnamed : ∃ a ∈ attributes, a.name = []) (rest : Text) {turns : Nat}
    (hturns : attributes.length < turns) :
    ∃ message, readAttributes charCode turns (attributesText attributes ++ '>' :: rest) =
      .fails message := by
  induction attributes generalizing turns with
  | nil => simp at hunnamed
  | cons a attributes ih =>
    obtain ⟨turns, rfl⟩ : ∃ t, turns = t + 1 := ⟨turns - 1, by simp at hturns; omega⟩
    have htext : attributesText (a :: attributes) ++ '>' :: rest =
        attributeText a ++ (attributesText attributes ++ '>' :: rest) := by
      simp [attributesText]
    rw [htext]
    by_cases hne : a.name = []
    · have hdrop : (attributeText a ++ (attributesText attributes ++ '>' :: rest)).dropWhile isSpace =
          '=' :: ('"' :: (escapeXml a.value ++ '"' :: (attributesText attributes ++ '>' :: rest))) := by
        simp only [attributeText, hne, List.nil_append, List.cons_append, List.append_assoc]
        rw [List.dropWhile_cons_of_pos (by decide), List.dropWhile_cons_of_neg (by decide)]
      rw [readAttributes_name charCode turns hdrop (by decide) (by decide)]
      exact ⟨_, rfl⟩
    · have hmore : ∃ b ∈ attributes, b.name = [] := by
        obtain ⟨b, hb, hb'⟩ := hunnamed
        cases List.mem_cons.mp hb with
        | inl heq => exact absurd (heq ▸ hb') hne
        | inr hmem => exact ⟨b, hmem, hb'⟩
      have hless : attributes.length < turns := by simpa using hturns
      obtain ⟨message, hrest⟩ := ih (fun b hb => hnames b (List.mem_cons_of_mem _ hb)) hmore hless
      rw [readAttributes_written charCode (hnames a List.mem_cons_self) hne, hrest]
      exact ⟨message, rfl⟩

end

def tagOf (limits : Limits) (declared : List Entries) (elements depth : Nat) (name : Text)
    (attributes : List RawAttribute) : Option StartTag :=
  let declarations := declarationsOf attributes
  if elements + 1 ≤ limits.maxElements ∧ name.head?.any nameStart ∧
      (∀ a ∈ attributes, a.name ≠ []) ∧ declared.length + 1 ≤ limits.maxDepth then do
    let (qualifier, behind) := splitName name
    let ns ← (resolveNs (declarations :: declared) qualifier).toOption
    let resolved ← ((attributes.filter fun a => (declares a).isNone).mapM
      (resolveAttribute (declarations :: declared))).toOption
    some ⟨elements + 1, String.ofList name, behind, ns, resolved, declarations, false, depth⟩
  else none

theorem tagOf_none {limits : Limits} {declared : List Entries} {elements depth : Nat}
    (h : ¬ (elements + 1 ≤ limits.maxElements ∧ name.head?.any nameStart ∧
      (∀ a ∈ attributes, a.name ≠ []) ∧ declared.length + 1 ≤ limits.maxDepth)) :
    tagOf limits declared elements depth name attributes = none := if_neg h

theorem tagOf_eq_some {limits : Limits} {declared : List Entries} {elements depth : Nat}
    {tag : StartTag} :
    tagOf limits declared elements depth name attributes = some tag ↔
      (elements + 1 ≤ limits.maxElements ∧ name.head?.any nameStart ∧
        (∀ a ∈ attributes, a.name ≠ []) ∧ declared.length + 1 ≤ limits.maxDepth) ∧
      ∃ ns resolved,
        resolveNs (declarationsOf attributes :: declared) (splitName name).1 = .ok ns ∧
        (attributes.filter fun a => (declares a).isNone).mapM
          (resolveAttribute (declarationsOf attributes :: declared)) = .ok resolved ∧
        tag = ⟨elements + 1, String.ofList name, (splitName name).2, ns, resolved,
          declarationsOf attributes, false, depth⟩ := by
  have hok : ∀ {α : Type} {x : Except String α} {a : α}, x.toOption = some a ↔ x = .ok a := by
    intro α x a
    cases x <;> simp [Except.toOption]
  by_cases h : elements + 1 ≤ limits.maxElements ∧ name.head?.any nameStart ∧
      (∀ a ∈ attributes, a.name ≠ []) ∧ declared.length + 1 ≤ limits.maxDepth
  · unfold tagOf
    rw [if_pos h]
    simp only [Option.bind_eq_bind, Option.bind_eq_some_iff, hok, Option.some.injEq]
    constructor
    · intro ⟨ns, hns, resolved, hresolved, htag⟩
      exact ⟨h, ns, resolved, hns, hresolved, htag.symm⟩
    · intro ⟨_, ns, resolved, hns, hresolved, htag⟩
      exact ⟨ns, hns, resolved, hresolved, htag.symm⟩
  · rw [tagOf_none h]
    constructor
    · intro hsome
      cases hsome
    · intro hall
      exact absurd hall.1 h

theorem span_name (hname : NameChars name) (attributes : List RawAttribute) (rest : Text) :
    span nameChar (name ++ (attributesText attributes ++ '>' :: rest)) =
      (name, attributesText attributes ++ '>' :: rest) := by
  cases attributes with
  | nil => exact span_append hname (by decide) rest
  | cons a attributes =>
    have htext : attributesText (a :: attributes) ++ '>' :: rest =
        ' ' :: ((a.name ++ '=' :: '"' :: (escapeXml a.value ++ ['"'])) ++
          (attributesText attributes ++ '>' :: rest)) := by
      simp [attributesText, attributeText]
    rw [htext]
    exact span_append hname (by decide) _

theorem length_lt_attributesText (attributes : List RawAttribute) (rest : Text) :
    attributes.length < (attributesText attributes ++ '>' :: rest).length := by
  induction attributes with
  | nil => simp [attributesText]
  | cons a attributes ih =>
    have hone : 0 < (attributeText a).length := by simp [attributeText]
    simp only [attributesText, List.flatMap_cons, List.append_assoc, List.length_append,
      List.length_cons] at ih ⊢
    omega

section
variable (charCode : Text → Option Int) (limits : Limits)

def ScanState.opened (s : ScanState) (name : Text) (tag : StartTag) : ScanState :=
  { s with
    elements := s.elements + 1
    sawRoot := true
    declared := tag.declarations :: s.declared
    openTags := name :: s.openTags }

theorem exists_head (name : Text) (attributes : List RawAttribute) (rest : Text) :
    ∃ c tail, name ++ (attributesText attributes ++ '>' :: rest) = c :: tail ∧
      nameStart c = name.head?.any nameStart := by
  cases name with
  | cons c name => exact ⟨c, _, rfl, rfl⟩
  | nil =>
    cases attributes with
    | nil => exact ⟨'>', rest, rfl, by decide⟩
    | cons a attributes => exact ⟨' ', _, rfl, by decide⟩

theorem startTag_written (s : ScanState) (hname : NameChars name)
    (hnames : ∀ a ∈ attributes, NameChars a.name) (rest : Text) :
    match tagOf limits s.declared s.elements s.openTags.length name attributes with
    | some tag => startTag charCode limits s (name ++ (attributesText attributes ++ '>' :: rest)) =
        .goes [.start tag] (s.opened name tag) rest
    | none => ∃ message,
        startTag charCode limits s (name ++ (attributesText attributes ++ '>' :: rest)) =
          .ends (.failed message) := by
  have hspan := span_name hname attributes rest
  have hturns := length_lt_attributesText attributes rest
  have hbehind : attributesText attributes ++ '>' :: rest ≠ [] := by simp
  obtain ⟨c, tail, hinput, hstart⟩ := exists_head name attributes rest
  rw [hinput] at hspan ⊢
  by_cases helements : limits.maxElements < s.elements + 1
  · rw [tagOf_none fun h => absurd h.1 (by omega)]
    exact ⟨_, if_pos helements⟩
  by_cases hfirst : name.head?.any nameStart = true
  swap
  · rw [tagOf_none fun h => hfirst h.2.1]
    refine ⟨"expected an element name after <", ?_⟩
    rw [startTag, if_neg helements]
    simp only [hspan, hstart]
    rw [if_pos (by simp [hfirst])]
  by_cases hnamed : ∀ a ∈ attributes, a.name ≠ []
  swap
  · obtain ⟨message, hread⟩ := readAttributes_unnamed charCode hnames (by simpa using hnamed) rest hturns
    rw [tagOf_none fun h => hnamed h.2.2.1]
    refine ⟨message, ?_⟩
    rw [startTag, if_neg helements]
    simp only [hspan, hstart]
    rw [if_neg (by simp [hfirst]), if_neg hbehind, hread]
  have hread := readAttributes_attributesText charCode (fun a ha => ⟨hnames a ha, hnamed a ha⟩) rest
    hturns
  by_cases hdepth : limits.maxDepth < s.declared.length + 1
  · rw [tagOf_none fun h => absurd h.2.2.2 (by omega)]
    refine ⟨s!"document nested deeper than {limits.maxDepth} elements", ?_⟩
    rw [startTag, if_neg helements]
    simp only [hspan, hstart]
    rw [if_neg (by simp [hfirst]), if_neg hbehind, hread]
    simp only [List.length_cons]
    rw [if_pos hdepth]
  rw [startTag, if_neg helements]
  simp only [hspan, hstart]
  rw [if_neg (by simp [hfirst]), if_neg hbehind, hread]
  simp only [List.length_cons]
  rw [if_neg hdepth]
  unfold tagOf
  rw [if_pos ⟨by omega, hfirst, hnamed, by omega⟩]
  obtain ⟨qualifier, behind⟩ := splitName name
  cases hns : resolveNs (declarationsOf attributes :: s.declared) qualifier with
  | error message =>
    simp only [hns]
    exact ⟨message, rfl⟩
  | ok ns =>
    cases hresolved : (attributes.filter fun a => (declares a).isNone).mapM
        (resolveAttribute (declarationsOf attributes :: s.declared)) with
    | error message =>
      simp only [hns]
      exact ⟨message, rfl⟩
    | ok resolved =>
      simp only [hns]
      rfl

/-! ### Turns of the scan -/

def after (events : List Event) (scanned : List Event × Ending) : List Event × Ending :=
  (events ++ scanned.1, scanned.2)

@[simp] theorem after_nil (scanned : List Event × Ending) : after [] scanned = scanned := rfl

@[simp] theorem after_after (front back : List Event) (scanned : List Event × Ending) :
    after front (after back scanned) = after (front ++ back) scanned := by
  simp [after]

@[simp] theorem after_snd (events : List Event) (scanned : List Event × Ending) :
    (after events scanned).2 = scanned.2 := rfl

theorem scanFrom_text (turns : Nat) (s : ScanState) {text : Text} (htext : '<' ∉ text)
    (rest : Text) :
    scanFrom charCode limits (turns + 1) s (text ++ '<' :: rest) =
      after (textEvents text) (scanFrom charCode limits (turns + 1) s ('<' :: rest)) := by
  have hplain : ∀ c ∈ text, (c != '<') = true := by
    intro c hc
    simp only [bne_iff_ne]
    exact fun heq => htext (heq ▸ hc)
  have hspan : span (· != '<') (text ++ '<' :: rest) = (text, '<' :: rest) :=
    span_append hplain (by decide) rest
  have hspan' : span (· != '<') ('<' :: rest) = ([], '<' :: rest) :=
    @span_append (· != '<') [] (by simp) '<' (by decide) rest
  rw [scanFrom, scanFrom, if_neg (by simp), if_neg (by simp)]
  simp only [hspan, hspan']
  rw [if_neg (by simp), if_neg (by simp)]
  cases markup charCode limits s ('<' :: rest) with
  | ends ending => simp [after, textEvents]
  | goes events s rest => simp [after, textEvents]

theorem scanFrom_markup (turns : Nat) (s : ScanState) (rest : Text) :
    scanFrom charCode limits (turns + 1) s ('<' :: rest) =
      match markup charCode limits s ('<' :: rest) with
      | .ends ending => ([], ending)
      | .goes events s rest => after events (scanFrom charCode limits turns s rest) := by
  have hspan : span (· != '<') ('<' :: rest) = ([], '<' :: rest) :=
    @span_append (· != '<') [] (by simp) '<' (by decide) rest
  rw [scanFrom, if_neg (by simp)]
  simp only [hspan]
  rw [if_neg (by simp)]
  rfl

theorem markup_startTag (s : ScanState) (hquestion : c ≠ '?') (hbang : c ≠ '!') (hslash : c ≠ '/')
    (rest : Text) :
    markup charCode limits s ('<' :: c :: rest) = startTag charCode limits s (c :: rest) := by
  unfold markup
  simp [List.isPrefixOf, hquestion.symm, hbang.symm, hslash.symm]

theorem markup_endTag (s : ScanState) (rest : Text) :
    markup charCode limits s ('<' :: '/' :: rest) = endTag s ('<' :: '/' :: rest) := by
  unfold markup
  simp [List.isPrefixOf]

theorem trim_name (hname : NameChars name) : trim name = name := by
  have hback : ∀ {value : Text}, NameChars value → value.dropWhile isSpace = value := by
    intro value hvalue
    cases value with
    | nil => rfl
    | cons c value =>
      have hc := isSpace_of_nameChar (hvalue c List.mem_cons_self)
      exact List.dropWhile_cons_of_neg (by simp [hc])
  have hreverse : NameChars name.reverse := fun c hc => hname c (List.mem_reverse.mp hc)
  unfold trim
  rw [hback hname, hback hreverse, List.reverse_reverse]

theorem endTag_written (s : ScanState) (hname : NameChars name) {openTags : List Text}
    (hopen : s.openTags = name :: openTags) (rest : Text) :
    endTag s ('<' :: '/' :: (name ++ '>' :: rest)) =
      .goes [.close] { s with declared := s.declared.tail, openTags := openTags } rest := by
  have hnot : '>' ∉ '<' :: '/' :: name := by
    intro h
    have hmem : '>' ∈ name := by simpa using h
    exact absurd (hname _ hmem) (by decide)
  have hcut : cut ['>'] ('<' :: '/' :: (name ++ '>' :: rest)) = some ('<' :: '/' :: name, rest) :=
    cut_single hnot rest
  unfold endTag
  simp only [hcut, hopen, List.drop_succ_cons, List.drop_zero, trim_name hname]
  rw [if_neg (by simp)]

end

end Apim.Xml
