import Apim.Shared.Pem
import Apim.Shared.XmlNames

/-!
# The pieces of a document

What the scanner takes in one turn as it is written (`Piece.text`), and what it makes of it (`Takes`):
a turn of `markup` goes on exactly where a piece begins the text.
-/

namespace Apim.Xml
open Guard
open Routing (isSpace trim)

/-! ### What is cut off -/

theorem cut_eq {pattern : Text} (hne : pattern ≠ []) (input : Text) :
    cut pattern input = Pem.cut pattern input := by
  induction input with
  | nil => rw [Pem.cut, if_neg hne]; rfl
  | cons c input ih =>
    rw [cut, Pem.cut, ih]
    by_cases hhere : pattern.isPrefixOf (c :: input) = true
    · obtain ⟨behind, hbehind⟩ := List.isPrefixOf_iff_prefix.mp hhere
      rw [if_pos hhere, List.isPrefixOf?_eq_some_iff_append_eq.mpr hbehind, ← hbehind,
        List.drop_left]
    · have hnone : pattern.isPrefixOf? (c :: input) = none := by
        rw [← Option.not_isSome_iff_eq_none, List.isSome_isPrefixOf?_eq_isPrefixOf]
        exact hhere
      rw [if_neg hhere, hnone]

def UpTo (pattern before : Text) : Prop := cut pattern (before ++ pattern) = some (before, [])

variable {input before rest : Text}

theorem cut_eq_some {pattern : Text} (hne : pattern ≠ []) :
    cut pattern input = some (before, rest) ↔
      input = before ++ (pattern ++ rest) ∧ UpTo pattern before := by
  unfold UpTo
  rw [cut_eq hne, cut_eq hne]
  constructor
  · exact fun h => ⟨Pem.cut_spec h, Pem.cut_self h⟩
  · rintro ⟨rfl, h⟩
    have hmore := Pem.cut_append h rest
    rwa [List.append_assoc, List.nil_append] at hmore

theorem upTo_single {c : Char} : UpTo [c] before ↔ c ∉ before := by
  constructor
  · exact fun h => (cut_length h).2
  · exact fun h => cut_single h []

/-! ### Attributes -/

structure WrittenAttribute where
  space : Text
  name : Text
  beforeSign : Text
  afterSign : Text
  quote : Char
  raw : Text
  deriving DecidableEq, Repr

namespace WrittenAttribute

def text (a : WrittenAttribute) : Text :=
  a.space ++ (a.name ++ (a.beforeSign ++ '=' :: (a.afterSign ++ a.quote :: (a.raw ++ [a.quote]))))

structure Valid (a : WrittenAttribute) : Prop where
  space : ∀ c ∈ a.space, isSpace c = true
  name : NameChars a.name
  named : a.name ≠ []
  beforeSign : ∀ c ∈ a.beforeSign, isSpace c = true
  afterSign : ∀ c ∈ a.afterSign, isSpace c = true
  quote : a.quote = '"' ∨ a.quote = '\''
  raw : a.quote ∉ a.raw

end WrittenAttribute

section
variable (charCode : Text → Option Int)

def ReadAs (a : WrittenAttribute) (read : RawAttribute) : Prop :=
  read.name = a.name ∧ decodeEntities charCode a.raw = .ok read.value

end

variable {a : WrittenAttribute} {read : RawAttribute}

section
variable {charCode : Text → Option Int}

theorem span_eq {p : Char → Bool} {name : Text} (hname : ∀ c ∈ name, p c = true)
    (hrest : ∀ c ∈ rest.head?, p c = false) : span p (name ++ rest) = (name, rest) := by
  cases rest with
  | nil =>
    rw [List.append_nil, span, List.takeWhile_eq_self_iff.mpr hname, List.dropWhile_eq_nil_iff.mpr hname]
  | cons c rest => exact span_append hname (hrest c rfl) rest

theorem dropWhile_space {space : Text} (hspace : ∀ c ∈ space, isSpace c = true)
    (hrest : ∀ c ∈ rest.head?, isSpace c = false) : (space ++ rest).dropWhile isSpace = rest :=
  congrArg Prod.snd (span_eq hspace hrest)

theorem eq_space_append (input : Text) :
    ∃ space, input = space ++ input.dropWhile isSpace ∧ ∀ c ∈ space, isSpace c = true :=
  ⟨input.takeWhile isSpace, List.takeWhile_append_dropWhile.symm, fun _ hc => List.mem_takeWhile_imp hc⟩

theorem readAttribute_text (ha : a.Valid) (hspace : a.space = []) (hread : ReadAs charCode a read)
    (rest : Text) : readAttribute charCode (a.text ++ rest) = .ok (some (read, rest)) := by
  obtain ⟨name, value⟩ := read
  obtain ⟨hname, hvalue⟩ := hread
  cases hname
  have htext : a.text ++ rest = a.name ++ (a.beforeSign ++ '=' :: (a.afterSign ++
      a.quote :: (a.raw ++ a.quote :: rest))) := by
    simp [WrittenAttribute.text, hspace]
  have hquoteSpace : isSpace a.quote = false := by
    obtain h | h := ha.quote
    · rw [h]
      decide
    · rw [h]
      decide
  have hspan : span nameChar (a.name ++ (a.beforeSign ++ '=' :: (a.afterSign ++
      a.quote :: (a.raw ++ a.quote :: rest)))) = (a.name, a.beforeSign ++ '=' :: (a.afterSign ++
      a.quote :: (a.raw ++ a.quote :: rest))) := by
    refine span_eq ha.name fun c hc => ?_
    cases hbefore : a.beforeSign with
    | nil =>
      rw [hbefore] at hc
      cases hc
      decide
    | cons d space =>
      rw [hbefore] at hc
      cases hc
      have hspace := ha.beforeSign c (by rw [hbefore]; exact List.mem_cons_self)
      cases hnameChar : nameChar c with
      | false => rfl
      | true =>
        rw [isSpace_of_nameChar hnameChar] at hspace
        cases hspace
  have hsign : (a.beforeSign ++ '=' :: (a.afterSign ++ a.quote :: (a.raw ++ a.quote :: rest))).dropWhile
      isSpace = '=' :: (a.afterSign ++ a.quote :: (a.raw ++ a.quote :: rest)) := by
    refine dropWhile_space ha.beforeSign fun c hc => ?_
    cases hc
    decide
  have hafter : (a.afterSign ++ a.quote :: (a.raw ++ a.quote :: rest)).dropWhile isSpace =
      a.quote :: (a.raw ++ a.quote :: rest) := by
    refine dropWhile_space ha.afterSign fun c hc => ?_
    cases hc
    exact hquoteSpace
  unfold readAttribute
  rw [htext, hspan]
  simp only [if_neg ha.named, hsign, hafter]
  rw [if_pos ha.quote, cut_single ha.raw]
  simp only [hvalue]
  rfl

theorem readAttribute_eq (h : readAttribute charCode input = .ok (some (read, rest))) :
    ∃ a : WrittenAttribute, a.Valid ∧ a.space = [] ∧ ReadAs charCode a read ∧ input = a.text ++ rest := by
  have hname := nameChars_span input
  have hinput : input = (span nameChar input).1 ++ (span nameChar input).2 :=
    List.takeWhile_append_dropWhile.symm
  unfold readAttribute at h
  generalize span nameChar input = parts at h hname hinput
  obtain ⟨name, afterName⟩ := parts
  simp only at h hname hinput
  split at h
  · cases h
  next hne =>
  split at h
  case h_2 => cases h
  next afterSign hsign =>
  split at h
  case h_2 => cases h
  next quote inside hinside =>
  split at h
  case isFalse => cases h
  next hquote =>
  split at h
  · cases h
  next raw behind hcut =>
  simp only [bind_eq_ok, pure_eq_ok] at h
  obtain ⟨value, hvalue, heq⟩ := h
  cases heq
  obtain ⟨beforeSign, hbefore, hbeforeSpace⟩ := eq_space_append afterName
  obtain ⟨space, hspace, hafterSpace⟩ := eq_space_append afterSign
  obtain ⟨hbody, hraw⟩ := (cut_eq_some (List.cons_ne_nil _ _)).mp hcut
  refine ⟨⟨[], name, beforeSign, space, quote, raw⟩,
    ⟨by simp, hname, hne, hbeforeSpace, hafterSpace, hquote, upTo_single.mp hraw⟩, rfl, ⟨rfl, hvalue⟩, ?_⟩
  rw [hinput, hbefore, hsign, hspace, hinside, hbody]
  simp [WrittenAttribute.text]

def attributesWritten (written : List WrittenAttribute) : Text := written.flatMap WrittenAttribute.text

def tagEnding (selfClosing : Bool) : Text := if selfClosing then ['/', '>'] else ['>']

theorem head_tagEnding {selfClosing : Bool} {c : Char}
    (h : c ∈ (tagEnding selfClosing ++ rest).head?) : isSpace c = false ∧ nameChar c = false := by
  cases selfClosing with
  | true =>
    cases h
    decide
  | false =>
    cases h
    decide

theorem readAttributes_ending {space : Text} (hspace : ∀ c ∈ space, isSpace c = true) (turns : Nat)
    (selfClosing : Bool) (rest : Text) :
    readAttributes charCode (turns + 1) (space ++ (tagEnding selfClosing ++ rest)) =
      .closed [] selfClosing rest := by
  rw [readAttributes, dropWhile_space hspace fun c hc => (head_tagEnding hc).1]
  cases selfClosing with
  | true => rfl
  | false => rfl

theorem exists_text_head (ha : a.Valid) (hspace : a.space = []) (rest : Text) :
    ∃ c tail, a.text ++ rest = c :: tail ∧ nameChar c = true := by
  obtain ⟨c, name, hname⟩ := List.exists_cons_of_ne_nil ha.named
  refine ⟨c, name ++ (a.beforeSign ++ '=' :: (a.afterSign ++ a.quote :: (a.raw ++ a.quote :: rest))),
    ?_, ha.name c (by rw [hname]; exact List.mem_cons_self)⟩
  simp [WrittenAttribute.text, hspace, hname]

theorem readAttributes_text (ha : a.Valid) (hread : ReadAs charCode a read) (turns : Nat)
    (rest : Text) :
    readAttributes charCode (turns + 1) (a.text ++ rest) =
      (readAttributes charCode turns rest).cons read := by
  have hbare : ({ a with space := [] } : WrittenAttribute).Valid :=
    ⟨nofun, ha.name, ha.named, ha.beforeSign, ha.afterSign, ha.quote, ha.raw⟩
  obtain ⟨c, tail, htail, hc⟩ := exists_text_head hbare rfl rest
  have hdrop : (a.text ++ rest).dropWhile isSpace = c :: tail := by
    have htext : a.text ++ rest = a.space ++ (c :: tail) := by
      rw [← htail]
      simp [WrittenAttribute.text]
    rw [htext]
    refine dropWhile_space ha.space fun d hd => ?_
    cases hd
    exact isSpace_of_nameChar hc
  have hgt : c ≠ '>' := fun h => absurd hc (by rw [h]; decide)
  have hslash : c ≠ '/' := fun h => absurd hc (by rw [h]; decide)
  have hone : readAttribute charCode (c :: tail) = .ok (some (read, rest)) := by
    rw [← htail]
    exact readAttribute_text hbare rfl hread rest
  rw [readAttributes_name charCode turns hdrop hgt hslash, hone]

theorem readAttributes_of_text {written : List WrittenAttribute} {raws : List RawAttribute}
    (hvalid : ∀ a ∈ written, a.Valid) (hread : List.Forall₂ (ReadAs charCode) written raws)
    {space : Text} (hspace : ∀ c ∈ space, isSpace c = true) {turns : Nat}
    (hturns : written.length < turns) (selfClosing : Bool) (rest : Text) :
    readAttributes charCode turns (attributesWritten written ++ (space ++ (tagEnding selfClosing ++ rest))) =
      .closed raws selfClosing rest := by
  induction hread generalizing turns with
  | nil =>
    obtain ⟨turns, rfl⟩ : ∃ t, turns = t + 1 := ⟨turns - 1, by simp at hturns; omega⟩
    exact readAttributes_ending hspace turns selfClosing rest
  | @cons a read written raws hone _ ih =>
    obtain ⟨turns, rfl⟩ : ∃ t, turns = t + 1 := ⟨turns - 1, by simp at hturns; omega⟩
    have hrest := ih (fun b hb => hvalid b (List.mem_cons_of_mem _ hb)) (by simpa using hturns)
    have htext : attributesWritten (a :: written) ++ (space ++ (tagEnding selfClosing ++ rest)) =
        a.text ++ (attributesWritten written ++ (space ++ (tagEnding selfClosing ++ rest))) := by
      simp [attributesWritten]
    rw [htext, readAttributes_text (hvalid a List.mem_cons_self) hone, hrest]
    rfl

theorem text_of_readAttributes {turns : Nat} {raws : List RawAttribute} {selfClosing : Bool}
    (h : readAttributes charCode turns input = .closed raws selfClosing rest) :
    ∃ written space, (∀ a ∈ written, a.Valid) ∧ List.Forall₂ (ReadAs charCode) written raws ∧
      (∀ c ∈ space, isSpace c = true) ∧
      input = attributesWritten written ++ (space ++ (tagEnding selfClosing ++ rest)) := by
  induction turns generalizing input raws with
  | zero => cases h
  | succ turns ih =>
    obtain ⟨space, hinput, hspace⟩ := eq_space_append input
    rw [readAttributes] at h
    split at h
    · cases h
    next last hlast =>
      cases h
      refine ⟨[], space, by simp, .nil, hspace, ?_⟩
      rw [hlast] at hinput
      exact hinput
    next last hlast =>
      cases h
      refine ⟨[], space, by simp, .nil, hspace, ?_⟩
      rw [hlast] at hinput
      exact hinput
    split at h
    · cases h
    · cases h
    next read behind hread =>
    obtain ⟨a, ha, hbare, hreadAs, htext⟩ := readAttribute_eq hread
    cases hmore : readAttributes charCode turns behind with
    | unfinished => rw [hmore] at h; cases h
    | fails message => rw [hmore] at h; cases h
    | closed others closing last =>
      rw [hmore] at h
      cases h
      obtain ⟨written, lastSpace, hvalid, hreads, hlastSpace, hbehind⟩ := ih hmore
      refine ⟨{ a with space := space } :: written, lastSpace, ?_, .cons ⟨hreadAs.1, hreadAs.2⟩ hreads,
        hlastSpace, ?_⟩
      · rw [List.forall_mem_cons]
        exact ⟨⟨hspace, ha.name, ha.named, ha.beforeSign, ha.afterSign, ha.quote, ha.raw⟩, hvalid⟩
      · rw [hinput, htext, hbehind]
        simp [attributesWritten, WrittenAttribute.text, hbare]

theorem length_le_attributesWritten {written : List WrittenAttribute} :
    written.length ≤ (attributesWritten written).length := by
  induction written with
  | nil => exact Nat.le_refl _
  | cons a written ih =>
    simp only [attributesWritten, List.flatMap_cons, List.length_append, List.length_cons,
      WrittenAttribute.text] at ih ⊢
    omega

end

/-! ### Tags and pieces -/

structure WrittenTag where
  name : Text
  attributes : List WrittenAttribute
  space : Text
  selfClosing : Bool
  deriving DecidableEq, Repr

namespace WrittenTag

def text (tag : WrittenTag) : Text :=
  tag.name ++ (attributesWritten tag.attributes ++ (tag.space ++ tagEnding tag.selfClosing))

structure Valid (tag : WrittenTag) : Prop where
  name : NameChars tag.name
  start : tag.name.head?.any nameStart = true
  attributes : ∀ a ∈ tag.attributes, a.Valid
  apart : ∀ a ∈ tag.attributes.head?, a.space ≠ []
  space : ∀ c ∈ tag.space, isSpace c = true

def event (tag : WrittenTag) (s : ScanState) (raws : List RawAttribute) (ns : String)
    (resolved : List XmlAttribute) : StartTag :=
  ⟨s.elements + 1, String.ofList tag.name, (splitName tag.name).2, ns, resolved, declarationsOf raws,
    tag.selfClosing, s.openTags.length⟩

end WrittenTag

def ScanState.enter (s : ScanState) (name : Text) (tag : StartTag) : ScanState :=
  { s with
    elements := s.elements + 1
    sawRoot := true
    declared := if tag.selfClosing then s.declared else tag.declarations :: s.declared
    openTags := if tag.selfClosing then s.openTags else name :: s.openTags }

inductive Piece where
  | declaration (inside : Text)
  | comment (behind : Text)
  | cdata (inside : Text)
  | close (inside : Text)
  | start (tag : WrittenTag)
  deriving DecidableEq, Repr

def CDATA_OPEN : Text := ['<', '!', '[', 'C', 'D', 'A', 'T', 'A', '[']

namespace Piece

def text : Piece → Text
  | .declaration inside => '<' :: '?' :: (inside ++ ['?', '>'])
  | .comment behind => '<' :: '!' :: '-' :: '-' :: behind
  | .cdata inside => CDATA_OPEN ++ (inside ++ [']', ']', '>'])
  | .close inside => '<' :: '/' :: (inside ++ ['>'])
  | .start tag => '<' :: tag.text

def Valid : Piece → Prop
  | .declaration inside =>
    ['x', 'm', 'l'] <+: inside.dropWhile isSpace ∧ UpTo ['?', '>'] ('<' :: '?' :: inside)
  | .comment behind =>
    ∃ before, '<' :: '!' :: '-' :: '-' :: behind = before ++ ['-', '-', '>'] ∧ UpTo ['-', '-', '>'] before
  | .cdata inside => UpTo [']', ']', '>'] (CDATA_OPEN ++ inside)
  | .close inside => '>' ∉ inside
  | .start tag => tag.Valid

end Piece

section
variable (charCode : Text → Option Int) (limits : Limits)

inductive Takes (s : ScanState) : Piece → List Event → ScanState → Prop
  | declaration {inside : Text} (hdeclaration : s.sawDeclaration = false) (hroot : s.sawRoot = false) :
    Takes s (.declaration inside) [] { s with sawDeclaration := true }
  | comment {behind : Text} : Takes s (.comment behind) [] s
  | cdata {inside : Text} :
    Takes s (.cdata inside) (if inside = [] then [] else [.cdata inside]) s
  | close {inside : Text} {openTags : List Text} (hopen : s.openTags = trim inside :: openTags) :
    Takes s (.close inside) [.close] { s with declared := s.declared.tail, openTags := openTags }
  | start {tag : WrittenTag} {raws : List RawAttribute} {ns : String} {resolved : List XmlAttribute}
    (hread : List.Forall₂ (ReadAs charCode) tag.attributes raws)
    (hcount : s.elements + 1 ≤ limits.maxElements) (hdepth : s.declared.length + 1 ≤ limits.maxDepth)
    (hns : resolveNs (declarationsOf raws :: s.declared) (splitName tag.name).1 = .ok ns)
    (hresolved : (raws.filter fun a => (declares a).isNone).mapM
      (resolveAttribute (declarationsOf raws :: s.declared)) = .ok resolved) :
    Takes s (.start tag) [.start (tag.event s raws ns resolved)]
      (s.enter tag.name (tag.event s raws ns resolved))

end

variable {events : List Event} {s' : ScanState}

section
variable {charCode : Text → Option Int} {limits : Limits} {s : ScanState}

theorem span_tag {tag : WrittenTag} (htag : tag.Valid) (rest : Text) :
    span nameChar (tag.text ++ rest) =
      (tag.name, attributesWritten tag.attributes ++ (tag.space ++ (tagEnding tag.selfClosing ++ rest))) := by
  have htext : tag.text ++ rest =
      tag.name ++ (attributesWritten tag.attributes ++ (tag.space ++ (tagEnding tag.selfClosing ++ rest))) := by
    simp [WrittenTag.text]
  have hblank : ∀ {c : Char}, isSpace c = true → nameChar c = false := by
    intro c hc
    cases hname : nameChar c with
    | false => rfl
    | true =>
      rw [isSpace_of_nameChar hname] at hc
      cases hc
  rw [htext]
  refine span_eq htag.name fun c hc => ?_
  cases hattributes : tag.attributes with
  | nil =>
    rw [hattributes] at hc
    cases hspace : tag.space with
    | nil =>
      rw [hspace] at hc
      exact (head_tagEnding hc).2
    | cons d space =>
      rw [hspace] at hc
      cases hc
      exact hblank (htag.space c (by rw [hspace]; exact List.mem_cons_self))
  | cons a attributes =>
    have ha : a ∈ tag.attributes := by
      rw [hattributes]
      exact List.mem_cons_self
    obtain ⟨d, space, hspace⟩ := List.exists_cons_of_ne_nil (htag.apart a (by rw [hattributes]; rfl))
    have hhead : c = d := by
      rw [hattributes] at hc
      simp only [attributesWritten, List.flatMap_cons, WrittenAttribute.text, hspace, List.cons_append,
        List.head?_cons, Option.mem_def, Option.some.injEq] at hc
      exact hc.symm
    rw [hhead]
    exact hblank ((htag.attributes a ha).space d (by rw [hspace]; exact List.mem_cons_self))

theorem WrittenTag.exists_head {tag : WrittenTag} (htag : tag.Valid) (rest : Text) :
    ∃ c tail, tag.text ++ rest = c :: tail ∧ nameStart c = true := by
  have hstart := htag.start
  cases hname : tag.name with
  | nil =>
    rw [hname] at hstart
    cases hstart
  | cons c name =>
    rw [hname] at hstart
    rw [WrittenTag.text, hname]
    exact ⟨c, _, rfl, hstart⟩

theorem startTag_text {tag : WrittenTag} (htag : tag.Valid)
    (h : Takes charCode limits s (.start tag) events s') (rest : Text) :
    startTag charCode limits s (tag.text ++ rest) = .goes events s' rest := by
  cases h with | @start _ raws ns resolved hread hcount hdepth hns hresolved => ?_
  have hspan := span_tag htag rest
  have hturns : tag.attributes.length < (attributesWritten tag.attributes ++
      (tag.space ++ (tagEnding tag.selfClosing ++ rest))).length := by
    have hlength := @length_le_attributesWritten tag.attributes
    have hending : 0 < (tagEnding tag.selfClosing).length := by
      cases tag.selfClosing <;> decide
    simp only [List.length_append]
    omega
  have hattributes := readAttributes_of_text htag.attributes hread htag.space hturns tag.selfClosing rest
  obtain ⟨c, tail, htail, hstart⟩ := WrittenTag.exists_head htag rest
  rw [htail] at hspan ⊢
  have hne : attributesWritten tag.attributes ++ (tag.space ++ (tagEnding tag.selfClosing ++ rest)) ≠ [] :=
    fun h => by rw [h] at hturns; exact absurd hturns (Nat.not_lt_zero _)
  rw [startTag, if_neg (by omega)]
  simp only [hspan, hstart]
  rw [if_neg (by decide), if_neg hne, hattributes]
  simp only [List.length_cons]
  rw [if_neg (by omega)]
  simp only [hns, hresolved, ok_bind]
  rfl

theorem nameChar_of_nameStart {c : Char} (h : nameStart c = true) : nameChar c = true := by
  simp only [nameStart, nameChar, Char.isAlphanum, Bool.or_eq_true] at h ⊢
  obtain h | h := h
  · exact .inl (.inl (.inl (.inl (.inl h))))
  · exact .inl (.inl (.inr h))

theorem text_of_startTag (h : startTag charCode limits s input = .goes events s' rest) :
    ∃ tag : WrittenTag, tag.Valid ∧ input = tag.text ++ rest ∧
      Takes charCode limits s (.start tag) events s' := by
  have hname := nameChars_span input
  have hinput : input = (span nameChar input).1 ++ (span nameChar input).2 :=
    List.takeWhile_append_dropWhile.symm
  have hbehind : ∀ c ∈ (span nameChar input).2.head?, nameChar c = false := by
    intro c hc
    have hfalse := List.head?_dropWhile_not nameChar input
    rw [span] at hc
    rw [Option.mem_def.mp hc] at hfalse
    simpa using hfalse
  unfold startTag at h
  generalize span nameChar input = parts at h hname hinput hbehind
  obtain ⟨name, afterName⟩ := parts
  simp only at h hname hinput hbehind
  split at h
  · cases h
  next hcount =>
  split at h
  · cases h
  next c tail =>
  split at h
  · cases h
  next hstart =>
  split at h
  · cases h
  next hne =>
  split at h
  · cases h
  · cases h
  next raws selfClosing behind hread =>
  split at h
  · cases h
  next hdepth =>
  split at h
  · cases h
  next ns resolved hresolved =>
  cases h
  simp only [bind_eq_ok, pure_eq_ok] at hresolved
  obtain ⟨ns', hns, resolved', hmapM, heq⟩ := hresolved
  cases heq
  obtain ⟨written, space, hvalid, hreads, hspace, hwritten⟩ := text_of_readAttributes hread
  refine ⟨⟨name, written, space, selfClosing⟩, ⟨hname, ?_, hvalid, ?_, hspace⟩, ?_,
    .start hreads (by omega) (by simpa using hdepth) hns hmapM⟩
  · cases name with
    | nil =>
      have hafter : afterName = c :: tail := hinput.symm
      have hfalse := hbehind c (by rw [hafter]; rfl)
      rw [nameChar_of_nameStart (by simpa using hstart)] at hfalse
      cases hfalse
    | cons d name =>
      cases hinput
      simpa using hstart
  · intro a ha hspaceless
    cases written with
    | nil => cases ha
    | cons b written =>
      cases ha
      have hb := hvalid a List.mem_cons_self
      obtain ⟨d, others, hd, hchar⟩ := exists_text_head hb hspaceless
        (attributesWritten written ++ (space ++ (tagEnding selfClosing ++ rest)))
      have hhead := hbehind d (by
        rw [hwritten, attributesWritten, List.flatMap_cons, List.append_assoc]
        show d ∈ (a.text ++ (attributesWritten written ++ _)).head?
        rw [hd]
        rfl)
      rw [hchar] at hhead
      cases hhead
  · rw [hinput, hwritten]
    simp [WrittenTag.text]

theorem prefix_before {head before rest : Text} {c : Char} (h : head <+: before ++ c :: rest)
    (hc : c ∉ head) : head <+: before := by
  obtain hshort | ⟨tail, htail⟩ := List.prefix_or_prefix_of_prefix h (List.prefix_append before (c :: rest))
  · exact hshort
  · cases tail with
    | nil =>
      simp [← htail]
    | cons d tail =>
      rw [← htail, List.prefix_append_right_inj, List.cons_prefix_cons] at h
      rw [← htail, ← h.1] at hc
      simp at hc

theorem text_of_declaration (hbegins : ['<', '?'] <+: input)
    (hcut : cut ['?', '>'] input = some (before, rest))
    (hxml : ['x', 'm', 'l'] <+: (before.drop 2).dropWhile isSpace) :
    ∃ inside, (Piece.declaration inside).Valid ∧ input = (Piece.declaration inside).text ++ rest := by
  obtain ⟨hinput, hupTo⟩ := (cut_eq_some (by decide)).mp hcut
  have hfirst : ['<'] <+: before := by
    refine @prefix_before _ _ ('>' :: rest) '?' ?_ (by decide)
    rw [hinput] at hbegins
    exact (show ['<'] <+: ['<', '?'] by decide).trans hbegins
  obtain ⟨tail, rfl⟩ := hfirst
  cases tail with
  | nil => exact absurd hxml (by decide)
  | cons d inside =>
    have hd : '?' = d := by
      rw [hinput, List.singleton_append, List.cons_append, List.cons_prefix_cons,
        List.cons_append, List.cons_prefix_cons] at hbegins
      exact hbegins.2.1
    subst hd
    refine ⟨inside, ⟨hxml, hupTo⟩, ?_⟩
    rw [hinput]
    simp [Piece.text]

theorem text_of_comment (hbegins : ['<', '!', '-', '-'] <+: input)
    (hcut : cut ['-', '-', '>'] input = some (before, rest)) :
    ∃ behind, (Piece.comment behind).Valid ∧ input = (Piece.comment behind).text ++ rest := by
  obtain ⟨hinput, hupTo⟩ := (cut_eq_some (by decide)).mp hcut
  have hfirst : ['<', '!'] <+: before := by
    refine @prefix_before _ _ ('-' :: '>' :: rest) '-' ?_ (by decide)
    rw [hinput] at hbegins
    exact (show ['<', '!'] <+: ['<', '!', '-', '-'] by decide).trans hbegins
  have hlength : ['<', '!', '-', '-'].length ≤ (before ++ ['-', '-', '>']).length := by
    have hle := hfirst.length_le
    simp only [List.length_append] at hle ⊢
    simp only [List.length_cons, List.length_nil] at hle ⊢
    omega
  rw [hinput, ← List.append_assoc] at hbegins
  obtain ⟨behind, hbehind⟩ := List.prefix_of_prefix_length_le hbegins (List.prefix_append _ _) hlength
  refine ⟨behind, ⟨before, hbehind, hupTo⟩, ?_⟩
  rw [hinput, ← List.append_assoc, ← hbehind]
  rfl

theorem text_of_cdata (hbegins : CDATA_OPEN <+: input) (hcut : cut [']', ']',
      '>'] input = some (before, rest))  :
    (Piece.cdata (before.drop 9)).Valid ∧ input = (Piece.cdata (before.drop 9)).text ++ rest := by
  obtain ⟨hinput, hupTo⟩ := (cut_eq_some (by decide)).mp hcut
  have hfirst : CDATA_OPEN <+: before := by
    refine @prefix_before _ _ (']' :: '>' :: rest) ']' ?_ (by decide)
    rw [hinput] at hbegins
    exact hbegins
  obtain ⟨inside, rfl⟩ := hfirst
  refine ⟨hupTo, ?_⟩
  rw [hinput]
  show _ = CDATA_OPEN ++ (inside ++ [']', ']', '>']) ++ rest
  simp only [List.append_assoc]

theorem text_of_close (hbegins : ['<', '/'] <+: input)
    (hcut : cut ['>'] input = some (before, rest)) :
    (Piece.close (before.drop 2)).Valid ∧ input = (Piece.close (before.drop 2)).text ++ rest := by
  obtain ⟨hinput, hupTo⟩ := (cut_eq_some (by decide)).mp hcut
  have hfirst : ['<', '/'] <+: before := by
    refine @prefix_before _ _ rest '>' ?_ (by decide)
    rw [hinput] at hbegins
    exact hbegins
  obtain ⟨inside, rfl⟩ := hfirst
  have hnot : '>' ∉ ['<', '/'] ++ inside := upTo_single.mp hupTo
  refine ⟨fun h => hnot (List.mem_append_right _ h), ?_⟩
  rw [hinput]
  simp [Piece.text]

theorem takes_of_endTag (hbegins : ['<', '/'] <+: input) (h : endTag s input = .goes events s' rest) :
    ∃ piece : Piece, piece.Valid ∧ input = piece.text ++ rest ∧
      Takes charCode limits s piece events s' := by
  unfold endTag at h
  split at h
  · cases h
  next before behind hcut =>
  simp only at h
  split at h
  · cases h
  next expected openTags hopen =>
  split at h
  · cases h
  next hname =>
  cases h
  obtain ⟨hvalid, htext⟩ := text_of_close hbegins hcut
  refine ⟨_, hvalid, htext, .close ?_⟩
  rw [hopen, Decidable.not_not.mp hname]

theorem delimiters : "<?".toList = ['<', '?'] ∧ "?>".toList = ['?', '>'] ∧ "xml".toList = ['x', 'm', 'l'] ∧
    "<!--".toList = ['<', '!', '-', '-'] ∧ "-->".toList = ['-', '-', '>'] ∧
    "<![CDATA[".toList = CDATA_OPEN ∧ "]]>".toList = [']', ']', '>'] ∧ "</".toList = ['<', '/'] := by
  decide

theorem text_of_markup (h : markup charCode limits s ('<' :: input) = .goes events s' rest) :
    ∃ piece : Piece, piece.Valid ∧ '<' :: input = piece.text ++ rest ∧
      Takes charCode limits s piece events s' := by
  obtain ⟨hopen, hend, hxmlWord, hcomment, hcommentEnd, hcdata, hcdataEnd, hslash⟩ := delimiters
  unfold markup at h
  rw [hopen, hend, hxmlWord, hcomment, hcommentEnd, hcdata, hcdataEnd, hslash] at h
  split at h
  next hbegins =>
    split at h
    · cases h
    next before behind hcut =>
    split at h
    · cases h
    next hword =>
    cases h
    simp only [Bool.or_eq_true, Bool.not_eq_true', not_or, Bool.not_eq_true, Bool.not_eq_false] at hword
    obtain ⟨⟨hxml, hdeclaration⟩, hroot⟩ := hword
    obtain ⟨inside, hvalid, htext⟩ := text_of_declaration (List.isPrefixOf_iff_prefix.mp hbegins) hcut
      (List.isPrefixOf_iff_prefix.mp hxml)
    exact ⟨_, hvalid, htext, .declaration hdeclaration hroot⟩
  split at h
  next hbegins =>
    split at h
    · cases h
    next before behind hcut =>
    cases h
    obtain ⟨inside, hvalid, htext⟩ := text_of_comment (List.isPrefixOf_iff_prefix.mp hbegins) hcut
    exact ⟨_, hvalid, htext, .comment⟩
  split at h
  next hbegins =>
    split at h
    · cases h
    next before behind hcut =>
    cases h
    obtain ⟨hvalid, htext⟩ := text_of_cdata (List.isPrefixOf_iff_prefix.mp hbegins) hcut
    exact ⟨_, hvalid, htext, .cdata⟩
  split at h
  · cases h
  split at h
  next hbegins => exact takes_of_endTag (List.isPrefixOf_iff_prefix.mp hbegins) h
  · obtain ⟨tag, htag, htext, htakes⟩ := text_of_startTag h
    refine ⟨.start tag, htag, ?_, htakes⟩
    show '<' :: input = '<' :: (tag.text ++ rest)
    rw [← htext]
    rfl

theorem exists_text (piece : Piece) : ∃ tail, piece.text = '<' :: tail := by
  cases piece with
  | declaration inside => exact ⟨_, rfl⟩
  | comment behind => exact ⟨_, rfl⟩
  | cdata inside => exact ⟨_, rfl⟩
  | close inside => exact ⟨_, rfl⟩
  | start tag => exact ⟨_, rfl⟩

theorem cut_text {pattern : Text} (hne : pattern ≠ []) (h : UpTo pattern before) (rest : Text) :
    cut pattern (before ++ (pattern ++ rest)) = some (before, rest) :=
  (cut_eq_some hne).mpr ⟨rfl, h⟩

theorem endTag_text {inside : Text} {openTags : List Text} (h : '>' ∉ inside)
    (hopen : s.openTags = trim inside :: openTags) (rest : Text) :
    endTag s ('<' :: '/' :: (inside ++ '>' :: rest)) =
      .goes [.close] { s with declared := s.declared.tail, openTags := openTags } rest := by
  have hnot : '>' ∉ '<' :: '/' :: inside := by
    intro hmem
    have hinside : '>' ∈ inside := by simpa using hmem
    exact h hinside
  have hcut : cut ['>'] ('<' :: '/' :: (inside ++ '>' :: rest)) = some ('<' :: '/' :: inside, rest) :=
    cut_single hnot rest
  unfold endTag
  simp only [hcut, hopen, List.drop_succ_cons, List.drop_zero]
  rw [if_neg (by simp)]

theorem markup_text {piece : Piece} (hvalid : piece.Valid)
    (h : Takes charCode limits s piece events s') (rest : Text) :
    markup charCode limits s (piece.text ++ rest) = .goes events s' rest := by
  obtain ⟨hopen, hend, hxmlWord, hcomment, hcommentEnd, hcdata, hcdataEnd, -⟩ := delimiters
  cases h with
  | @declaration inside hdeclaration hroot =>
    obtain ⟨hxml, hupTo⟩ := hvalid
    have htext : (Piece.declaration inside).text ++ rest = ('<' :: '?' :: inside) ++ (['?', '>'] ++ rest) := by
      simp [Piece.text]
    have hcut := cut_text (by decide) hupTo rest
    unfold markup
    rw [hopen, hend, hxmlWord, htext, hcut]
    simp only [List.cons_append, List.isPrefixOf_cons_cons_self, List.isPrefixOf_nil_left, if_true,
      List.drop_succ_cons, List.drop_zero, List.isPrefixOf_iff_prefix.mpr hxml, hdeclaration, hroot]
    rfl
  | @comment behind =>
    obtain ⟨before, hbehind, hupTo⟩ := hvalid
    have htext : (Piece.comment behind).text ++ rest = before ++ (['-', '-', '>'] ++ rest) := by
      rw [← List.append_assoc, ← hbehind]
      rfl
    have hcut := cut_text (by decide) hupTo rest
    have hshape : (Piece.comment behind).text ++ rest = '<' :: '!' :: '-' :: '-' :: (behind ++ rest) := rfl
    unfold markup
    rw [hopen, hcomment, hcommentEnd]
    rw [if_neg (by rw [hshape]; simp), if_pos (by rw [hshape]; simp), htext, hcut]
  | @cdata inside =>
    have htext : (Piece.cdata inside).text ++ rest =
        (CDATA_OPEN ++ inside) ++ ([']', ']', '>'] ++ rest) := by
      simp [Piece.text]
    have hcut := cut_text (by decide) hvalid rest
    have hshape : (CDATA_OPEN ++ inside) ++ ([']', ']', '>'] ++ rest) =
        CDATA_OPEN ++ (inside ++ (']' :: ']' :: '>' :: rest)) := by
      simp
    unfold markup
    rw [hopen, hcomment, hcdata, hcdataEnd, htext]
    rw [if_neg (by rw [hshape]; simp [CDATA_OPEN]), if_neg (by rw [hshape]; simp [CDATA_OPEN]),
      if_pos (by rw [hshape]; simp [CDATA_OPEN]), hcut]
    rfl
  | @close inside openTags hopenTags =>
    have htext : (Piece.close inside).text ++ rest = '<' :: '/' :: (inside ++ '>' :: rest) := by
      simp [Piece.text]
    rw [htext, markup_endTag charCode limits, endTag_text hvalid hopenTags]
  | @start tag raws ns resolved hread hcount hdepth hns hresolved =>
    have hstart := startTag_text hvalid (.start hread hcount hdepth hns hresolved) rest
    obtain ⟨c, tail, htail, hc⟩ := WrittenTag.exists_head hvalid rest
    have htext : (Piece.start tag).text ++ rest = '<' :: (tag.text ++ rest) := rfl
    rw [htail] at hstart
    rw [htext, htail, markup_startTag charCode limits s, hstart]
    · exact fun h => absurd hc (by rw [h]; decide)
    · exact fun h => absurd hc (by rw [h]; decide)
    · exact fun h => absurd hc (by rw [h]; decide)

/-! ### A turn of the scan -/

theorem eq_text_append (input : Text) :
    ∃ text, '<' ∉ text ∧ input = text ++ (span (· != '<') input).2 ∧ (span (· != '<') input).1 = text ∧
      ∀ c ∈ (span (· != '<') input).2.head?, c = '<' := by
  refine ⟨input.takeWhile (· != '<'), ?_, List.takeWhile_append_dropWhile.symm, rfl, fun c hc => ?_⟩
  · intro hmem
    have hne := List.mem_takeWhile_imp hmem
    simp at hne
  · have hfalse := List.head?_dropWhile_not (· != '<') input
    have hhead : (input.dropWhile (· != '<')).head? = some c := hc
    rw [hhead] at hfalse
    simpa using hfalse

inductive TurnOf (charCode : Text → Option Int) (limits : Limits) (turns : Nat) (s : ScanState)
    (input : Text) : Prop
  | done (hinput : input = [])
    (h : scanFrom charCode limits (turns + 1) s input =
      ([], if s.openTags = [] then .finished else .truncated))
  | tail (hinput : input ≠ []) (htext : '<' ∉ input)
    (h : scanFrom charCode limits (turns + 1) s input = (textEvents input, .finished))
  | ends {text tail : Text} {ending : Ending} (htext : '<' ∉ text) (hinput : input = text ++ '<' :: tail)
    (hends : markup charCode limits s ('<' :: tail) = .ends ending)
    (h : scanFrom charCode limits (turns + 1) s input = (textEvents text, ending))
  | goes {text rest : Text} {piece : Piece} {events : List Event} {s' : ScanState} (htext : '<' ∉ text)
    (hinput : input = text ++ (piece.text ++ rest)) (hvalid : piece.Valid)
    (htakes : Takes charCode limits s piece events s')
    (h : scanFrom charCode limits (turns + 1) s input =
      after (textEvents text ++ events) (scanFrom charCode limits turns s' rest))

theorem turnOf (turns : Nat) (s : ScanState) (input : Text) : TurnOf charCode limits turns s input := by
  by_cases hempty : input = []
  · refine .done hempty ?_
    rw [scanFrom, if_pos hempty]
  obtain ⟨text, htext, hinput, hfirst, hhead⟩ := eq_text_append input
  cases hrest : (span (· != '<') input).2 with
  | nil =>
    rw [hrest, List.append_nil] at hinput
    subst hinput
    refine .tail hempty htext ?_
    rw [scanFrom, if_neg hempty]
    simp only [hfirst, hrest, if_true]
  | cons c tail =>
    have hc : c = '<' := hhead c (by rw [hrest]; rfl)
    subst hc
    rw [hrest] at hinput
    have hscan := scanFrom_text charCode limits turns s htext tail
    rw [scanFrom_markup] at hscan
    cases hmarkup : markup charCode limits s ('<' :: tail) with
    | ends ending =>
      refine .ends htext hinput hmarkup ?_
      rw [hinput, hscan, hmarkup]
      simp [after]
    | goes events s' rest =>
      obtain ⟨piece, hvalid, hpiece, htakes⟩ := text_of_markup hmarkup
      refine @TurnOf.goes _ _ _ _ _ text rest piece events s' htext ?_ hvalid htakes ?_
      · rw [hinput, hpiece]
      · rw [hinput, hscan, hmarkup]
        simp only [after_after]

theorem scanFrom_piece {text : Text} (htext : '<' ∉ text) {piece : Piece} (hvalid : piece.Valid)
    (htakes : Takes charCode limits s piece events s') (turns : Nat) (rest : Text) :
    scanFrom charCode limits (turns + 1) s (text ++ (piece.text ++ rest)) =
      after (textEvents text ++ events) (scanFrom charCode limits turns s' rest) := by
  obtain ⟨tail, htail⟩ := exists_text piece
  have hmarkup := markup_text hvalid htakes rest
  rw [htail, List.cons_append] at hmarkup
  rw [htail, List.cons_append, scanFrom_text charCode limits turns s htext, scanFrom_markup, hmarkup]
  simp only [after_after]

end

end Apim.Xml
