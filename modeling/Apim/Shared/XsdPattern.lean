import Apim.Shared.JsRegex

/-!
# XSD regular expressions

The pattern facet and its translation (`shared/xsd.ts:601-641`). An XSD expression is anchored at both
ends; `xsdPatternToJs` reads its text character by character and writes a JavaScript one. Where it knows
of no class it takes the mark of a negated class for a literal, and the class it writes for a name escape
closes the class the escape stands in.
-/

namespace Apim.XsdPattern
open Regex JsRegex

/-! ### The grammar -/

def isBlock (name : List Char) : Bool :=
  name.take 2 == ['I', 's'] && name.all fun c => c.isAlphanum || c == '-'

structure Property where
  name : List Char
  valid : isCategory name = true ∨ isBlock name = true
  deriving DecidableEq

inductive Escape where
  | space
  | initial
  | name
  | digit
  | word
  | property (p : Property)
  deriving DecidableEq

namespace Escape

def letter : Escape → Bool → Char
  | .space, negated => if negated then 'S' else 's'
  | .initial, negated => if negated then 'I' else 'i'
  | .name, negated => if negated then 'C' else 'c'
  | .digit, negated => if negated then 'D' else 'd'
  | .word, negated => if negated then 'W' else 'w'
  | .property _, negated => if negated then 'P' else 'p'

def suffix : Escape → List Char
  | .property p => '\x7b' :: (p.name ++ ['\x7d'])
  | _ => []

def text (e : Escape) (negated : Bool) : List Char := '\\' :: e.letter negated :: e.suffix

end Escape

def isNormal (c : Char) : Bool := !".\\?*+()|[]\x7b\x7d".toList.contains c

def isClassChar (c : Char) : Bool := !"\\-[]".toList.contains c

def isSingle (c : Char) : Bool := "nrt\\|.?*+()\x7b\x7d-[]^$".toList.contains c

def singleOf (c : Char) : Char :=
  if c = 'n' then '\n' else if c = 'r' then '\r' else if c = 't' then '\t' else c

inductive Single where
  | plain (c : Char) (h : isClassChar c = true)
  | escaped (c : Char) (h : isSingle c = true)
  deriving DecidableEq

namespace Single

def text : Single → List Char
  | .plain c _ => [c]
  | .escaped c _ => ['\\', c]

def char : Single → Char
  | .plain c _ => c
  | .escaped c _ => singleOf c

end Single

inductive Item where
  | single (c : Single)
  | range (low high : Single) (h : low.char ≤ high.char)
  | escape (e : Escape) (negated : Bool)
  deriving DecidableEq

def Item.text : Item → List Char
  | .single c => c.text
  | .range low high _ => low.text ++ '-' :: high.text
  | .escape e negated => e.text negated

/-- A class: items, between dashes that stand for themselves. A caret in front would negate it. -/
structure CharGroup where
  negated : Bool
  leading : Bool
  items : List Item
  trailing : Bool
  filled : leading = true ∨ items ≠ [] ∨ trailing = true
  caret : negated = false → leading = false → (items.flatMap Item.text).head? ≠ some '^'
  deriving DecidableEq

def dash (present : Bool) : List Char := if present then ['-'] else []

namespace CharGroup

def body (group : CharGroup) : List Char :=
  dash group.leading ++ (group.items.flatMap Item.text ++ dash group.trailing)

def text (group : CharGroup) : List Char :=
  '[' :: ((if group.negated then ['^'] else []) ++ (group.body ++ [']']))

end CharGroup

inductive Atom where
  | normal (c : Char) (h : isNormal c = true)
  | wildcard
  | single (c : Char) (h : isSingle c = true)
  | escape (e : Escape) (negated : Bool)
  | cls (group : CharGroup)
  deriving DecidableEq

def Atom.text : Atom → List Char
  | .normal c _ => [c]
  | .wildcard => ['.']
  | .single c _ => ['\\', c]
  | .escape e negated => e.text negated
  | .cls group => group.text

structure Digits where
  digits : List Char
  filled : digits ≠ []
  numeric : digits.all isDigit = true
  deriving DecidableEq

def Digits.value (n : Digits) : Nat := numberOf n.digits

inductive Quantifier where
  | once
  | optional
  | star
  | plus
  | exactly (n : Digits)
  | atLeast (n : Digits)
  | between (n m : Digits)
  deriving DecidableEq

namespace Quantifier

def text : Quantifier → List Char
  | .once => []
  | .optional => ['?']
  | .star => ['*']
  | .plus => ['+']
  | .exactly n => '\x7b' :: (n.digits ++ ['\x7d'])
  | .atLeast n => '\x7b' :: (n.digits ++ [',', '\x7d'])
  | .between n m => '\x7b' :: (n.digits ++ ',' :: (m.digits ++ ['\x7d']))

def times : Quantifier → Times
  | .once => Times.once
  | .optional => ⟨0, some 1⟩
  | .star => ⟨0, none⟩
  | .plus => ⟨1, none⟩
  | .exactly n => ⟨n.value, some n.value⟩
  | .atLeast n => ⟨n.value, none⟩
  | .between n m => ⟨n.value, some m.value⟩

end Quantifier

abbrev Expression := Pattern Atom Quantifier

def textOf (write : Atom → List Char) : Expression → List Char
  | .done => []
  | .bar rest => '|' :: textOf write rest
  | .item a often rest => write a ++ (often.text ++ textOf write rest)
  | .group inner often rest =>
    '(' :: (textOf write inner ++ ')' :: (often.text ++ textOf write rest))

def text (p : Expression) : List Char := textOf Atom.text p

/-! ### What an expression means -/

/-- The characters of the escapes, which the specification takes from the tables of Unicode. -/
structure Tables where
  initial : Char → Bool
  name : Char → Bool
  digit : Char → Bool
  word : Char → Bool
  property : Properties

section
variable (tables : Tables)

def Escape.has : Escape → Char → Bool
  | .space, c => c == ' ' || c == '\t' || c == '\n' || c == '\r'
  | .initial, c => tables.initial c
  | .name, c => tables.name c
  | .digit, c => tables.digit c
  | .word, c => tables.word c
  | .property p, c => tables.property p.name c

def Item.has : Item → Char → Bool
  | .single d, c => c == d.char
  | .range low high _, c => decide (low.char ≤ c ∧ c ≤ high.char)
  | .escape e negated, c => e.has tables c != negated

def CharGroup.has (group : CharGroup) (c : Char) : Bool :=
  ((group.leading || group.trailing) && c == '-' || group.items.any fun item => item.has tables c) !=
    group.negated

def Atom.has : Atom → Char → Bool
  | .normal d _, c => c == d
  | .wildcard, c => !(c == '\n' || c == '\r')
  | .single d _, c => c == singleOf d
  | .escape e negated, c => e.has tables c != negated
  | .cls group, c => group.has tables c

def Atom.word (a : Atom) : Language Char := {word | ∃ c, word = [c] ∧ a.has tables c = true}

def lang (p : Expression) : Language Char := p.lang (Atom.word tables) Quantifier.times

end

/-! ### The translation -/

structure XsdUnsupported where
  construct : String
  place : String
  deriving DecidableEq, Repr

/-- What the switch writes for a backslash and the character after it (`shared/xsd.ts:611-627`). -/
def escaped (next : Char) : List Char :=
  if next = 'i' then "[A-Za-z_:]".toList
  else if next = 'I' then "[^A-Za-z_:]".toList
  else if next = 'c' then "[A-Za-z0-9_:.\\-]".toList
  else if next = 'C' then "[^A-Za-z0-9_:.\\-]".toList
  else ['\\', next]

def literal (c : Char) : List Char := if c = '^' ∨ c = '$' then ['\\', c] else [c]

def translate (place : String) : List Char → Except XsdUnsupported (List Char)
  | [] => .ok []
  | [c] => if c = '\\' then .error ⟨"pattern", place⟩ else .ok (literal c)
  | c :: next :: rest =>
    if c = '\\' then (translate place rest).map fun out => escaped next ++ out
    else (translate place (next :: rest)).map fun out => literal c ++ out

/-- `xsdPatternToJs` (`shared/xsd.ts:606-641`). -/
def xsdPatternToJs (pattern : List Char) (place : String) : Except XsdUnsupported (List Char) :=
  (translate place pattern).map fun out => "^(?:".toList ++ (out ++ ")$".toList)

/-! ### What the translation writes -/

def Single.js : Single → List Char
  | .plain c _ => literal c
  | .escaped c _ => ['\\', c]

def Item.js : Item → List Char
  | .single c => c.js
  | .range low high _ => low.js ++ '-' :: high.js
  | .escape e negated => escaped (e.letter negated) ++ e.suffix

def CharGroup.js (group : CharGroup) : List Char :=
  '[' :: ((if group.negated then ['\\', '^'] else []) ++
    (dash group.leading ++ (group.items.flatMap Item.js ++ dash group.trailing) ++ [']']))

def Atom.js : Atom → List Char
  | .normal c _ => literal c
  | .wildcard => ['.']
  | .single c _ => ['\\', c]
  | .escape e negated => escaped (e.letter negated) ++ e.suffix
  | .cls group => group.js

theorem Property.name_char (p : Property) {c : Char} (hc : c ∈ p.name) :
    (c ≠ '\\' ∧ c ≠ '^' ∧ c ≠ '$') ∧ c ≠ '\x7d' := by
  have halphanum : c.isAlphanum = true ∨ c = '-' := by
    rcases p.valid with hcategory | hblock
    · have hmem : String.ofList p.name ∈ CATEGORIES := List.contains_iff_mem.mp hcategory
      have hall : ∀ name ∈ CATEGORIES, name.toList.all Char.isAlphanum = true := by decide +kernel
      have hname := hall _ hmem
      rw [String.toList_ofList] at hname
      exact Or.inl (List.all_eq_true.mp hname c hc)
    · have hname := List.all_eq_true.mp (Bool.and_eq_true_iff.mp hblock).2 c hc
      rw [Bool.or_eq_true, beq_iff_eq] at hname
      exact hname
  refine ⟨⟨?_, ?_, ?_⟩, ?_⟩ <;>
    (rintro rfl
     rcases halphanum with h | h <;> cases h)

def Carried (text js : List Char) : Prop :=
  ∀ place rest, translate place (text ++ rest) = (translate place rest).map fun out => js ++ out

namespace Carried

theorem nil : Carried [] [] := by
  intro place rest
  rw [List.nil_append]
  cases translate place rest <;> rfl

theorem append {text js more others : List Char} (h : Carried text js) (hmore : Carried more others) :
    Carried (text ++ more) (js ++ others) := by
  intro place rest
  rw [List.append_assoc, h, hmore]
  cases translate place rest with
  | error fault => rfl
  | ok out =>
    show Except.ok (js ++ (others ++ out)) = Except.ok (js ++ others ++ out)
    rw [List.append_assoc]

theorem plain {c : Char} (hslash : c ≠ '\\') : Carried [c] (literal c) := by
  intro place rest
  cases rest with
  | nil =>
    have hone : translate place [c] = .ok (literal c) := by rw [translate, if_neg hslash]
    have hnone : translate place [] = .ok [] := rfl
    rw [List.append_nil, hone, hnone]
    show Except.ok (literal c) = Except.ok (literal c ++ [])
    rw [List.append_nil]
  | cons d more => rw [List.singleton_append, translate, if_neg hslash]

theorem slash (c : Char) : Carried ['\\', c] (escaped c) := by
  intro place rest
  rw [List.cons_append, List.singleton_append, translate, if_pos rfl]

theorem char {c : Char} (hslash : c ≠ '\\') (hcaret : c ≠ '^') (hdollar : c ≠ '$') : Carried [c] [c] := by
  have hplain := plain hslash
  rwa [literal, if_neg (by simp [hcaret, hdollar])] at hplain

theorem cons {c : Char} (hslash : c ≠ '\\') (hcaret : c ≠ '^') (hdollar : c ≠ '$')
    {text js : List Char} (h : Carried text js) : Carried (c :: text) (c :: js) :=
  (char hslash hcaret hdollar).append h

theorem flatMap {α : Type} {text js : α → List Char} (items : List α)
    (h : ∀ item, Carried (text item) (js item)) : Carried (items.flatMap text) (items.flatMap js) := by
  induction items with
  | nil => exact nil
  | cons item rest ih =>
    rw [List.flatMap_cons, List.flatMap_cons]
    exact (h item).append ih

theorem chars {text : List Char} (h : ∀ c ∈ text, c ≠ '\\' ∧ c ≠ '^' ∧ c ≠ '$') : Carried text text := by
  induction text with
  | nil => exact nil
  | cons c rest ih =>
    obtain ⟨hslash, hcaret, hdollar⟩ := h c List.mem_cons_self
    exact cons hslash hcaret hdollar (ih fun d hd => h d (List.mem_cons_of_mem c hd))

theorem digits (n : Digits) : Carried n.digits n.digits := by
  refine chars fun c hc => ?_
  have hdigit := List.all_eq_true.mp n.numeric c hc
  refine ⟨?_, ?_, ?_⟩ <;> (rintro rfl; cases hdigit)

theorem quantifier (q : Quantifier) : Carried q.text q.text := by
  have hclose : Carried ['\x7d'] ['\x7d'] := char (by decide) (by decide) (by decide)
  have hopen : ∀ {text : List Char}, Carried text text → Carried ('\x7b' :: text) ('\x7b' :: text) :=
    fun h => cons (by decide) (by decide) (by decide) h
  have hcomma : ∀ {text : List Char}, Carried text text → Carried (',' :: text) (',' :: text) :=
    fun h => cons (by decide) (by decide) (by decide) h
  cases q with
  | once => exact nil
  | optional => exact char (by decide) (by decide) (by decide)
  | star => exact char (by decide) (by decide) (by decide)
  | plus => exact char (by decide) (by decide) (by decide)
  | exactly n => exact hopen ((digits n).append hclose)
  | atLeast n => exact hopen ((digits n).append (hcomma hclose))
  | between n m => exact hopen ((digits n).append (hcomma ((digits m).append hclose)))

theorem escape (e : Escape) (negated : Bool) :
    Carried (e.text negated) (escaped (e.letter negated) ++ e.suffix) := by
  refine (slash (e.letter negated)).append ?_
  cases e with
  | property p =>
    have hname := @chars p.name fun c hc => (p.name_char hc).1
    exact cons (by decide) (by decide) (by decide)
      (hname.append (char (by decide) (by decide) (by decide)))
  | _ => exact nil

theorem single {c : Char} (h : isSingle c = true) : Carried ['\\', c] ['\\', c] := by
  have hslash := slash c
  have hne : c ≠ 'i' ∧ c ≠ 'I' ∧ c ≠ 'c' ∧ c ≠ 'C' := by
    refine ⟨?_, ?_, ?_, ?_⟩ <;> (rintro rfl; exact absurd h (by decide))
  rwa [escaped, if_neg hne.1, if_neg hne.2.1, if_neg hne.2.2.1, if_neg hne.2.2.2] at hslash

theorem ofSingle (c : Single) : Carried c.text c.js := by
  cases c with
  | plain c h =>
    refine plain ?_
    rintro rfl
    exact absurd h (by decide)
  | escaped c h => exact single h

theorem item (item : Item) : Carried item.text item.js := by
  cases item with
  | single c => exact ofSingle c
  | range low high h =>
    exact (ofSingle low).append (cons (by decide) (by decide) (by decide) (ofSingle high))
  | escape e negated => exact escape e negated

theorem dash (present : Bool) : Carried (XsdPattern.dash present) (XsdPattern.dash present) := by
  cases present with
  | false => exact nil
  | true => exact char (by decide) (by decide) (by decide)

theorem group (group : CharGroup) : Carried group.text group.js := by
  have hbody := (dash group.leading).append
    ((flatMap group.items item).append (dash group.trailing))
  have hclose : Carried [']'] [']'] := char (by decide) (by decide) (by decide)
  have hcaret : Carried (if group.negated then ['^'] else [])
      (if group.negated then ['\\', '^'] else []) := by
    cases group.negated with
    | false => exact nil
    | true => exact plain (by decide)
  exact cons (by decide) (by decide) (by decide) (hcaret.append (hbody.append hclose))

theorem atom (a : Atom) : Carried a.text a.js := by
  cases a with
  | normal c h =>
    refine plain ?_
    rintro rfl
    exact absurd h (by decide)
  | wildcard => exact char (by decide) (by decide) (by decide)
  | single c h => exact single h
  | escape e negated => exact escape e negated
  | cls g => exact group g

theorem expression (p : Expression) : Carried (text p) (textOf Atom.js p) := by
  induction p with
  | done => exact nil
  | bar rest ih => exact cons (by decide) (by decide) (by decide) ih
  | item a often rest ih => exact (atom a).append ((quantifier often).append ih)
  | group inner often rest ihinner ih =>
    have hclose := cons (c := ')') (by decide) (by decide) (by decide) ((quantifier often).append ih)
    exact cons (by decide) (by decide) (by decide) (ihinner.append hclose)

end Carried

theorem xsdPatternToJs_text (p : Expression) (place : String) :
    xsdPatternToJs (text p) place = .ok ("^(?:".toList ++ (textOf Atom.js p ++ ")$".toList)) := by
  have hcarried := Carried.expression p place []
  rw [List.append_nil] at hcarried
  rw [xsdPatternToJs, hcarried, translate]
  show Except.ok ("^(?:".toList ++ (textOf Atom.js p ++ [] ++ ")$".toList)) = _
  rw [List.append_nil]

example : (xsdPatternToJs "\\d+|a^b\\C".toList "").toOption =
    some "^(?:\\d+|a\\^b[^A-Za-z0-9_:.\\-])$".toList := by decide +kernel

end Apim.XsdPattern
