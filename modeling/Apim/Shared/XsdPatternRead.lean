import Apim.Shared.Letters
import Apim.Shared.XsdPattern

/-!
# What JavaScript makes of a schema expression

The source `xsdPatternToJs` writes is read back item by item (`terms_text`), so it compiles and matches
what the schema says (`compiles_and_matches`) unless it has a negated class, whose answers are the other
way round (`negated_opposite`), a name escape in a class or an escaped dash outside one.
-/

namespace Apim.XsdPattern
open Regex JsRegex

/-! ### What JavaScript reads -/

def Escape.items : Escape → List Item
  | .initial => [.range (.plain 'A' rfl) (.plain 'Z' rfl) (by decide),
      .range (.plain 'a' rfl) (.plain 'z' rfl) (by decide), .single (.plain '_' rfl),
      .single (.plain ':' rfl)]
  | .name => [.range (.plain 'A' rfl) (.plain 'Z' rfl) (by decide),
      .range (.plain 'a' rfl) (.plain 'z' rfl) (by decide),
      .range (.plain '0' rfl) (.plain '9' rfl) (by decide), .single (.plain '_' rfl),
      .single (.plain ':' rfl), .single (.plain '.' rfl), .single (.escaped '-' rfl)]
  | _ => []

def Escape.kind : Escape → Option Kind
  | .space => some .space
  | .digit => some .digit
  | .word => some .word
  | .property p => if isCategory p.name then some (.property p.name) else none
  | _ => none

def Item.read : Item → List ClassItem
  | .single c => [.one c.char]
  | .range low high _ => [.range low.char high.char]
  | .escape e negated => (e.kind.map fun kind => ClassItem.escape kind negated).toList

def readDash (present : Bool) : List ClassItem := if present then [.one '-'] else []

def Atom.read : Atom → Term
  | .normal c _ => .char c
  | .wildcard => .dot
  | .single c _ => .char (singleOf c)
  | .escape e negated =>
    match e.kind with
    | some kind => .escape kind negated
    | none => .cls negated (e.items.flatMap Item.read)
  | .cls group =>
    .cls false (readDash group.leading ++ (group.items.flatMap Item.read ++ readDash group.trailing))

def Escape.Known : Escape → Prop
  | .property p => isCategory p.name = true
  | _ => True

def Item.Plain : Item → Prop
  | .escape e _ => e.kind.isSome = true
  | _ => True

/-- No dash escaped outside a class, no negated class, no name escape in a class and no block. -/
def Atom.Plain : Atom → Prop
  | .single c _ => c ≠ '-'
  | .escape e _ => e.Known
  | .cls group => group.negated = false ∧ ∀ item ∈ group.items, item.Plain
  | _ => True

def Quantifier.Ordered : Quantifier → Prop
  | .between n m => n.value ≤ m.value
  | _ => True

theorem Single.js_cons (c : Single) : ∃ d rest, c.js = d :: rest ∧ d ≠ '-' ∧ d ≠ ']' ∧ d ≠ '^' := by
  cases c with
  | escaped c h => exact ⟨'\\', [c], rfl, by decide, by decide, by decide⟩
  | plain c h =>
    rw [Single.js, literal]
    split
    · exact ⟨'\\', [c], rfl, by decide, by decide, by decide⟩
    · next hanchor =>
      refine ⟨c, [], rfl, ?_, ?_, fun hcaret => hanchor (Or.inl hcaret)⟩
      · rintro rfl
        exact absurd h (by decide)
      · rintro rfl
        exact absurd h (by decide)

variable {c : Char}

theorem charEscape_single (h : isSingle c = true) : charEscape true c = .ok (.char (singleOf c)) := by
  have hmem : c ∈ "nrt\\|.?*+()\x7b\x7d-[]^$".toList := List.contains_iff_mem.mp h
  have hlist : "nrt\\|.?*+()\x7b\x7d-[]^$".toList = ['n', 'r', 't', '\\', '|', '.', '?', '*', '+', '(',
      ')', '\x7b', '\x7d', '-', '[', ']', '^', '$'] := by decide
  rw [hlist] at hmem
  simp only [List.mem_cons, List.not_mem_nil, or_false] at hmem
  rcases hmem with rfl | rfl | rfl | rfl | rfl | rfl | rfl | rfl | rfl | rfl | rfl | rfl | rfl | rfl |
    rfl | rfl | rfl | rfl <;> decide

theorem charEscape_single_outside (h : isSingle c = true) (hdash : c ≠ '-') :
    charEscape false c = .ok (.char (singleOf c)) := by
  have hin := charEscape_single h
  unfold charEscape at hin ⊢
  simp only [Bool.false_eq_true, false_and, or_false, true_and, hdash] at hin ⊢
  exact hin

theorem escapeOf_char {inClass : Bool} {value : Escaped} (hlower : c ≠ 'p') (hupper : c ≠ 'P')
    (h : charEscape inClass c = .ok value) (rest : List Char) :
    escapeOf inClass c rest = .ok (value, rest) := by
  rw [escapeOf, if_neg hlower, if_neg hupper, h]
  rfl

theorem ne_of_single (h : isSingle c = true) : c ≠ 'p' ∧ c ≠ 'P' := by
  constructor <;> (rintro rfl; exact absurd h (by decide))

theorem escapeOf_single (h : isSingle c = true) (rest : List Char) :
    escapeOf true c rest = .ok (.char (singleOf c), rest) :=
  escapeOf_char (ne_of_single h).1 (ne_of_single h).2 (charEscape_single h) rest

theorem propertyEscape_category {p : Property} (h : isCategory p.name = true) (negated : Bool)
    (rest : List Char) :
    propertyEscape negated ((Escape.property p).suffix ++ rest) =
      .ok (.set (.property p.name) negated, rest) := by
  have htext : (Escape.property p).suffix ++ rest = '\x7b' :: (p.name ++ '\x7d' :: rest) := by
    rw [Escape.suffix, List.cons_append, List.append_assoc, List.singleton_append]
  have hinside : ∀ c ∈ p.name, (c != '\x7d') = true := fun c hc =>
    bne_iff_ne.mpr (p.name_char hc).2
  have htake : (p.name ++ '\x7d' :: rest).takeWhile (· != '\x7d') = p.name := by
    rw [List.takeWhile_append_of_pos hinside, List.takeWhile_cons_of_neg (by decide), List.append_nil]
  have hdrop : (p.name ++ '\x7d' :: rest).dropWhile (· != '\x7d') = '\x7d' :: rest := by
    rw [List.dropWhile_append_of_pos hinside, List.dropWhile_cons_of_neg (by decide)]
  rw [htext]
  simp only [propertyEscape, ne_eq, not_true, if_false, htake, hdrop, h, if_true]

variable {e : Escape}

theorem escape_of_kind {kind : Kind} (h : e.kind = some kind) (negated : Bool) :
    escaped (e.letter negated) = ['\\', e.letter negated] ∧
      ∀ inClass rest, escapeOf inClass (e.letter negated) (e.suffix ++ rest) =
        .ok (.set kind negated, rest) := by
  cases e with
  | initial => cases h
  | name => cases h
  | space => cases h; cases negated <;> exact ⟨by decide, fun inClass rest => rfl⟩
  | digit => cases h; cases negated <;> exact ⟨by decide, fun inClass rest => rfl⟩
  | word => cases h; cases negated <;> exact ⟨by decide, fun inClass rest => rfl⟩
  | property p =>
    rw [Escape.kind] at h
    split at h
    · next hcategory =>
      cases h
      cases negated with
      | false =>
        refine ⟨rfl, fun inClass rest => ?_⟩
        show escapeOf inClass 'p' _ = _
        rw [escapeOf, if_pos rfl, propertyEscape_category hcategory]
      | true =>
        refine ⟨rfl, fun inClass rest => ?_⟩
        show escapeOf inClass 'P' _ = _
        rw [escapeOf, if_neg (by decide), if_pos rfl, propertyEscape_category hcategory]
    · cases h

theorem classAtom_escape {kind : Kind} (h : e.kind = some kind) (negated : Bool) (rest : List Char) :
    classAtom (escaped (e.letter negated) ++ e.suffix ++ rest) = .ok (.set kind negated, rest) := by
  rw [(escape_of_kind h negated).1, List.append_assoc, List.cons_append, List.singleton_append, classAtom,
    if_pos rfl, (escape_of_kind h negated).2]

theorem classAtom_single (c : Single) (rest : List Char) :
    classAtom (c.js ++ rest) = .ok (.char c.char, rest) := by
  have hslash : ∀ {d : Char}, isSingle d = true →
      classAtom (['\\', d] ++ rest) = .ok (.char (singleOf d), rest) := by
    intro d hd
    rw [List.cons_append, List.singleton_append, classAtom, if_pos rfl, escapeOf_single hd]
  cases c with
  | escaped c h => exact hslash h
  | plain c h =>
    rw [Single.js, literal]
    split
    · next hanchor =>
      rcases hanchor with rfl | rfl
      · exact hslash (by decide)
      · exact hslash (by decide)
    · have hne : c ≠ '\\' := by
        rintro rfl
        exact absurd h (by decide)
      cases rest with
      | nil => rw [List.append_nil, classAtom, if_neg hne]; rfl
      | cons d more => rw [List.singleton_append, classAtom, if_neg hne]; rfl

theorem classItems_close (fuel : Nat) (rest : List Char) :
    classItems (fuel + 1) (']' :: rest) = .ok ([], rest) := by
  rw [classItems, if_pos List.head?_cons]
  rfl

def NoRange (rest : List Char) : Prop := ¬(rest.head? = some '-' ∧ rest.tail.head? ≠ some ']')

variable {fuel : Nat} {input rest : List Char}

theorem classItems_one {after : List Char} {a : Escaped} {items : List ClassItem}
    (hopen : input.head? ≠ some ']') (hatom : classAtom input = .ok (a, rest)) (hrange : NoRange
      rest) (hrest : classItems fuel rest = .ok (items, after))  :
    classItems (fuel + 1) input = .ok (a.item :: items, after) := by
  rw [classItems, if_neg hopen, hatom]
  show (if rest.head? = some '-' ∧ rest.tail.head? ≠ some ']' then _ else _) = _
  rw [if_neg hrange, hrest]
  rfl

theorem classItems_range {more after : List Char} {low high : Char} {items : List ClassItem}
    (hopen : input.head? ≠ some ']') (hlow : classAtom input = .ok (.char low, '-' :: rest)) (hgoes
      : rest.head? ≠ some ']') (hhigh : classAtom rest = .ok (.char high,
      more)) (hle : low ≤ high) (hrest : classItems fuel more = .ok (items, after))  :
    classItems (fuel + 1) input = .ok (.range low high :: items, after) := by
  rw [classItems, if_neg hopen, hlow]
  show (if ('-' :: rest).head? = some '-' ∧ rest.head? ≠ some ']' then _ else _) = _
  rw [if_pos ⟨rfl, hgoes⟩]
  show (classAtom rest >>= _) = _
  rw [hhigh]
  show (rangeOf (.char low) (.char high) >>= _) = _
  rw [rangeOf, if_pos hle]
  show (classItems fuel more >>= _) = _
  rw [hrest]
  rfl

def closing (trailing : Bool) (rest : List Char) : List Char := dash trailing ++ ']' :: rest

theorem head_js (item : Item) (h : item.Plain) :
    ∃ d rest, item.js = d :: rest ∧ d ≠ '-' ∧ d ≠ ']' ∧ d ≠ '^' := by
  cases item with
  | single c => exact c.js_cons
  | range low high _ =>
    obtain ⟨d, rest, hjs, hd⟩ := low.js_cons
    exact ⟨d, rest ++ '-' :: high.js, by rw [Item.js, hjs, List.cons_append], hd⟩
  | escape e negated =>
    obtain ⟨kind, hkind⟩ := Option.isSome_iff_exists.mp h
    refine ⟨'\\', e.letter negated :: e.suffix, ?_, by decide, by decide, by decide⟩
    rw [Item.js, (escape_of_kind hkind negated).1]
    rfl

variable {items : List Item}

theorem noRange_items (h : ∀ item ∈ items, item.Plain) (trailing : Bool) (rest : List Char) :
    NoRange (items.flatMap Item.js ++ closing trailing rest) := by
  rintro ⟨hdash, hmore⟩
  cases items with
  | nil =>
    cases trailing with
    | false => cases hdash
    | true => exact hmore rfl
  | cons item others =>
    obtain ⟨d, more, hjs, hne, -, -⟩ := head_js item (h item List.mem_cons_self)
    rw [List.flatMap_cons, hjs, List.cons_append, List.cons_append] at hdash
    exact hne (Option.some.inj hdash)

theorem head_append {item : Item} (h : item.Plain) (rest : List Char) :
    (item.js ++ rest).head? ≠ some ']' := by
  obtain ⟨d, more, hjs, -, hne, -⟩ := head_js item h
  rw [hjs, List.cons_append]
  exact fun hhead => hne (Option.some.inj hhead)

theorem classItems_closing (trailing : Bool) (rest : List Char)
    (hfuel : (dash trailing).length < fuel) :
    classItems fuel (closing trailing rest) = .ok (readDash trailing, rest) := by
  obtain ⟨left, rfl⟩ : ∃ left, fuel = left + 1 := ⟨fuel - 1, by omega⟩
  cases trailing with
  | false => exact classItems_close left rest
  | true =>
    obtain ⟨less, rfl⟩ : ∃ less, left = less + 1 := ⟨left - 1, by
      have hone : (dash true).length = 1 := rfl
      omega⟩
    exact classItems_one (a := .char '-') nofun rfl nofun (classItems_close less rest)

theorem classItems_items (h : ∀ item ∈ items, item.Plain) (trailing : Bool) (rest : List Char)
    (hfuel : items.length + (dash trailing).length < fuel) :
    classItems fuel (items.flatMap Item.js ++ closing trailing rest) =
      .ok (items.flatMap Item.read ++ readDash trailing, rest) := by
  induction items generalizing fuel with
  | nil =>
    rw [List.length_nil, Nat.zero_add] at hfuel
    exact classItems_closing trailing rest hfuel
  | cons item others ih =>
    have hothers : ∀ other ∈ others, other.Plain := fun other hother =>
      h other (List.mem_cons_of_mem item hother)
    have hplain := h item List.mem_cons_self
    rw [List.length_cons] at hfuel
    obtain ⟨left, rfl⟩ : ∃ left, fuel = left + 1 := ⟨fuel - 1, by omega⟩
    have hleft : others.length + (dash trailing).length < left := by omega
    have hrest := ih hothers hleft
    have hrange := noRange_items hothers trailing rest
    have hopen := head_append hplain (others.flatMap Item.js ++ closing trailing rest)
    rw [List.flatMap_cons, List.flatMap_cons, List.append_assoc, List.append_assoc]
    cases item with
    | single c => exact classItems_one hopen (classAtom_single c _) hrange hrest
    | range low high hle =>
      obtain ⟨d, more, hjs, -, hne, -⟩ := high.js_cons
      rw [Item.js, List.append_assoc, List.cons_append] at hopen ⊢
      refine classItems_range hopen (classAtom_single low _) ?_ (classAtom_single high _) hle hrest
      rw [hjs, List.cons_append]
      exact fun hhead => hne (Option.some.inj hhead)
    | escape e negated =>
      obtain ⟨kind, hkind⟩ := Option.isSome_iff_exists.mp hplain
      have hone := classItems_one hopen (classAtom_escape hkind negated _) hrange hrest
      rwa [Item.read, hkind]

theorem length_items (h : ∀ item ∈ items, item.Plain) :
    items.length ≤ (items.flatMap Item.js).length := by
  induction items with
  | nil => exact Nat.le_refl 0
  | cons item others ih =>
    obtain ⟨d, more, hjs, -⟩ := head_js item (h item List.mem_cons_self)
    have hothers := ih fun other hother => h other (List.mem_cons_of_mem item hother)
    rw [List.flatMap_cons, List.length_append, List.length_cons, hjs, List.length_cons]
    omega

theorem classItems_body (h : ∀ item ∈ items, item.Plain) (leading trailing : Bool)
    (rest : List Char)
    (hfuel : (dash leading).length + (items.length + (dash trailing).length) < fuel) :
    classItems fuel (dash leading ++ (items.flatMap Item.js ++ closing trailing rest)) =
      .ok (readDash leading ++ (items.flatMap Item.read ++ readDash trailing), rest) := by
  cases leading with
  | false => exact classItems_items h trailing rest (by omega)
  | true =>
    have hone : (dash true).length = 1 := rfl
    obtain ⟨left, rfl⟩ : ∃ left, fuel = left + 1 := ⟨fuel - 1, by omega⟩
    have hleft : items.length + (dash trailing).length < left := by omega
    have hrest := classItems_items h trailing rest hleft
    have hrange := noRange_items h trailing rest
    refine classItems_one (a := .char '-') nofun ?_ hrange hrest
    show classAtom ('-' :: (items.flatMap Item.js ++ closing trailing rest)) = _
    cases hafter : items.flatMap Item.js ++ closing trailing rest with
    | nil => rfl
    | cons d more => rfl

/-! ### Terms -/

theorem term_class {items : List ClassItem} (hcaret : input.head? ≠ some '^')
    (h : classItems (input.length + 1) input = .ok (items, rest)) :
    term ('[' :: input) = .ok (.cls false items, rest) := by
  rw [term, if_neg (by decide), if_neg (by decide), if_pos rfl, classTerm, if_neg hcaret, h]
  rfl

theorem term_negated {items : List ClassItem}
    (h : classItems (input.length + 1) input = .ok (items, rest)) :
    term ('[' :: '^' :: input) = .ok (.cls true items, rest) := by
  rw [term, if_neg (by decide), if_neg (by decide), if_pos rfl, classTerm, if_pos List.head?_cons,
    List.tail_cons, List.length_cons, h]
  rfl

theorem escaped_of_items (hknown : e.Known) (h : e.kind = none) (negated : Bool) :
    escaped (e.letter negated) ++ e.suffix = '[' :: ((if negated then ['^'] else []) ++
      (e.items.flatMap Item.js ++ [']'])) ∧ ∀ item ∈ e.items, item.Plain := by
  cases e with
  | space => cases h
  | digit => cases h
  | word => cases h
  | property p =>
    have hcategory : isCategory p.name = true := hknown
    rw [Escape.kind, if_pos hcategory] at h
    cases h
  | initial =>
    refine ⟨by cases negated <;> decide, fun item hitem => ?_⟩
    simp only [Escape.items, List.mem_cons, List.not_mem_nil, or_false] at hitem
    rcases hitem with rfl | rfl | rfl | rfl <;> trivial
  | name =>
    refine ⟨by cases negated <;> decide, fun item hitem => ?_⟩
    simp only [Escape.items, List.mem_cons, List.not_mem_nil, or_false] at hitem
    rcases hitem with rfl | rfl | rfl | rfl | rfl | rfl | rfl <;> trivial

def bodyJs (leading : Bool) (items : List Item) (trailing : Bool) (rest : List Char) : List Char :=
  dash leading ++ (items.flatMap Item.js ++ closing trailing rest)

theorem classItems_bodyJs (h : ∀ item ∈ items, item.Plain) (leading trailing : Bool)
    (rest : List Char) :
    classItems ((bodyJs leading items trailing rest).length + 1) (bodyJs leading items trailing rest) =
      .ok (readDash leading ++ (items.flatMap Item.read ++ readDash trailing), rest) := by
  refine classItems_body h leading trailing rest ?_
  have hitems := length_items h
  rw [bodyJs, List.length_append, List.length_append, closing, List.length_append, List.length_cons]
  omega

theorem head_bodyJs (h : ∀ item ∈ items, item.Plain) (leading trailing : Bool) (rest : List Char) :
    (bodyJs leading items trailing rest).head? ≠ some '^' := by
  cases leading with
  | true => nofun
  | false =>
    cases items with
    | nil => cases trailing <;> nofun
    | cons item others =>
      obtain ⟨d, more, hjs, -, -, hne⟩ := head_js item (h item List.mem_cons_self)
      rw [bodyJs, List.flatMap_cons, hjs]
      exact fun hhead => hne (Option.some.inj hhead)

theorem normal_of_isSyntax (h : isSyntax c = true) (hslash : c ≠ '/')
    (hanchor : ¬(c = '^' ∨ c = '$')) : isNormal c = false := by
  have hmem : c ∈ "^$\\.*+?()[]\x7b\x7d|/".toList := List.contains_iff_mem.mp h
  have hlist : "^$\\.*+?()[]\x7b\x7d|/".toList = ['^', '$', '\\', '.', '*', '+', '?', '(', ')', '[',
      ']', '\x7b', '\x7d', '|', '/'] := by decide
  rw [hlist] at hmem
  simp only [List.mem_cons, List.not_mem_nil, or_false] at hmem
  rcases hmem with hc | hc | rfl | rfl | rfl | rfl | rfl | rfl | rfl | rfl | rfl | rfl | rfl | rfl | hc
  · exact absurd (Or.inl hc) hanchor
  · exact absurd (Or.inr hc) hanchor
  all_goals first | decide | exact absurd hc hslash

theorem term_escape {d : Char} {value : Escaped} (h : escapeOf false d input = .ok (value, rest)) :
    term ('\\' :: d :: input) = .ok (value.term, rest) := by
  rw [term, if_neg (by decide), if_pos rfl, escapedTerm, h]
  rfl

theorem term_atom {a : Atom} (h : a.Plain) (rest : List Char) :
    term (a.js ++ rest) = .ok (a.read, rest) := by
  cases a with
  | wildcard => rfl
  | single c hc =>
    exact term_escape (escapeOf_char (ne_of_single hc).1 (ne_of_single hc).2
      (charEscape_single_outside hc h) rest)
  | normal c hc =>
    rw [Atom.js, literal]
    split
    · next hanchor =>
      rcases hanchor with rfl | rfl
      · exact term_escape (show escapeOf false '^' rest = .ok (.char '^', rest) from rfl)
      · exact term_escape (show escapeOf false '$' rest = .ok (.char '$', rest) from rfl)
    · next hanchor =>
      have hne : c ≠ '.' ∧ c ≠ '\\' ∧ c ≠ '[' := by
        refine ⟨?_, ?_, ?_⟩ <;> (rintro rfl; exact absurd hc (by decide))
      have hsyntax : ¬(isSyntax c = true ∧ c ≠ '/') := by
        rintro ⟨hmem, hother⟩
        exact absurd hc (by rw [normal_of_isSyntax hmem hother hanchor]; exact Bool.false_ne_true)
      rw [List.singleton_append, term, if_neg hne.1, if_neg hne.2.1, if_neg hne.2.2, if_neg hsyntax]
      rfl
  | escape e negated =>
    rw [Atom.js, Atom.read]
    cases hkind : e.kind with
    | some kind =>
      rw [(escape_of_kind hkind negated).1, List.append_assoc]
      exact term_escape ((escape_of_kind hkind negated).2 false rest)
    | none =>
      obtain ⟨hjs, hplain⟩ := escaped_of_items h hkind negated
      have hread := classItems_bodyJs hplain false false rest
      rw [show readDash false = [] from rfl, List.nil_append, List.append_nil] at hread
      have htext : escaped (e.letter negated) ++ e.suffix ++ rest =
          '[' :: ((if negated then ['^'] else []) ++ bodyJs false e.items false rest) := by
        rw [hjs, List.cons_append, List.append_assoc, List.append_assoc]
        rfl
      rw [htext]
      cases negated with
      | false => exact term_class (head_bodyJs hplain false false rest) hread
      | true => exact term_negated hread
  | cls group =>
    obtain ⟨hnegated, hplain⟩ := h
    have htext : group.js ++ rest = '[' :: bodyJs group.leading group.items group.trailing rest := by
      rw [CharGroup.js, hnegated, List.cons_append, List.append_assoc, List.append_assoc,
        List.append_assoc, List.append_assoc]
      rfl
    rw [Atom.js, htext]
    exact term_class (head_bodyJs hplain _ _ rest) (classItems_bodyJs hplain _ _ rest)

/-! ### Quantifiers -/

def NoQuantifier (rest : List Char) : Prop :=
  ∀ c ∈ rest.head?, c ≠ '*' ∧ c ≠ '+' ∧ c ≠ '?' ∧ c ≠ '\x7b'

theorem greedy_of_noQuantifier (h : NoQuantifier rest) (times : Times) :
    greedy (times, rest) = .ok (times, rest) := by
  rw [greedy, if_neg]
  intro hlazy
  exact (h '?' hlazy).2.2.1 rfl

theorem takeWhile_digits (n : Digits) (hc : isDigit c = false) (rest : List Char) :
    (n.digits ++ c :: rest).takeWhile isDigit = n.digits ∧
      (n.digits ++ c :: rest).dropWhile isDigit = c :: rest := by
  have hall := List.all_eq_true.mp n.numeric
  rw [List.takeWhile_append_of_pos hall, List.dropWhile_append_of_pos hall,
    List.takeWhile_cons_of_neg (by simp [hc]), List.dropWhile_cons_of_neg (by simp [hc]),
    List.append_nil]
  exact ⟨rfl, rfl⟩

theorem boundsOf_exactly (n : Digits) (rest : List Char) :
    boundsOf (n.digits ++ '\x7d' :: rest) = .ok (⟨n.value, some n.value⟩, rest) := by
  obtain ⟨htake, hdrop⟩ := takeWhile_digits n (c := '\x7d') (by decide) rest
  simp only [boundsOf, htake, hdrop, if_neg n.filled, Digits.value, if_true]

theorem boundsOf_atLeast (n : Digits) (rest : List Char) :
    boundsOf (n.digits ++ ',' :: '\x7d' :: rest) = .ok (⟨n.value, none⟩, rest) := by
  obtain ⟨htake, hdrop⟩ := takeWhile_digits n (c := ',') (by decide) ('\x7d' :: rest)
  have hclose : isDigit '\x7d' = false := by decide
  have hne : ¬(',' = '\x7d') := by decide
  simp only [boundsOf, htake, hdrop, if_neg n.filled, Digits.value, if_neg hne, if_true,
    List.takeWhile_cons_of_neg (Bool.eq_false_iff.mp hclose),
    List.dropWhile_cons_of_neg (Bool.eq_false_iff.mp hclose), ne_eq, not_true, if_false]

theorem boundsOf_between {n m : Digits} (h : n.value ≤ m.value) (rest : List Char) :
    boundsOf (n.digits ++ ',' :: (m.digits ++ '\x7d' :: rest)) =
      .ok (⟨n.value, some m.value⟩, rest) := by
  obtain ⟨htake, hdrop⟩ := takeWhile_digits n (c := ',') (by decide) (m.digits ++ '\x7d' :: rest)
  obtain ⟨htakeHigh, hdropHigh⟩ := takeWhile_digits m (c := '\x7d') (by decide) rest
  have hne : ¬(',' = '\x7d') := by decide
  rw [Digits.value, Digits.value] at h
  simp only [boundsOf, htake, hdrop, htakeHigh, hdropHigh, if_neg n.filled, if_neg m.filled,
    Digits.value, if_neg hne, if_true, ne_eq, not_true, if_false, if_pos h]

theorem quantifier_text {q : Quantifier} (h : q.Ordered) (hrest : NoQuantifier rest) :
    quantifier (q.text ++ rest) = .ok (q.times, rest) := by
  cases q with
  | once =>
    cases rest with
    | nil => rfl
    | cons c more =>
      obtain ⟨hstar, hplus, hmark, hbrace⟩ := hrest c rfl
      show quantifier (c :: more) = _
      rw [quantifier, if_neg hstar, if_neg hplus, if_neg hmark, if_neg hbrace]
      rfl
  | optional =>
    show quantifier ('?' :: rest) = _
    rw [quantifier, if_neg (by decide), if_neg (by decide), if_pos rfl]
    exact greedy_of_noQuantifier hrest _
  | star =>
    show quantifier ('*' :: rest) = _
    rw [quantifier, if_pos rfl]
    exact greedy_of_noQuantifier hrest _
  | plus =>
    show quantifier ('+' :: rest) = _
    rw [quantifier, if_neg (by decide), if_pos rfl]
    exact greedy_of_noQuantifier hrest _
  | exactly n =>
    show quantifier ('\x7b' :: (n.digits ++ ['\x7d'] ++ rest)) = _
    rw [quantifier, if_neg (by decide), if_neg (by decide), if_neg (by decide), if_pos rfl,
      List.append_assoc, List.singleton_append, boundsOf_exactly]
    exact greedy_of_noQuantifier hrest _
  | atLeast n =>
    show quantifier ('\x7b' :: (n.digits ++ [',', '\x7d'] ++ rest)) = _
    rw [quantifier, if_neg (by decide), if_neg (by decide), if_neg (by decide), if_pos rfl,
      List.append_assoc, List.cons_append, List.singleton_append, boundsOf_atLeast]
    exact greedy_of_noQuantifier hrest _
  | between n m =>
    show quantifier ('\x7b' :: (n.digits ++ ',' :: (m.digits ++ ['\x7d']) ++ rest)) = _
    rw [quantifier, if_neg (by decide), if_neg (by decide), if_neg (by decide), if_pos rfl,
      List.append_assoc, List.cons_append, List.append_assoc, List.singleton_append,
      boundsOf_between h]
    exact greedy_of_noQuantifier hrest _

/-! ### Expressions -/

def Plain (p : Expression) : Prop :=
  (∀ a ∈ p.items, a.Plain) ∧ ∀ q ∈ p.quantifiers, q.Ordered

def read (p : Expression) : JsRegex.Expression := p.map Atom.read Quantifier.times

def Closes (rest : List Char) : Prop := ∀ c ∈ rest.head?, c = ')'

theorem head_escaped (c : Char) : ∃ d rest, escaped c = d :: rest ∧ (d = '\\' ∨ d = '[') := by
  unfold escaped
  split
  · exact ⟨'[', _, rfl, Or.inr rfl⟩
  · split
    · exact ⟨'[', _, rfl, Or.inr rfl⟩
    · split
      · exact ⟨'[', _, rfl, Or.inr rfl⟩
      · split
        · exact ⟨'[', _, rfl, Or.inr rfl⟩
        · exact ⟨'\\', _, rfl, Or.inl rfl⟩

theorem head_atom (a : Atom) : ∃ d rest, a.js = d :: rest ∧ (d ≠ '*' ∧ d ≠ '+' ∧ d ≠ '?' ∧ d ≠ '\x7b') ∧
    d ≠ ')' ∧ d ≠ '|' ∧ d ≠ '^' ∧ d ≠ '$' ∧ d ≠ '(' := by
  cases a with
  | wildcard => exact ⟨'.', [], rfl, by decide, by decide⟩
  | single c h => exact ⟨'\\', [c], rfl, by decide, by decide⟩
  | cls group => exact ⟨'[', _, rfl, by decide, by decide⟩
  | escape e negated =>
    obtain ⟨d, rest, hjs, hd⟩ := head_escaped (e.letter negated)
    refine ⟨d, rest ++ e.suffix, by rw [Atom.js, hjs, List.cons_append], ?_⟩
    rcases hd with rfl | rfl <;> decide
  | normal c h =>
    rw [Atom.js, literal]
    split
    · exact ⟨'\\', [c], rfl, by decide, by decide⟩
    · next hanchor =>
      refine ⟨c, [], rfl, ⟨?_, ?_, ?_, ?_⟩, ?_, ?_, fun hc => hanchor (Or.inl hc),
        fun hc => hanchor (Or.inr hc), ?_⟩ <;> (rintro rfl; exact absurd h (by decide))

theorem noQuantifier_text (p : Expression) (hrest : Closes rest) :
    NoQuantifier (textOf Atom.js p ++ rest) := by
  cases p with
  | done =>
    intro c hc
    rw [hrest c hc]
    decide
  | bar more =>
    intro c hc
    cases hc
    decide
  | item a often more =>
    obtain ⟨d, others, hjs, hd, -⟩ := head_atom a
    intro c hc
    rw [textOf, hjs] at hc
    cases hc
    exact hd
  | group inner often more =>
    intro c hc
    cases hc
    decide

theorem terms_item {more after : List Char} {t : Term} {times : Times} {p : JsRegex.Expression}
    (hc : c ≠ ')' ∧ c ≠ '|' ∧ c ≠ '^' ∧ c ≠ '$' ∧ c ≠ '(')
    (hterm : term (c :: input) = .ok (t, rest)) (hquantifier : quantifier rest = .ok (times, more))
    (hmore : terms fuel more = .ok (p, after)) :
    terms (fuel + 1) (c :: input) = .ok (.item t times p, after) := by
  rw [terms, if_neg hc.1, if_neg hc.2.1, if_neg hc.2.2.1, if_neg hc.2.2.2.1, if_neg hc.2.2.2.2, hterm]
  show (quantifier rest >>= _) = _
  rw [hquantifier]
  show (terms fuel more >>= _) = _
  rw [hmore]
  rfl

theorem terms_group {body more after : List Char} {times : Times} {inner p : JsRegex.Expression}
    (hbody : groupBody input = .ok body)
    (hinner : terms fuel body = .ok (inner, ')' :: rest)) (hquantifier : quantifier rest = .ok
      (times, more)) (hmore : terms fuel more = .ok (p, after))  :
    terms (fuel + 1) ('(' :: input) = .ok (.group inner times p, after) := by
  rw [terms, if_neg (by decide), if_neg (by decide), if_neg (by decide), if_neg (by decide),
    if_pos rfl, hbody]
  show (terms fuel body >>= _) = _
  rw [hinner]
  show (if (')' :: rest).head? = some ')' then quantifier rest >>= _ else .error .syntaxError) = _
  rw [if_pos List.head?_cons, hquantifier]
  show (terms fuel more >>= _) = _
  rw [hmore]
  rfl

theorem groupBody_of_noQuantifier (h : NoQuantifier input) : groupBody input = .ok input := by
  match input with
  | [] => rfl
  | [c] =>
    have hmark := (h c rfl).2.2.1
    rw [groupBody, if_neg hmark]
  | c :: d :: rest =>
    have hmark := (h c rfl).2.2.1
    rw [groupBody, if_pos hmark]

theorem terms_text {p : Expression} (h : Plain p) (hrest : Closes rest)
    (hfuel : (textOf Atom.js p ++ rest).length < fuel) :
    terms fuel (textOf Atom.js p ++ rest) = .ok (read p, rest) := by
  induction p generalizing rest fuel with
  | done =>
    obtain ⟨left, rfl⟩ : ∃ left, fuel = left + 1 := ⟨fuel - 1, by omega⟩
    show terms (left + 1) rest = _
    cases rest with
    | nil => rfl
    | cons c more => rw [terms, if_pos (hrest c rfl)]; rfl
  | bar more ih =>
    obtain ⟨left, rfl⟩ : ∃ left, fuel = left + 1 := ⟨fuel - 1, by omega⟩
    rw [textOf, List.cons_append, List.length_cons] at hfuel
    have hleft : (textOf Atom.js more ++ rest).length < left := by omega
    have hmore := ih h hrest hleft
    rw [textOf, List.cons_append, terms, if_neg (by decide), if_pos rfl, hmore]
    rfl
  | item a often more ih =>
    obtain ⟨left, rfl⟩ : ∃ left, fuel = left + 1 := ⟨fuel - 1, by omega⟩
    obtain ⟨d, others, hjs, -, hd⟩ := head_atom a
    have hplain : a.Plain := h.1 a List.mem_cons_self
    have hordered : often.Ordered := h.2 often List.mem_cons_self
    have hmore : Plain more := ⟨fun b hb => h.1 b (List.mem_cons_of_mem a hb),
      fun q hq => h.2 q (List.mem_cons_of_mem often hq)⟩
    have hnext := noQuantifier_text more hrest
    have htext : textOf Atom.js (.item a often more) ++ rest =
        a.js ++ (often.text ++ (textOf Atom.js more ++ rest)) := by
      rw [textOf, List.append_assoc, List.append_assoc]
    rw [htext] at hfuel ⊢
    have hterm := term_atom hplain (often.text ++ (textOf Atom.js more ++ rest))
    rw [List.length_append, hjs, List.length_cons, List.length_append] at hfuel
    rw [hjs, List.cons_append] at hterm ⊢
    exact terms_item hd hterm (quantifier_text hordered hnext) (ih hmore hrest (by omega))
  | group inner often more ihinner ih =>
    obtain ⟨left, rfl⟩ : ∃ left, fuel = left + 1 := ⟨fuel - 1, by omega⟩
    have hordered : often.Ordered := h.2 often List.mem_cons_self
    have hinner : Plain inner := ⟨fun b hb => h.1 b (List.mem_append_left _ hb),
      fun q hq => h.2 q (List.mem_cons_of_mem often (List.mem_append_left _ hq))⟩
    have hmore : Plain more := ⟨fun b hb => h.1 b (List.mem_append_right _ hb),
      fun q hq => h.2 q (List.mem_cons_of_mem often (List.mem_append_right _ hq))⟩
    have hcloses : Closes (')' :: (often.text ++ (textOf Atom.js more ++ rest))) := by
      intro c hc
      cases hc
      rfl
    have htext : textOf Atom.js (.group inner often more) ++ rest =
        '(' :: (textOf Atom.js inner ++ ')' :: (often.text ++ (textOf Atom.js more ++ rest))) := by
      rw [textOf, List.cons_append, List.append_assoc, List.cons_append, List.append_assoc]
    rw [htext] at hfuel ⊢
    rw [List.length_cons] at hfuel
    have hbody := groupBody_of_noQuantifier (noQuantifier_text inner hcloses)
    refine terms_group hbody (ihinner hinner hcloses (by omega))
      (quantifier_text hordered (noQuantifier_text more hrest)) (ih hmore hrest ?_)
    rw [List.length_append, List.length_cons, List.length_append] at hfuel
    omega

def anchored (p : JsRegex.Expression) : JsRegex.Expression :=
  .item .start Times.once (.group p Times.once (.item .finish Times.once .done))

theorem compile_text {p : Expression} (h : Plain p) :
    compile ("^(?:".toList ++ (textOf Atom.js p ++ ")$".toList)) = .ok (anchored (read p)) := by
  have hopen : "^(?:".toList = ['^', '(', '?', ':'] := by decide
  have hclose : ")$".toList = [')', '$'] := by decide
  rw [hopen, hclose]
  have hcloses : Closes [')', '$'] := by
    intro c hc
    cases hc
    rfl
  show (terms _ ('^' :: '(' :: '?' :: ':' :: (textOf Atom.js p ++ [')', '$'])) >>= _) = _
  generalize hlength : (['^', '(', '?', ':'] ++ (textOf Atom.js p ++ [')', '$'])).length = n
  have hn : (textOf Atom.js p ++ [')', '$']).length + 4 = n := by
    have hfour := @List.length_append _ ['^', '(', '?', ':'] (textOf Atom.js p ++ [')', '$'])
    rw [hlength] at hfour
    rw [hfour]
    exact Nat.add_comm _ 4
  obtain ⟨left, rfl⟩ : ∃ left, n = left + 3 := ⟨n - 3, by omega⟩
  have hleft : (textOf Atom.js p ++ [')', '$']).length < left + 2 := by omega
  have hinner := terms_text h hcloses hleft
  have hgroup : terms (left + 3) ('(' :: '?' :: ':' :: (textOf Atom.js p ++ [')', '$'])) =
      .ok (.group (read p) Times.once (.item .finish Times.once .done), []) :=
    terms_group rfl hinner rfl rfl
  have hall : terms (left + 3 + 1) ('^' :: '(' :: '?' :: ':' :: (textOf Atom.js p ++ [')', '$'])) =
      .ok (anchored (read p), []) := by
    rw [terms, if_neg (by decide), if_neg (by decide), if_pos rfl, hgroup]
    rfl
  rw [hall]
  rfl

/-! ### What JavaScript matches -/

section
variable (tables : Tables)

def Escape.narrow : Escape → Char → Bool
  | .space, c => Routing.isSpace c
  | .initial, c => c.isAlpha || c == '_' || c == ':'
  | .name, c => c.isAlphanum || c == '_' || c == ':' || c == '.' || c == '-'
  | .digit, c => isDigit c
  | .word, c => c.isAlphanum || c == '_'
  | .property p, c => tables.property p.name c

def Item.SameOn : Item → Char → Prop
  | .escape e _, c => e.has tables c = e.narrow tables c
  | _, _ => True

/-- The escapes of the atom mean the same of a character in both languages, and so does the wildcard. -/
def Atom.SameOn : Atom → Char → Prop
  | .wildcard, c => c ≠ '\u2028' ∧ c ≠ '\u2029'
  | .escape e _, c => e.has tables c = e.narrow tables c
  | .cls group, c => ∀ item ∈ group.items, item.SameOn tables c
  | _, _ => True

theorem kind_has {kind : Kind} (h : e.kind = some kind) (c : Char) :
    kind.has tables.property c = e.narrow tables c := by
  cases e with
  | initial => cases h
  | name => cases h
  | space => cases h; rfl
  | digit => cases h; rfl
  | word => cases h; rfl
  | property p =>
    rw [Escape.kind] at h
    split at h
    · cases h
      rfl
    · cases h

theorem any_read (hplain : ∀ item ∈ items, item.Plain)
    (hsame : ∀ item ∈ items, item.SameOn tables c) :
    ((items.flatMap Item.read).any fun item => item.has tables.property c) =
      items.any fun item => item.has tables c := by
  induction items with
  | nil => rfl
  | cons item others ih =>
    rw [List.flatMap_cons, List.any_append, List.any_cons,
      ih (fun other hother => hplain other (List.mem_cons_of_mem item hother))
        (fun other hother => hsame other (List.mem_cons_of_mem item hother))]
    have hone : (item.read.any fun item => item.has tables.property c) = item.has tables c := by
      have hitem := hplain item List.mem_cons_self
      have hitemSame := hsame item List.mem_cons_self
      cases item with
      | single d => exact Bool.or_false _
      | range low high hle => exact Bool.or_false _
      | escape e negated =>
        obtain ⟨kind, hkind⟩ := Option.isSome_iff_exists.mp hitem
        have hhas : e.has tables c = e.narrow tables c := hitemSame
        rw [Item.read, hkind, Item.has, hhas, ← kind_has tables hkind c]
        exact Bool.or_false _
    rw [hone]

theorem any_readDash (present : Bool) (c : Char) :
    ((readDash present).any fun item => item.has tables.property c) = (present && c == '-') := by
  cases present with
  | false => rfl
  | true => exact Bool.or_false _

theorem isUpper_eq (c : Char) : decide ('A' ≤ c ∧ c ≤ 'Z') = c.isUpper := by
  delta Char.isUpper
  exact decide_eq_decide.mpr Iff.rfl

theorem isLower_eq (c : Char) : decide ('a' ≤ c ∧ c ≤ 'z') = c.isLower := by
  rw [Bool.decide_and]
  rfl

theorem isDigit_eq (c : Char) : decide ('0' ≤ c ∧ c ≤ '9') = c.isDigit := by
  rw [Bool.decide_and]
  rfl

theorem any_items (hknown : e.Known) (h : e.kind = none) (c : Char) :
    ((e.items.flatMap Item.read).any fun item => item.has tables.property c) = e.narrow tables c := by
  cases e with
  | space => cases h
  | digit => cases h
  | word => cases h
  | property p =>
    have hcategory : isCategory p.name = true := hknown
    rw [Escape.kind, if_pos hcategory] at h
    cases h
  | initial =>
    show (decide ('A' ≤ c ∧ c ≤ 'Z') || (decide ('a' ≤ c ∧ c ≤ 'z') || (c == '_' || (c == ':' || false)))) =
      (c.isAlpha || c == '_' || c == ':')
    rw [isUpper_eq, isLower_eq, Letters.isAlpha_eq, Bool.or_false, Bool.or_assoc, Bool.or_assoc]
  | name =>
    show (decide ('A' ≤ c ∧ c ≤ 'Z') || (decide ('a' ≤ c ∧ c ≤ 'z') || (decide ('0' ≤ c ∧ c ≤ '9') ||
      (c == '_' || (c == ':' || (c == '.' || (c == '-' || false))))))) =
      (c.isAlphanum || c == '_' || c == ':' || c == '.' || c == '-')
    rw [isUpper_eq, isLower_eq, isDigit_eq, Char.isAlphanum, Letters.isAlpha_eq, Bool.or_false]
    simp only [Bool.or_assoc]

theorem agrees_oneOf {good : Char → Prop} {f g : Char → Bool} (h : ∀ c, good c → f c = g c) :
    Agrees good (oneOf f) {word | ∃ c, word = [c] ∧ g c = true} := by
  intro before taken after hgood
  refine exists_congr fun c => and_congr_right fun htaken => ?_
  rw [htaken] at hgood
  rw [h c (hgood c List.mem_cons_self)]

theorem agrees_read {a : Atom} (h : a.Plain) {good : Char → Prop}
    (hgood : ∀ c, good c → a.SameOn tables c) : Agrees good (a.read.span tables.property) (a.word tables) := by
  cases a with
  | normal d hd => exact agrees_oneOf fun c _ => rfl
  | single d hd => exact agrees_oneOf fun c _ => rfl
  | wildcard =>
    refine agrees_oneOf fun c hc => ?_
    obtain ⟨hline, hparagraph⟩ := hgood c hc
    rw [dotHas, beq_eq_false_iff_ne.mpr hline, beq_eq_false_iff_ne.mpr hparagraph, Bool.or_false,
      Bool.or_false]
    rfl
  | escape e negated =>
    rw [Atom.read]
    cases hkind : e.kind with
    | some kind =>
      refine agrees_oneOf fun c hc => ?_
      have hhas : e.has tables c = e.narrow tables c := hgood c hc
      rw [Atom.has, hhas, kind_has tables hkind]
    | none =>
      refine agrees_oneOf fun c hc => ?_
      have hhas : e.has tables c = e.narrow tables c := hgood c hc
      rw [Atom.has, hhas, any_items tables h hkind]
  | cls group =>
    refine agrees_oneOf fun c hc => ?_
    obtain ⟨hnegated, hplain⟩ := h
    rw [List.any_append, List.any_append, any_readDash tables, any_readDash tables,
      any_read tables hplain (hgood c hc), Atom.has, CharGroup.has, hnegated]
    cases group.leading <;> cases group.trailing <;> cases hdash : c == '-' <;> simp

theorem test_anchored (p : JsRegex.Expression) (text : List Char) :
    test tables.property (anchored p) text ↔ p.runs (Term.span tables.property) id [] text [] := by
  have hruns : (anchored p).runs (Term.span tables.property) id =
      Span.seq (Term.start.span tables.property) (Span.seq (p.runs (Term.span tables.property) id)
        (Span.seq (Term.finish.span tables.property) Span.empty)) := by
    funext before taken after
    apply propext
    rw [anchored, Pattern.runs, Pattern.spans, Pattern.spans, Pattern.spans, Pattern.spans, Span.either]
    simp only [id, Span.repeats_once, Span.never, or_false]
    exact Iff.rfl
  rw [test, hruns, Span.seq_empty]
  constructor
  · rintro ⟨before, taken, after, htext, u, v, rfl, ⟨rfl, rfl⟩, w, x, rfl, hrun, rfl, rfl⟩
    simpa [htext] using hrun
  · intro hrun
    refine ⟨[], text, [], by simp, [], text, rfl, ⟨rfl, rfl⟩, text, [], by simp, ?_, rfl, rfl⟩
    simpa using hrun

theorem compiles_and_matches (p : Expression) (h : Plain p) :
    compile ("^(?:".toList ++ (textOf Atom.js p ++ ")$".toList)) = .ok (anchored (read p)) ∧
      ∀ value : List Char, (∀ c ∈ value, ∀ a ∈ p.items, a.SameOn tables c) →
        (test tables.property (anchored (read p)) value ↔ value ∈ lang tables p) := by
  refine ⟨compile_text h, fun value hvalue => ?_⟩
  have hagrees : Agrees (fun c => ∀ a ∈ p.items, a.SameOn tables c)
      (p.runs (fun a => a.read.span tables.property) fun q => q.times) (p.lang (Atom.word tables) Quantifier.times) :=
    p.runs_iff_mem_lang fun a ha => agrees_read tables (h.1 a ha) fun c hc => hc a ha
  rw [test_anchored, read, Pattern.runs_map]
  exact hagrees [] value [] hvalue

/-! ### Negated classes -/

def ofClass (group : CharGroup) : Expression := .item (.cls group) .once .done

theorem mem_lang_ofClass (group : CharGroup) (c : Char) :
    [c] ∈ lang tables (ofClass group) ↔ group.has tables c = true := by
  have hlang : lang tables (ofClass group) = (Atom.cls group).word tables := by
    rw [lang, ofClass, Pattern.lang, Pattern.branches, Pattern.branches]
    show repeats _ Times.once * 1 + 0 = _
    rw [repeats_once, mul_one, add_zero]
  rw [hlang]
  constructor
  · rintro ⟨d, hd, hhas⟩
    rw [List.singleton_inj.mp hd]
    exact hhas
  · intro hhas
    exact ⟨c, rfl, hhas⟩

def misread (group : CharGroup) : CharGroup where
  negated := false
  leading := false
  items := .single (.escaped '^' (by decide)) :: group.items
  trailing := group.trailing
  filled := Or.inr (Or.inl nofun)
  caret := nofun

theorem js_misread {group : CharGroup} (hnegated : group.negated = true)
    (hleading : group.leading = false) : (misread group).js = group.js := by
  rw [CharGroup.js, CharGroup.js, hnegated, hleading]
  rfl

def negatedRead (group : CharGroup) : JsRegex.Expression := anchored (read (ofClass (misread group)))

theorem negated_opposite {group : CharGroup} (hnegated : group.negated = true)
    (hleading : group.leading = false) (hplain : ∀ item ∈ group.items, item.Plain) :
    compile ("^(?:".toList ++ (textOf Atom.js (ofClass group) ++ ")$".toList)) =
        .ok (negatedRead group) ∧
      ∀ c, c ≠ '^' → (∀ item ∈ group.items, item.SameOn tables c) →
        (test tables.property (negatedRead group) [c] ↔ [c] ∉ lang tables (ofClass group)) := by
  have hread : Plain (ofClass (misread group)) := by
    constructor
    · intro a ha
      rw [List.mem_singleton.mp ha]
      refine ⟨rfl, fun item hitem => ?_⟩
      rcases List.mem_cons.mp hitem with rfl | hitem
      · trivial
      · exact hplain item hitem
    · intro q hq
      rw [List.mem_singleton.mp hq]
      trivial
  have htext : textOf Atom.js (ofClass group) = textOf Atom.js (ofClass (misread group)) := by
    show group.js ++ _ = (misread group).js ++ _
    rw [js_misread hnegated hleading]
  obtain ⟨hcompile, hmatches⟩ := compiles_and_matches tables (ofClass (misread group)) hread
  refine ⟨by rw [htext, hcompile, negatedRead], fun c hc hsame => ?_⟩
  rw [negatedRead, hmatches [c], mem_lang_ofClass, mem_lang_ofClass]
  · have hcaret : (c == '^') = false := beq_eq_false_iff_ne.mpr hc
    have hmisread : (misread group).has tables c = (((false || group.trailing) && c == '-' ||
        (c == '^' || group.items.any fun item => item.has tables c)) != false) := rfl
    rw [hmisread, hcaret, CharGroup.has, hnegated, hleading]
    cases group.trailing <;> cases c == '-' <;>
      cases group.items.any fun item => item.has tables c <;> simp
  · intro d hd a ha
    rw [List.mem_singleton.mp hd, List.mem_singleton.mp ha]
    intro item hitem
    rcases List.mem_cons.mp hitem with rfl | hitem
    · trivial
    · exact hsame item hitem

theorem translation (place : String) :
    (∀ p : Expression, Plain p → ∃ source expression, xsdPatternToJs (text p) place = .ok source ∧
      compile source = .ok expression ∧
      ∀ value : List Char, (∀ c ∈ value, ∀ a ∈ p.items, a.SameOn tables c) →
        (test tables.property expression value ↔ value ∈ lang tables p)) ∧
    ∀ group : CharGroup, group.negated = true → group.leading = false →
      (∀ item ∈ group.items, item.Plain) →
      ∃ source expression, xsdPatternToJs (text (ofClass group)) place = .ok source ∧
        compile source = .ok expression ∧
        ∀ c, c ≠ '^' → (∀ item ∈ group.items, item.SameOn tables c) →
          (test tables.property expression [c] ↔ [c] ∉ lang tables (ofClass group)) := by
  constructor
  · intro p h
    obtain ⟨hcompile, hmatches⟩ := compiles_and_matches tables p h
    exact ⟨_, _, xsdPatternToJs_text p place, hcompile, hmatches⟩
  · intro group hnegated hleading hplain
    obtain ⟨hcompile, hopposite⟩ := negated_opposite tables hnegated hleading hplain
    exact ⟨_, _, xsdPatternToJs_text _ place, hcompile, hopposite⟩

end

/-- `[^a]` refuses `b`; `[\i]` and `a\-b` do not compile. -/
theorem mistranslated :
    (∃ p : Expression, text p = "[^a]".toList ∧ (∀ tables, "b".toList ∈ lang tables p) ∧
      ∃ source expression, xsdPatternToJs (text p) "T" = .ok source ∧
        compile source = .ok expression ∧ ∀ tables : Tables, ¬test tables.property expression "b".toList) ∧
    (∃ p : Expression, text p = "[\\i]".toList ∧
      ∃ source, xsdPatternToJs (text p) "T" = .ok source ∧ compile source = .error .syntaxError) ∧
    ∃ p : Expression, text p = "a\\-b".toList ∧
      ∃ source, xsdPatternToJs (text p) "T" = .ok source ∧ compile source = .error .syntaxError := by
  let negatedA : CharGroup := ⟨true, false, [.single (.plain 'a' (by decide))], false,
    Or.inr (Or.inl nofun), nofun⟩
  let initials : CharGroup := ⟨false, false, [.escape .initial false], false, Or.inr (Or.inl nofun),
    fun _ _ => nofun⟩
  refine ⟨⟨ofClass negatedA, by decide, fun tables => ?_, ?_⟩, ⟨ofClass initials, by decide, ?_⟩,
    ⟨.item (.normal 'a' (by decide)) .once (.item (.single '-' (by decide)) .once
      (.item (.normal 'b' (by decide)) .once .done)), by decide, ?_⟩⟩
  · exact (mem_lang_ofClass tables negatedA 'b').mpr rfl
  · have hplain : ∀ item ∈ negatedA.items, item.Plain := fun item hitem => by
      rw [List.mem_singleton.mp hitem]
      trivial
    have hsame : ∀ tables : Tables, ∀ item ∈ negatedA.items, item.SameOn tables 'b' :=
      fun tables item hitem => by
        rw [List.mem_singleton.mp hitem]
        trivial
    have hcompile := (negated_opposite ⟨fun _ => false, fun _ => false, fun _ => false, fun _ => false,
      fun _ _ => false⟩ rfl rfl hplain).1
    refine ⟨_, _, xsdPatternToJs_text _ _, hcompile, fun tables htest => ?_⟩
    have hout := ((negated_opposite tables rfl rfl hplain).2 'b' (by decide) (hsame tables)).mp htest
    exact hout ((mem_lang_ofClass tables negatedA 'b').mpr rfl)
  · exact ⟨"^(?:[[A-Za-z_:]])$".toList, by decide, by decide +kernel⟩
  · exact ⟨"^(?:a\\-b)$".toList, by decide, by decide +kernel⟩

end Apim.XsdPattern
