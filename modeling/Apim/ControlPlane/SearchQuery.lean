import Apim.Shared.Trimming
import Mathlib.Data.List.Infix

/-!
# A search query as a full-text expression

`matchExpression` and `buildMatch` (`control-plane/src/search.ts:143-157`,
`control-plane/src/api/market.ts:399-415`) write the words of a user as an expression of FTS5. A term is
written twice, quoted and as a bare word with a star, and a bare word may be an operator. Of FTS5 there
is what these texts reach: no `NEAR`, no `+`, `^`, `-` and braces. The tables of Unicode and the
tokenizer are parameters.
-/

namespace Apim.Search

open Routing (isSpace trim utf16Length)

/-! ### The code -/

/-- `\p{L}`, `\p{N}` and `_`, of which no one is blank, and `toLowerCase`. -/
structure Unicode where
  isWord : Char → Bool
  isWord_ascii : ∀ c, c.toNat < 128 → isWord c = (c.isAlphanum || c == '_')
  isWord_space : ∀ c, isWord c = true → isSpace c = false
  toLowerCase : List Char → List Char

/-- `text.replace(/"/g, '""')`. -/
def doubled (text : List Char) : List Char := text.flatMap fun c => if c = '"' then ['"', '"'] else [c]

def quoted (text : List Char) : List Char := '"' :: (doubled text ++ ['"'])

section Code
variable (U : Unicode)

/-- The terms of a query; a split at a run of other characters leaves no empty piece between. -/
def termsOf (query : List Char) : List (List Char) :=
  (((query.splitOnP fun c => !U.isWord c).map trim).filter (· ≠ [])).take 12

def termExpression (term : List Char) : List Char :=
  if 2 ≤ utf16Length term then
    '(' :: (quoted term ++ " OR ".toList ++ term ++ "*)".toList)
  else quoted term

/-- `matchExpression` (`control-plane/src/search.ts:143-157`). -/
def matchExpression (query : List Char) : Option (List Char) :=
  let terms := termsOf U query
  if terms = [] then none else some (" AND ".toList.intercalate (terms.map termExpression))

inductive Match where
  | impossible
  | all
  | expression (text : List Char)
  deriving DecidableEq

def tagText (tag : List Char) : List Char := U.toLowerCase (trim tag)

def tagExpression (tag : List Char) : List Char := "tags : ".toList ++ quoted (tagText U tag)

/-- `buildMatch` (`control-plane/src/api/market.ts:399-415`); an absent filter is an empty one. -/
def buildMatch (q tag : List Char) : Match :=
  match (if q = [] then some none else (matchExpression U q).map some) with
  | none => .impossible
  | some parts =>
    if tag = [] then match parts with
      | none => .all
      | some words => .expression words
    else if tagText U tag = [] then .impossible
    else match parts with
      | none => .expression (tagExpression U tag)
      | some words => .expression (words ++ " AND ".toList ++ tagExpression U tag)

end Code

/-! ### FTS5 -/

inductive Token where
  | lp
  | rp
  | colon
  | star
  | and
  | or
  | not
  | string (text : List Char)
  deriving DecidableEq

def isBare (c : Char) : Bool := 128 ≤ c.toNat || c.isAlphanum || c == '_' || c == '\x1a'

/-- A bare word; three of them are operators. -/
def wordToken (word : List Char) : Token :=
  if word = "AND".toList then .and
  else if word = "OR".toList then .or
  else if word = "NOT".toList then .not
  else .string word

/-- What stands up to the closing quote, and what follows it. The text ends at a null character. -/
def readQuoted : List Char → Option (List Char × List Char)
  | [] => none
  | [c] => if c = '"' then some ([], []) else none
  | c :: d :: rest =>
    if c = '\x00' then none
    else if c = '"' then
      if d = '"' then (readQuoted rest).map fun r => ('"' :: r.1, r.2) else some ([], d :: rest)
    else (readQuoted (d :: rest)).map fun r => (c :: r.1, r.2)

theorem length_readQuoted : ∀ {text inside more : List Char}, readQuoted text = some (inside, more) →
    more.length < text.length
  | [], _, _, h => by cases h
  | [c], inside, more, h => by
    unfold readQuoted at h
    split at h
    · cases h
      exact Nat.zero_lt_one
    · cases h
  | c :: d :: rest, inside, more, h => by
    unfold readQuoted at h
    split at h
    · cases h
    · split at h
      · split at h
        · obtain ⟨⟨inner, after⟩, hread, heq⟩ := Option.map_eq_some_iff.mp h
          cases heq
          have hless := length_readQuoted hread
          simp only [List.length_cons]
          omega
        · cases h
          exact Nat.lt_succ_self _
      · obtain ⟨⟨inner, after⟩, hread, heq⟩ := Option.map_eq_some_iff.mp h
        cases heq
        have hless := length_readQuoted hread
        simp only [List.length_cons] at hless ⊢
        omega

def lex : List Char → Option (List Token)
  | [] => some []
  | c :: rest =>
    if c = '\x00' then some []
    else if c = ' ' ∨ c = '\t' ∨ c = '\n' ∨ c = '\r' then lex rest
    else if c = '(' then (lex rest).map (.lp :: ·)
    else if c = ')' then (lex rest).map (.rp :: ·)
    else if c = ':' then (lex rest).map (.colon :: ·)
    else if c = '*' then (lex rest).map (.star :: ·)
    else if c = '"' then
      match _h : readQuoted rest with
      | none => none
      | some (text, more) => (lex more).map (.string text :: ·)
    else if isBare c then
      (lex (rest.dropWhile isBare)).map (wordToken (c :: rest.takeWhile isBare) :: ·)
    else none
termination_by text => text.length
decreasing_by
  all_goals simp only [List.length_cons]
  all_goals first
    | omega
    | exact Nat.lt_succ_of_lt (length_readQuoted ‹_›)
    | exact Nat.lt_succ_of_le (List.dropWhile_suffix _).length_le

inductive Column where
  | name
  | title
  | summary
  | description
  | tags
  | operations
  deriving DecidableEq

def columnOf (text : List Char) : Option Column :=
  [("name", Column.name), ("title", .title), ("summary", .summary), ("description", .description),
    ("tags", .tags), ("operations", .operations)].lookup (String.ofList text)

inductive Query where
  | phrase (text : List Char) (starred : Bool)
  | within (column : Column) (q : Query)
  | and (p q : Query)
  | or (p q : Query)
  | not (p q : Query)
  deriving DecidableEq

/-- A phrase, with a star behind it or not. -/
def parsePhrase : List Token → Option (Query × List Token)
  | .string text :: .star :: rest => some (.phrase text true, rest)
  | .string text :: rest => some (.phrase text false, rest)
  | _ => none

/-- A phrase, within a column or not. -/
def parseSet : List Token → Option (Query × List Token)
  | .string name :: .colon :: rest => do
    let column ← columnOf name
    let (q, more) ← parsePhrase rest
    some (.within column q, more)
  | rest => parsePhrase rest

/-- Phrases side by side, which all have to hold. -/
def parseSets : Nat → Query → List Token → Query × List Token
  | 0, q, rest => (q, rest)
  | n + 1, q, rest => match parseSet rest with
    | some (r, more) => parseSets n (.and q r) more
    | none => (q, rest)

mutual

def parsePrimary : Nat → List Token → Option (Query × List Token)
  | 0, _ => none
  | n + 1, .lp :: rest => match parseOr n rest with
    | some (q, .rp :: more) => some (q, more)
    | _ => none
  | n + 1, rest => (parseSet rest).map fun r => parseSets n r.1 r.2

def parseNot : Nat → List Token → Option (Query × List Token)
  | 0, _ => none
  | n + 1, rest => (parsePrimary n rest).bind fun r => moreNot n r.1 r.2

def moreNot : Nat → Query → List Token → Option (Query × List Token)
  | 0, _, _ => none
  | n + 1, p, .not :: rest => (parsePrimary n rest).bind fun r => moreNot n (.not p r.1) r.2
  | _ + 1, p, rest => some (p, rest)

def parseAnd : Nat → List Token → Option (Query × List Token)
  | 0, _ => none
  | n + 1, rest => (parseNot n rest).bind fun r => moreAnd n r.1 r.2

def moreAnd : Nat → Query → List Token → Option (Query × List Token)
  | 0, _, _ => none
  | n + 1, p, .and :: rest => (parseNot n rest).bind fun r => moreAnd n (.and p r.1) r.2
  | _ + 1, p, rest => some (p, rest)

def parseOr : Nat → List Token → Option (Query × List Token)
  | 0, _ => none
  | n + 1, rest => (parseAnd n rest).bind fun r => moreOr n r.1 r.2

def moreOr : Nat → Query → List Token → Option (Query × List Token)
  | 0, _, _ => none
  | n + 1, p, .or :: rest => (parseAnd n rest).bind fun r => moreOr n (.or p r.1) r.2
  | _ + 1, p, rest => some (p, rest)

end

/-- The query of an expression; the bound is more than its tokens need. -/
def parse (text : List Char) : Option Query :=
  match (lex text).bind fun tokens => parseOr (8 * tokens.length + 16) tokens with
  | some (q, []) => some q
  | _ => none

/-! ### What a query selects -/

abbrev Words := List (List Char)

/-- The words of each column of a row. -/
abbrev Row := Column → Words

def Whole (phrase words : Words) : Prop := phrase ≠ [] ∧ phrase <:+: words

/-- The phrase, its last word the beginning of one. -/
def Begins (phrase words : Words) : Prop :=
  ∃ initial last word, phrase = initial ++ [last] ∧ last <+: word ∧ initial ++ [word] <:+: words

section Meaning
variable (tokenize : List Char → Words)

def Holds (row : Row) (allowed : Column → Prop) : Query → Prop
  | .phrase text starred => ∃ column, allowed column ∧
      if starred then Begins (tokenize text) (row column) else Whole (tokenize text) (row column)
  | .within column q => Holds row (fun other => allowed other ∧ other = column) q
  | .and p q => Holds row allowed p ∧ Holds row allowed q
  | .or p q => Holds row allowed p ∨ Holds row allowed q
  | .not p q => Holds row allowed p ∧ ¬ Holds row allowed q

/-- The term occurs as a whole, or, if it has two characters, as the beginning of a word. -/
def Occurs (row : Row) (term : List Char) : Prop :=
  (∃ column, Whole (tokenize term) (row column)) ∨
    2 ≤ utf16Length term ∧ ∃ column, Begins (tokenize term) (row column)

variable (U : Unicode)

/-- What the filters ask of a row. -/
def Selected (q tag : List Char) (row : Row) : Prop :=
  (∀ term ∈ termsOf U q, Occurs tokenize row term) ∧
    (tag ≠ [] → Whole (tokenize (tagText U tag)) (row .tags))

/-- Where an expression is built, FTS5 takes it for a query that selects what the filters ask for. -/
def Lawful (q tag : List Char) : Prop :=
  ∀ text, buildMatch U q tag = .expression text → ∃ query, parse text = some query ∧
    ∀ row, Holds tokenize row (fun _ => True) query ↔ Selected tokenize U q tag row

end Meaning

def IsOperator (word : List Char) : Prop := wordToken word ≠ .string word

/-- No term of two filters that are asked is an operator, and the tag has no null character. -/
def Inert (U : Unicode) (q tag : List Char) : Prop :=
  (q ≠ [] → termsOf U q ≠ []) → (tag ≠ [] → tagText U tag ≠ []) →
    (∀ term ∈ termsOf U q, ¬ IsOperator term) ∧ (tag ≠ [] → '\x00' ∉ tagText U tag)

/-! ### Terms -/

theorem separated {p : Char → Bool} {text piece : List Char} (h : piece ∈ text.splitOnP p) :
    ∀ c ∈ piece, p c = false := by
  induction text generalizing piece with
  | nil =>
    rw [List.splitOnP_nil, List.mem_singleton] at h
    subst h
    exact List.forall_mem_nil _
  | cons d text ih =>
    rw [List.splitOnP_cons_eq_if_modifyHead] at h
    split at h
    · obtain rfl | h := List.mem_cons.mp h
      · exact List.forall_mem_nil _
      · exact ih h
    · next hd =>
      cases hrest : text.splitOnP p with
      | nil => exact absurd hrest (List.splitOnP_ne_nil p text)
      | cons first more =>
        rw [hrest, List.modifyHead_cons, List.mem_cons] at h
        obtain rfl | h := h
        · intro c hc
          obtain rfl | hc := List.mem_cons.mp hc
          · simpa using hd
          · exact ih (hrest ▸ List.mem_cons_self) c hc
        · exact ih (hrest ▸ List.mem_cons_of_mem _ h)

structure Word (U : Unicode) (term : List Char) : Prop where
  ne : term ≠ []
  all : ∀ c ∈ term, U.isWord c = true

theorem word_of_mem {U : Unicode} {q term : List Char} (h : term ∈ termsOf U q) : Word U term := by
  obtain ⟨hpiece, hne⟩ := List.mem_filter.mp (List.mem_of_mem_take h)
  obtain ⟨piece, hin, rfl⟩ := List.mem_map.mp hpiece
  refine ⟨of_decide_eq_true hne, fun c hc => ?_⟩
  have hsub : trim piece ⊆ piece := fun d hd =>
    (List.dropWhile_suffix _).subset ((List.rdropWhile_prefix _ _).subset (by rwa [← Routing.trim_eq]))
  simpa using separated hin c (hsub hc)

/-- A character of a term may stand in a bare word, and is neither a quote nor a null character. -/
theorem bare_of_word {U : Unicode} {c : Char} (h : U.isWord c = true) :
    isBare c = true ∧ c ≠ '"' ∧ c ≠ '\x00' := by
  have hascii : ∀ d : Char, d.toNat < 128 → (d.isAlphanum || d == '_') = false → c ≠ d := by
    rintro d hlow hno rfl
    rw [U.isWord_ascii c hlow, hno] at h
    cases h
  refine ⟨?_, hascii _ (by decide) (by decide), hascii _ (by decide) (by decide)⟩
  by_cases hlow : c.toNat < 128
  · rw [U.isWord_ascii c hlow] at h
    simp only [isBare, Bool.or_assoc] at h ⊢
    rw [← Bool.or_assoc c.isAlphanum, h]
    simp
  · simp [isBare, Nat.le_of_not_lt hlow]

/-! ### Reading the text back -/

theorem readQuoted_doubled {text : List Char} (hnull : '\x00' ∉ text) {rest : List Char}
    (hrest : rest.head? ≠ some '"') : readQuoted (doubled text ++ '"' :: rest) = some (text, rest) := by
  induction text with
  | nil =>
    cases rest with
    | nil => rfl
    | cons d rest =>
      have hd : d ≠ '"' := fun heq => hrest (by rw [heq]; rfl)
      simp [doubled, readQuoted, hd]
  | cons c text ih =>
    rw [List.mem_cons, not_or] at hnull
    have hback := ih hnull.2
    by_cases hquote : c = '"'
    · have hdouble : doubled (c :: text) ++ '"' :: rest = '"' :: '"' :: (doubled text ++ '"' :: rest) := by
        simp [doubled, hquote]
      rw [hdouble, readQuoted, hback, hquote]
      rfl
    · have hsingle : doubled (c :: text) ++ '"' :: rest = c :: (doubled text ++ '"' :: rest) := by
        simp [doubled, hquote]
      obtain ⟨d, more, hmore⟩ : ∃ d more, doubled text ++ '"' :: rest = d :: more :=
        List.exists_cons_of_ne_nil (List.append_ne_nil_of_right_ne_nil _ (List.cons_ne_nil _ _))
      rw [hsingle, hmore, readQuoted, if_neg (Ne.symm hnull.1), if_neg hquote, ← hmore, hback]
      rfl

theorem readQuoted_null {text : List Char} (hnull : '\x00' ∈ text) (rest : List Char) :
    readQuoted (doubled text ++ '"' :: rest) = none := by
  induction text with
  | nil => cases hnull
  | cons c text ih =>
    obtain ⟨d, more, hmore⟩ : ∃ d more, doubled text ++ '"' :: rest = d :: more :=
      List.exists_cons_of_ne_nil (List.append_ne_nil_of_right_ne_nil _ (List.cons_ne_nil _ _))
    by_cases hquote : c = '"'
    · have hdouble : doubled (c :: text) ++ '"' :: rest = '"' :: '"' :: (doubled text ++ '"' :: rest) := by
        simp [doubled, hquote]
      have hin : '\x00' ∈ text := by
        obtain heq | hin := List.mem_cons.mp hnull
        · rw [hquote] at heq
          cases heq
        · exact hin
      rw [hdouble, readQuoted, ih hin]
      rfl
    · have hsingle : doubled (c :: text) ++ '"' :: rest = c :: (doubled text ++ '"' :: rest) := by
        simp [doubled, hquote]
      rw [hsingle, hmore, readQuoted]
      by_cases hc : c = '\x00'
      · rw [if_pos hc]
      · have hin : '\x00' ∈ text := (List.mem_cons.mp hnull).resolve_left (Ne.symm hc)
        rw [if_neg hc, if_neg hquote, ← hmore, ih hin]
        rfl

theorem lex_quoted {text : List Char} (hnull : '\x00' ∉ text) (rest : List Char)
    (hrest : rest.head? ≠ some '"') : lex (quoted text ++ rest) = (lex rest).map (.string text :: ·) := by
  have hread := readQuoted_doubled hnull hrest
  have hshape : quoted text ++ rest = '"' :: (doubled text ++ '"' :: rest) := by simp [quoted]
  rw [hshape, lex]
  simp only [Char.reduceEq, if_false, or_self, if_true]
  split
  · next hnone => rw [hread] at hnone; cases hnone
  · next inside more hsome =>
    rw [hread] at hsome
    cases hsome
    rfl

theorem lex_quoted_null {text : List Char} (hnull : '\x00' ∈ text) (rest : List Char) :
    lex (quoted text ++ rest) = none := by
  have hread := readQuoted_null hnull rest
  have hshape : quoted text ++ rest = '"' :: (doubled text ++ '"' :: rest) := by simp [quoted]
  rw [hshape, lex]
  simp only [Char.reduceEq, if_false, or_self, if_true]
  split
  · rfl
  · next inside more hsome => rw [hread] at hsome; cases hsome

theorem lex_word {word : List Char} (hne : word ≠ []) (hbare : ∀ c ∈ word, isBare c = true)
    (rest : List Char) (hrest : ∀ c ∈ rest.head?, isBare c = false) :
    lex (word ++ rest) = (lex rest).map (wordToken word :: ·) := by
  cases word with
  | nil => exact absurd rfl hne
  | cons c word =>
    have hc := hbare c List.mem_cons_self
    have hmark : ∀ d : Char, isBare d = false → c ≠ d := by
      rintro d hd rfl
      rw [hc] at hd
      cases hd
    have htail : ∀ d ∈ word, isBare d = true := fun d hd => hbare d (List.mem_cons_of_mem _ hd)
    have htake : (word ++ rest).takeWhile isBare = word ∧ (word ++ rest).dropWhile isBare = rest := by
      rw [List.takeWhile_append_of_pos htail, List.dropWhile_append_of_pos htail]
      cases rest with
      | nil => exact ⟨List.append_nil _, rfl⟩
      | cons d rest =>
        have hd := hrest d rfl
        rw [List.takeWhile_cons_of_neg (by simp [hd]), List.dropWhile_cons_of_neg (by simp [hd])]
        exact ⟨List.append_nil _, rfl⟩
    rw [List.cons_append, lex]
    rw [if_neg (hmark _ (by decide)), if_neg (by simp [hmark _ (by decide : isBare ' ' = false),
        hmark _ (by decide : isBare '\t' = false), hmark _ (by decide : isBare '\n' = false),
        hmark _ (by decide : isBare '\r' = false)]), if_neg (hmark _ (by decide)),
      if_neg (hmark _ (by decide)), if_neg (hmark _ (by decide)), if_neg (hmark _ (by decide)),
      if_neg (hmark _ (by decide)), if_pos hc, htake.1, htake.2]

theorem lex_blank (rest : List Char) : lex (' ' :: rest) = lex rest := by
  rw [lex]
  simp

theorem lex_colon (rest : List Char) : lex (':' :: rest) = (lex rest).map (.colon :: ·) := by
  rw [lex]
  simp

/-- A word of the expression's own between blanks. -/
theorem lex_between {word : List Char} (hne : word ≠ []) (hbare : ∀ c ∈ word, isBare c = true)
    (rest : List Char) : lex (' ' :: (word ++ ' ' :: rest)) = (lex rest).map (wordToken word :: ·) := by
  rw [lex_blank, lex_word hne hbare (' ' :: rest) (fun c hc => by cases hc; decide), lex_blank]

theorem lex_and (rest : List Char) :
    lex (" AND ".toList ++ rest) = (lex rest).map (.and :: ·) :=
  lex_between (List.cons_ne_nil 'A' ['N', 'D']) (by decide) rest

/-! ### The parts of an expression -/

/-- A part: its text, its tokens and its query, if they are one. -/
structure Item where
  text : List Char
  tokens : List Token
  query : Option Query

def termItem (term : List Char) : Item :=
  if 2 ≤ utf16Length term then
    ⟨termExpression term, [.lp, .string term, .or, wordToken term, .star, .rp],
      if wordToken term = .string term then some (.or (.phrase term false) (.phrase term true)) else none⟩
  else ⟨termExpression term, [.string term], some (.phrase term false)⟩

def tagItem (tag : List Char) : Item :=
  ⟨"tags : ".toList ++ quoted tag, [.string "tags".toList, .colon, .string tag],
    some (.within .tags (.phrase tag false))⟩

def joined (items : List Item) : List Char := " AND ".toList.intercalate (items.map (·.text))

def Item.Lexes (i : Item) : Prop :=
  ∀ rest : List Char, rest.head? ≠ some '"' → lex (i.text ++ rest) = (lex rest).map (i.tokens ++ ·)

/-- The end of the tokens, or the operator between two parts. -/
def AtEnd (rest : List Token) : Prop := rest = [] ∨ ∃ more, rest = .and :: more

def Item.Parses (i : Item) : Prop :=
  ∀ n rest, AtEnd rest → parseNot (n + 9) (i.tokens ++ rest) = i.query.map (·, rest)

theorem termItem_text (term : List Char) : (termItem term).text = termExpression term := by
  unfold termItem
  split <;> rfl

theorem termItem_lexes {U : Unicode} {term : List Char} (hword : Word U term) :
    (termItem term).Lexes := by
  have hnull : '\x00' ∉ term := fun hin => (bare_of_word (hword.all _ hin)).2.2 rfl
  have hbare : ∀ c ∈ term, isBare c = true := fun c hc => (bare_of_word (hword.all c hc)).1
  intro rest hrest
  unfold termItem termExpression
  split
  · have hopen : ∀ more, lex ('(' :: more) = (lex more).map (.lp :: ·) := fun more => by
      rw [lex]; simp
    have hor : ∀ more, lex (" OR ".toList ++ (term ++ '*' :: more)) =
        (lex ('*' :: more)).map fun ts => .or :: wordToken term :: ts := by
      intro more
      have hterm := lex_word hword.ne hbare ('*' :: more) (fun c hc => by cases hc; decide)
      have hoperator := lex_between (List.cons_ne_nil 'O' ['R']) (by decide) (term ++ '*' :: more)
      rw [hterm, Option.map_map] at hoperator
      exact hoperator
    have hclose : lex ('*' :: ')' :: rest) = (lex rest).map fun ts => .star :: .rp :: ts := by
      rw [lex]
      simp only [Char.reduceEq, if_false, or_self, if_true]
      rw [lex]
      simp [Function.comp_def]
    have hquoted := lex_quoted hnull (" OR ".toList ++ (term ++ '*' :: ')' :: rest)) (by simp)
    have hshape : '(' :: (quoted term ++ " OR ".toList ++ term ++ "*)".toList) ++ rest =
        '(' :: (quoted term ++ (" OR ".toList ++ (term ++ '*' :: ')' :: rest))) := by
      simp [List.append_assoc]
    dsimp only
    rw [hshape, hopen, hquoted, hor, hclose]
    simp [Function.comp_def]
  · exact lex_quoted hnull rest hrest

theorem lex_tags (rest : List Char) : lex ("tags : ".toList ++ rest) =
    (lex rest).map fun ts => .string "tags".toList :: .colon :: ts := by
  have hname := lex_word (List.cons_ne_nil 't' ['a', 'g', 's']) (by decide)
    (' ' :: ':' :: ' ' :: rest) (fun c hc => by cases hc; decide)
  rw [lex_blank, lex_colon, lex_blank, Option.map_map] at hname
  exact hname

theorem tagItem_lexes {tag : List Char} (hnull : '\x00' ∉ tag) : (tagItem tag).Lexes := by
  intro rest hrest
  have hshape : (tagItem tag).text ++ rest = "tags : ".toList ++ (quoted tag ++ rest) :=
    List.append_assoc ..
  rw [hshape, lex_tags, lex_quoted hnull rest hrest, Option.map_map]
  rfl

theorem columnOf_tags : columnOf "tags".toList = some .tags := by decide

theorem parseSet_atEnd {rest : List Token} (h : AtEnd rest) : parseSet rest = none := by
  obtain rfl | ⟨more, rfl⟩ := h <;> rfl

theorem moreNot_atEnd {rest : List Token} (h : AtEnd rest) (n : Nat) (q : Query) :
    moreNot (n + 1) q rest = some (q, rest) := by
  obtain rfl | ⟨more, rfl⟩ := h <;> simp [moreNot]

theorem parsePhrase_atEnd {rest : List Token} (h : AtEnd rest) (text : List Char) :
    parsePhrase (.string text :: rest) = some (.phrase text false, rest) := by
  obtain rfl | ⟨more, rfl⟩ := h <;> rfl

/-- A set before a token that begins none and is not `NOT`: nothing stands beside it. -/
theorem parseNot_set {tokens rest : List Token} {q : Query}
    (hprimary : ∀ n, parsePrimary (n + 1) tokens = (parseSet tokens).map fun r => parseSets n r.1 r.2)
    (hset : parseSet tokens = some (q, rest)) (hnone : parseSet rest = none)
    (hnot : ∀ n, moreNot (n + 1) q rest = some (q, rest)) (n : Nat) :
    parseNot (n + 3) tokens = some (q, rest) := by
  have halone : parseSets (n + 1) q rest = (q, rest) := by
    rw [parseSets, hnone]
  rw [parseNot, hprimary, hset, Option.map_some, halone, Option.bind_some, hnot]

theorem parseOr_term (n : Nat) (text : List Char) (rest : List Token) :
    parseOr (n + 6) (.string text :: .or :: .string text :: .star :: .rp :: rest) =
      some (.or (.phrase text false) (.phrase text true), .rp :: rest) := by
  have hleft : parseNot (n + 4) (.string text :: .or :: .string text :: .star :: .rp :: rest) =
      some (.phrase text false, .or :: .string text :: .star :: .rp :: rest) :=
    parseNot_set (fun m => by simp only [parsePrimary]) rfl rfl (fun m => by simp only [moreNot]) (n + 1)
  have hright : parseNot (n + 3) (.string text :: .star :: .rp :: rest) =
      some (.phrase text true, .rp :: rest) :=
    parseNot_set (fun m => by simp only [parsePrimary]) rfl rfl (fun m => by simp only [moreNot]) n
  rw [parseOr, parseAnd, hleft, Option.bind_some, moreAnd, Option.bind_some, moreOr, parseAnd, hright,
    Option.bind_some, moreAnd, Option.bind_some, moreOr]
  all_goals nofun

/-- A phrase within a column, before the end. -/
theorem parseNot_within {name : List Char} {column : Column} (hname : columnOf name = some column)
    (text : List Char) {rest : List Token} (hrest : AtEnd rest) (n : Nat) :
    parseNot (n + 3) (.string name :: .colon :: .string text :: rest) =
      some (.within column (.phrase text false), rest) := by
  refine parseNot_set (fun m => by simp only [parsePrimary]) ?_ (parseSet_atEnd hrest)
    (fun m => moreNot_atEnd hrest m _) n
  rw [parseSet, hname, parsePhrase_atEnd hrest]
  rfl

theorem tagItem_parses (tag : List Char) : (tagItem tag).Parses :=
  fun n _ hrest => parseNot_within columnOf_tags tag hrest (n + 6)

/-- No expression begins with an operator. -/
theorem parseAnd_operator {t : Token} (ht : t = .and ∨ t = .or ∨ t = .not) (n : Nat)
    (rest : List Token) : parseAnd (n + 3) (t :: rest) = none := by
  obtain rfl | rfl | rfl := ht <;> simp [parseAnd, parseNot, parsePrimary, parseSet, parsePhrase]

theorem wordToken_cases (word : List Char) : wordToken word = .string word ∨
    2 ≤ utf16Length word ∧ (wordToken word = .and ∨ wordToken word = .or ∨ wordToken word = .not) := by
  unfold wordToken
  split
  · next heq => rw [heq]; decide
  · split
    · next heq => rw [heq]; decide
    · split
      · next heq => rw [heq]; decide
      · exact .inl rfl

theorem termItem_parses (term : List Char) : (termItem term).Parses := by
  intro n rest hrest
  have hleft : ∀ more, parseNot (n + 5) (.string term :: .or :: more) =
      some (.phrase term false, .or :: more) := fun more =>
    parseNot_set (fun m => by simp only [parsePrimary]) rfl rfl (fun m => by simp only [moreNot]) (n + 2)
  unfold termItem
  split
  · obtain hword | ⟨-, hoperator⟩ := wordToken_cases term
    · simp only [List.cons_append, List.nil_append, hword, if_true]
      rw [parseNot, parsePrimary, parseOr_term, Option.bind_some, moreNot_atEnd hrest]
      rfl
    · have hne : wordToken term ≠ .string term := by
        rintro heq
        rw [heq] at hoperator
        simp at hoperator
      simp only [List.cons_append, List.nil_append, if_neg hne]
      rw [parseNot, parsePrimary, parseOr, parseAnd, hleft, Option.bind_some, moreAnd, Option.bind_some,
        moreOr, parseAnd_operator hoperator]
      · rfl
      all_goals nofun
  · have hset : parseSet (.string term :: rest) = some (.phrase term false, rest) := by
      obtain rfl | ⟨more, rfl⟩ := hrest <;> rfl
    refine parseNot_set (fun m => ?_) hset (parseSet_atEnd hrest)
      (fun m => moreNot_atEnd hrest m _) (n + 6)
    obtain rfl | ⟨more, rfl⟩ := hrest <;> simp [parsePrimary]

theorem termItem_query (term : List Char) :
    (termItem term).query.isSome = true ↔ ¬ IsOperator term := by
  have hshort : utf16Length term < 2 → wordToken term = .string term := fun hlt =>
    (wordToken_cases term).resolve_right fun h => absurd h.1 (by omega)
  unfold termItem IsOperator
  split
  · by_cases hword : wordToken term = .string term <;> simp [hword]
  · next hlong => simp [hshort (by omega)]

/-! ### A whole expression -/

def parts (items : List Item) : List Char := items.flatMap fun i => " AND ".toList ++ i.text

def tokensOf (items : List Item) : List Token := items.flatMap fun i => .and :: i.tokens

def conjunction (q : Query) (items : List Item) : Option Query :=
  items.foldlM (fun p i => i.query.map (.and p ·)) q

theorem joined_cons (i : Item) (items : List Item) : joined (i :: items) = i.text ++ parts items := by
  induction items generalizing i with
  | nil => simp [joined, parts]
  | cons j items ih =>
    have hback := ih j
    unfold joined at hback ⊢
    simp only [List.map_cons] at hback ⊢
    rw [List.intercalate_cons_cons, hback]
    simp [parts]

theorem lex_parts {items : List Item} (h : ∀ i ∈ items, i.Lexes) {rest : List Char}
    (hrest : rest.head? ≠ some '"') :
    lex (parts items ++ rest) = (lex rest).map (tokensOf items ++ ·) := by
  induction items with
  | nil => simp [parts, tokensOf]
  | cons i items ih =>
    have hhead : (parts items ++ rest).head? ≠ some '"' := by
      cases items with
      | nil => exact hrest
      | cons j items => simp [parts]
    have hshape : parts (i :: items) ++ rest = " AND ".toList ++ (i.text ++ (parts items ++ rest)) := by
      simp [parts, List.append_assoc]
    rw [hshape, lex_and, h i List.mem_cons_self _ hhead, ih fun j hj => h j (List.mem_cons_of_mem _ hj),
      Option.map_map, Option.map_map]
    simp [tokensOf, Function.comp_def, List.append_assoc]

theorem lex_joined {i : Item} {items : List Item} (h : ∀ j ∈ i :: items, j.Lexes) :
    lex (joined (i :: items)) = some (i.tokens ++ tokensOf items) := by
  have hitems : lex (parts items ++ []) = (lex []).map (tokensOf items ++ ·) :=
    lex_parts (fun j hj => h j (List.mem_cons_of_mem _ hj)) (by simp)
  have hhead : (parts items).head? ≠ some '"' := by
    cases items <;> simp [parts]
  rw [List.append_nil] at hitems
  rw [joined_cons, h i List.mem_cons_self _ hhead, hitems, lex]
  simp

theorem atEnd_tokensOf (items : List Item) : AtEnd (tokensOf items) := by
  cases items with
  | nil => exact .inl rfl
  | cons i items => exact .inr ⟨_, rfl⟩

theorem moreAnd_items {items : List Item} (h : ∀ i ∈ items, i.Parses) (n : Nat) (q : Query) :
    moreAnd (n + 10 + items.length) q (tokensOf items) = (conjunction q items).map (·, []) := by
  induction items generalizing q with
  | nil =>
    simp only [tokensOf, List.flatMap_nil, List.length_nil, moreAnd]
    rfl
  | cons i items ih =>
    have hfirst := h i List.mem_cons_self (n + 1 + items.length) _ (atEnd_tokensOf items)
    have hmore := ih fun j hj => h j (List.mem_cons_of_mem _ hj)
    have hbound : n + 10 + (i :: items).length = n + 1 + items.length + 9 + 1 := by
      rw [List.length_cons]
      omega
    have hless : n + 1 + items.length + 9 = n + 10 + items.length := by omega
    have hshape : tokensOf (i :: items) = .and :: (i.tokens ++ tokensOf items) := rfl
    rw [hbound, hshape, moreAnd, hfirst, hless]
    cases hquery : i.query with
    | none => simp [conjunction, hquery]
    | some p => simp [hmore, conjunction, hquery]

theorem length_tokensOf (items : List Item) : items.length ≤ (tokensOf items).length := by
  induction items with
  | nil => exact Nat.le_refl _
  | cons i items ih =>
    have hshape : tokensOf (i :: items) = .and :: (i.tokens ++ tokensOf items) := rfl
    rw [hshape, List.length_cons, List.length_cons, List.length_append]
    omega

theorem parse_joined {i : Item} {items : List Item} (hlex : ∀ j ∈ i :: items, j.Lexes)
    (h : ∀ j ∈ i :: items, j.Parses) :
    parse (joined (i :: items)) = i.query.bind (conjunction · items) := by
  have hlength := length_tokensOf items
  obtain ⟨n, hn⟩ : ∃ n, 8 * (i.tokens ++ tokensOf items).length + 16 = n + items.length + 12 :=
    ⟨8 * (i.tokens ++ tokensOf items).length + 4 - items.length, by
      rw [List.length_append]; omega⟩
  have hfirst := h i List.mem_cons_self (n + items.length + 1) _ (atEnd_tokensOf items)
  have hmore := moreAnd_items (fun j hj => h j (List.mem_cons_of_mem _ hj)) n
  rw [show n + items.length + 1 + 9 = n + items.length + 10 by omega] at hfirst
  rw [show n + 10 + items.length = n + items.length + 10 by omega] at hmore
  rw [parse, lex_joined hlex, Option.bind_some, hn, parseOr, parseAnd, hfirst]
  cases i.query with
  | none => rfl
  | some p =>
    simp only [Option.map_some, Option.bind_some, hmore]
    cases conjunction p items with
    | none => rfl
    | some q => simp [moreOr]

theorem parts_concat (items : List Item) (last : Item) :
    parts (items ++ [last]) = parts items ++ (" AND ".toList ++ last.text) := by
  unfold parts
  rw [List.flatMap_append, List.flatMap_singleton]

theorem lex_joined_null {items : List Item} (h : ∀ i ∈ items, i.Lexes) {tag : List Char}
    (hnull : '\x00' ∈ tag) : lex (joined (items ++ [tagItem tag])) = none := by
  have htag : lex (tagItem tag).text = none := by
    have hquoted := lex_quoted_null hnull []
    rw [List.append_nil] at hquoted
    have hread := lex_tags (quoted tag)
    rwa [hquoted] at hread
  cases items with
  | nil => rwa [List.nil_append, joined_cons, parts, List.flatMap_nil, List.append_nil]
  | cons i items =>
    have hnone : lex (" AND ".toList ++ (tagItem tag).text) = none := by rw [lex_and, htag]; rfl
    have hhead : (parts items ++ (" AND ".toList ++ (tagItem tag).text)).head? ≠ some '"' := by
      cases items <;> simp [parts]
    have hrest : (" AND ".toList ++ (tagItem tag).text).head? ≠ some '"' := by simp
    rw [List.cons_append, joined_cons, parts_concat, h i List.mem_cons_self _ hhead,
      lex_parts (fun j hj => h j (List.mem_cons_of_mem _ hj)) hrest, hnone]
    rfl

/-! ### What the code builds -/

section Built
variable (U : Unicode)

def itemsOf (q tag : List Char) : List Item :=
  (termsOf U q).map termItem ++ if tag = [] then [] else [tagItem (tagText U tag)]

theorem termsOf_nil : termsOf U [] = [] := by
  simp [termsOf, trim]

theorem matchExpression_eq (query : List Char) : matchExpression U query =
    if termsOf U query = [] then none else some (joined ((termsOf U query).map termItem)) := by
  have htexts : ((termsOf U query).map termItem).map (·.text) = (termsOf U query).map termExpression := by
    rw [List.map_map]
    exact List.map_congr_left fun term _ => termItem_text term
  unfold matchExpression joined
  rw [htexts]

/-- An expression is built of the parts that are asked, if all of them can be. -/
theorem buildMatch_expression {q tag text : List Char} : buildMatch U q tag = .expression text ↔
    (q ≠ [] → termsOf U q ≠ []) ∧ (tag ≠ [] → tagText U tag ≠ []) ∧ itemsOf U q tag ≠ [] ∧
      text = joined (itemsOf U q tag) := by
  have hjoined : ∀ (terms : List (List Char)) (last : Item), terms ≠ [] →
      joined (terms.map termItem) ++ " AND ".toList ++ last.text =
        joined (terms.map termItem ++ [last]) := by
    intro terms last hterms
    obtain ⟨term, more, rfl⟩ := List.exists_cons_of_ne_nil hterms
    rw [List.map_cons, List.cons_append, joined_cons, joined_cons, parts_concat, List.append_assoc,
      List.append_assoc]
  have htagged : tagExpression U tag = (tagItem (tagText U tag)).text := rfl
  have halone : joined [tagItem (tagText U tag)] = (tagItem (tagText U tag)).text := by
    rw [joined_cons]
    exact List.append_nil _
  unfold buildMatch itemsOf
  rw [matchExpression_eq, htagged]
  generalize tagItem (tagText U tag) = last at halone ⊢
  generalize tagText U tag = lower
  by_cases hq : q = []
  · subst hq
    by_cases htag : tag = []
    · simp [htag, termsOf_nil]
    · by_cases hempty : lower = []
      · simp [htag, hempty]
      · simp [htag, hempty, termsOf_nil, halone, eq_comm]
  · by_cases hterms : termsOf U q = []
    · simp [hq, hterms]
    · by_cases htag : tag = []
      · rw [if_neg hq, if_neg hterms, if_pos htag]
        simp [htag, hterms]
        exact eq_comm
      · by_cases hempty : lower = []
        · simp [hq, hterms, htag, hempty]
        · rw [if_neg hq, if_neg hterms, if_neg htag]
          simp only [Option.map_some, if_neg htag, if_neg hempty, hjoined _ last hterms]
          simp [hempty, hterms]
          exact eq_comm

theorem itemsOf_lexes (q : List Char) {tag : List Char} (hnull : tag ≠ [] → '\x00' ∉ tagText U tag) :
    ∀ i ∈ itemsOf U q tag, i.Lexes := by
  intro i hi
  obtain hi | hi := List.mem_append.mp hi
  · obtain ⟨term, hterm, rfl⟩ := List.mem_map.mp hi
    exact termItem_lexes (word_of_mem hterm)
  · split at hi
    · cases hi
    · next htag =>
      cases List.mem_singleton.mp hi
      exact tagItem_lexes (hnull htag)

theorem itemsOf_parses (q tag : List Char) : ∀ i ∈ itemsOf U q tag, i.Parses := by
  intro i hi
  obtain hi | hi := List.mem_append.mp hi
  · obtain ⟨term, -, rfl⟩ := List.mem_map.mp hi
    exact termItem_parses term
  · split at hi
    · cases hi
    · cases List.mem_singleton.mp hi
      exact tagItem_parses _

theorem itemsOf_queries (q tag : List Char) : (∀ i ∈ itemsOf U q tag, i.query.isSome = true) ↔
    ∀ term ∈ termsOf U q, ¬ IsOperator term := by
  unfold itemsOf
  rw [List.forall_mem_append, List.forall_mem_map]
  have htag : ∀ i ∈ (if tag = [] then [] else [tagItem (tagText U tag)]), i.query.isSome = true := by
    intro i hi
    split at hi
    · cases hi
    · cases List.mem_singleton.mp hi
      rfl
  exact (and_iff_left htag).trans (forall₂_congr fun term _ => termItem_query term)

theorem lex_itemsOf_null {q tag : List Char} (htag : tag ≠ []) (hnull : '\x00' ∈ tagText U tag) :
    lex (joined (itemsOf U q tag)) = none := by
  unfold itemsOf
  rw [if_neg htag]
  refine lex_joined_null (fun i hi => ?_) hnull
  obtain ⟨term, hterm, rfl⟩ := List.mem_map.mp hi
  exact termItem_lexes (word_of_mem hterm)

/-! ### What it selects -/

variable (tokenize : List Char → Words)

theorem conjunction_some {items : List Item} (h : ∀ i ∈ items, i.query.isSome = true) (q : Query) :
    ∃ r, conjunction q items = some r ∧ ∀ row allowed, Holds tokenize row allowed r ↔
      Holds tokenize row allowed q ∧ ∀ i ∈ items, ∀ p ∈ i.query, Holds tokenize row allowed p := by
  induction items generalizing q with
  | nil => exact ⟨q, rfl, fun row allowed => by simp⟩
  | cons i items ih =>
    obtain ⟨p, hp⟩ := Option.isSome_iff_exists.mp (h i List.mem_cons_self)
    obtain ⟨r, hr, hholds⟩ := ih (fun j hj => h j (List.mem_cons_of_mem _ hj)) (.and q p)
    refine ⟨r, ?_, fun row allowed => ?_⟩
    · simpa [conjunction, hp] using hr
    · rw [hholds, Holds, List.forall_mem_cons, and_assoc]
      simp [hp]

theorem queries_of_conjunction {items : List Item} {q r : Query} (h : conjunction q items = some r) :
    ∀ i ∈ items, i.query.isSome = true := by
  induction items generalizing q with
  | nil => exact List.forall_mem_nil _
  | cons i items ih =>
    cases hp : i.query with
    | none => simp [conjunction, hp] at h
    | some p =>
      refine List.forall_mem_cons.mpr ⟨by rw [hp]; rfl, ih (q := .and q p) ?_⟩
      simpa [conjunction, hp] using h

theorem holds_termItem (row : Row) {term : List Char} (hplain : ¬ IsOperator term) :
    (∀ p ∈ (termItem term).query, Holds tokenize row (fun _ => True) p) ↔ Occurs tokenize row term := by
  have hword : wordToken term = .string term := by
    by_contra hne
    exact hplain hne
  unfold termItem Occurs
  split
  · next hlong =>
    rw [hword]
    simp [Holds, hlong]
  · next hshort => simp [Holds, hshort]

theorem holds_tagItem (row : Row) (tag : List Char) :
    (∀ p ∈ (tagItem tag).query, Holds tokenize row (fun _ => True) p) ↔
      Whole (tokenize tag) (row .tags) := by
  have hquery : (tagItem tag).query = some (.within .tags (.phrase tag false)) := rfl
  rw [hquery]
  simp [Holds]

theorem holds_itemsOf (row : Row) {q : List Char} (tag : List Char)
    (hplain : ∀ term ∈ termsOf U q, ¬ IsOperator term) :
    (∀ i ∈ itemsOf U q tag, ∀ p ∈ i.query, Holds tokenize row (fun _ => True) p) ↔
      Selected tokenize U q tag row := by
  unfold itemsOf Selected
  rw [List.forall_mem_append, List.forall_mem_map]
  refine and_congr (forall₂_congr fun term hterm => holds_termItem tokenize row (hplain term hterm)) ?_
  split
  · next htag => simp [htag]
  · next htag => simp only [List.mem_singleton, forall_eq, holds_tagItem, htag, ne_eq, not_false_eq_true,
      forall_const]

end Built

theorem inert_of_lawful {U : Unicode} {tokenize : List Char → Words} {q tag : List Char}
    (hlaw : Lawful tokenize U q tag) : Inert U q tag := by
  intro hq htag
  cases hitems : itemsOf U q tag with
  | nil =>
    obtain ⟨hterms, hrest⟩ := List.append_eq_nil_iff.mp hitems
    have hnone : tag = [] := by
      by_contra htag
      rw [if_neg htag] at hrest
      cases hrest
    rw [List.map_eq_nil_iff] at hterms
    rw [hterms]
    exact ⟨List.forall_mem_nil _, fun h => absurd hnone h⟩
  | cons i items =>
    have hne : itemsOf U q tag ≠ [] := by
      rw [hitems]
      exact List.cons_ne_nil i items
    obtain ⟨query, hparse, -⟩ := hlaw _ ((buildMatch_expression U).mpr ⟨hq, htag, hne, rfl⟩)
    have hnull : tag ≠ [] → '\x00' ∉ tagText U tag := by
      intro htag hin
      rw [parse, lex_itemsOf_null U htag hin] at hparse
      cases hparse
    refine ⟨(itemsOf_queries U q tag).mp ?_, hnull⟩
    have hlex := itemsOf_lexes U q hnull
    have hparses := itemsOf_parses U q tag
    rw [hitems] at hparse hlex hparses ⊢
    rw [parse_joined hlex hparses, Option.bind_eq_some_iff] at hparse
    obtain ⟨p, hp, hconjunction⟩ := hparse
    exact List.forall_mem_cons.mpr ⟨by rw [hp]; rfl, queries_of_conjunction hconjunction⟩

/-- A search does what its filters ask if and only if no term is an operator of FTS5 and the tag has no
null character. -/
theorem search_lawful_iff (U : Unicode) (tokenize : List Char → Words) (q tag : List Char) :
    Lawful tokenize U q tag ↔ Inert U q tag := by
  refine ⟨inert_of_lawful, fun hinert text hbuilt => ?_⟩
  obtain ⟨hq, htag, hne, rfl⟩ := (buildMatch_expression U).mp hbuilt
  obtain ⟨hplain, hnull⟩ := hinert hq htag
  obtain ⟨i, items, hitems⟩ := List.exists_cons_of_ne_nil hne
  have hlex := itemsOf_lexes U q hnull
  have hparses := itemsOf_parses U q tag
  have hqueries := (itemsOf_queries U q tag).mpr hplain
  have hselected := fun row => holds_itemsOf U tokenize row tag hplain
  rw [hitems] at hlex hparses hqueries hselected ⊢
  obtain ⟨p, hp⟩ := Option.isSome_iff_exists.mp (hqueries i List.mem_cons_self)
  obtain ⟨query, hquery, hholds⟩ :=
    conjunction_some tokenize (fun j hj => hqueries j (List.mem_cons_of_mem _ hj)) p
  refine ⟨query, ?_, fun row => ?_⟩
  · rw [parse_joined hlex hparses, hp, Option.bind_some, hquery]
  · rw [hholds, ← hselected, List.forall_mem_cons, hp]
    simp

def asciiUnicode : Unicode where
  isWord c := c.toNat < 128 && (c.isAlphanum || c == '_')
  isWord_ascii := fun c h => by simp [h]
  isWord_space := fun c h => by
    have hlow : c.toNat < 128 := of_decide_eq_true (Bool.and_eq_true_iff.mp h).1
    have htable : ∀ n < 128, ((Char.ofNat n).isAlphanum || Char.ofNat n == '_') = true →
        isSpace (Char.ofNat n) = false := by decide
    have hc := htable c.toNat hlow
    rw [Char.ofNat_toNat] at hc
    exact hc (Bool.and_eq_true_iff.mp h).2
  toLowerCase text := text.map Char.toLower

/-- The words `AND`, `OR` and `NOT` in a query are operators, and the search fails. -/
theorem and_is_operator : ¬ ∀ (U : Unicode) (tokenize : List Char → Words) (q tag : List Char),
    Lawful tokenize U q tag := by
  intro h
  have hterms : termsOf asciiUnicode "rock AND roll".toList =
      ["rock".toList, "AND".toList, "roll".toList] := by decide
  have hinert := inert_of_lawful (h asciiUnicode (fun text => [text]) "rock AND roll".toList [])
  unfold Inert at hinert
  rw [hterms] at hinert
  have hplain := (hinert (fun _ => List.cons_ne_nil _ _) (absurd rfl)).1 "AND".toList (by simp)
  exact hplain (by unfold IsOperator; decide)

end Apim.Search
