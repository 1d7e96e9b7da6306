import Apim.Lib.Regex
import Apim.Shared.JsRegex
import Apim.Shared.XsdPattern
import Mathlib.Algebra.GroupWithZero.Nat

/-!
# The pattern linter

`lintPattern` (`shared/policy.ts:637-725`) looks for the constructs that make a backtracking matcher try one
text in many ways. It reads the characters of a pattern once, with a stack of the groups that are open, and
the body of a group again where the group is repeated. Here it is read over the texts of expressions: what it
lets through has no repeated group with a quantifier or an alternative in it, the question mark apart, and a
repeated group without these matches a text in one way.
-/

namespace Apim.PatternLint
open Regex (Times)
open JsRegex (isDigit numberOf)
open XsdPattern (Digits)

abbrev Text := List Char

/-! ### The linter -/

structure Scan where
  escaped : Bool
  inClass : Bool

def Scan.outside : Scan := ⟨false, false⟩

def Scan.step (s : Scan) (c : Char) : Scan :=
  if s.escaped then { s with escaped := false }
  else if c = '\\' then { s with escaped := true }
  else if s.inClass then { s with inClass := c != ']' }
  else { s with inClass := c == '[' }

def Scan.reads (s : Scan) (c : Char) : Bool := !s.escaped && !s.inClass && c != '\\'

def hasQuantifierOrAlternation : Scan → Text → Bool
  | _, [] => false
  | s, c :: rest =>
    (s.reads c && (c == '*' || c == '+' || c == '\x7b' || c == '|')) ||
      hasQuantifierOrAlternation (s.step c) rest

def repeatsNext (rest : Text) : Bool :=
  rest.head? == some '*' || rest.head? == some '+' || rest.head? == some '\x7b'

def slice (pattern : Text) (start stop : Nat) : Text := (pattern.drop start).take (stop - start)

/-- The loop of `hasNestedQuantifier`, from an index on; the stack has the indices of the open groups. -/
def nestedFrom (pattern : Text) : Nat → Scan → List Nat → Text → Bool
  | _, _, _, [] => false
  | i, s, stack, c :: rest =>
    if s.reads c = true ∧ c = '(' then nestedFrom pattern (i + 1) (s.step c) (i :: stack) rest
    else if s.reads c = true ∧ c = ')' then
      (stack.head?.any fun start =>
          repeatsNext rest && hasQuantifierOrAlternation .outside (slice pattern (start + 1) i)) ||
        nestedFrom pattern (i + 1) (s.step c) stack.tail rest
    else nestedFrom pattern (i + 1) (s.step c) stack rest

def hasNestedQuantifier (pattern : Text) : Bool := nestedFrom pattern 0 .outside [] pattern

def startsReference : Text → Bool
  | 'k' :: '<' :: _ => true
  | c :: _ => isDigit c && c != '0'
  | [] => false

def hasBackreference : Text → Bool
  | [] => false
  | c :: rest => (c == '\\' && startsReference rest) || hasBackreference rest

def startsLook : Text → Bool
  | '?' :: '<' :: c :: _ => c == '=' || c == '!'
  | '?' :: c :: _ => c == '=' || c == '!'
  | _ => false

def hasLookaround : Text → Bool
  | [] => false
  | c :: rest => (c == '(' && startsLook rest) || hasLookaround rest

/-- A match of `/\{(\d+)(?:,(\d*))?\}/` behind its brace: the two numbers, and what follows. -/
def boundsAt (rest : Text) : Option (Nat × Nat × Text) :=
  let low := rest.takeWhile isDigit
  if low = [] then none
  else
    match rest.dropWhile isDigit with
    | '\x7d' :: rest => some (numberOf low, numberOf low, rest)
    | ',' :: rest =>
      let high := rest.takeWhile isDigit
      match rest.dropWhile isDigit with
      | '\x7d' :: rest => some (numberOf low, if high = [] then numberOf low else numberOf high, rest)
      | _ => none
    | _ => none

def boundsFrom : Nat → Text → List (Nat × Nat)
  | 0, _ => []
  | _ + 1, [] => []
  | fuel + 1, c :: rest =>
    match if c = '\x7b' then boundsAt rest else none with
    | some (low, high, rest) => (low, high) :: boundsFrom fuel rest
    | none => boundsFrom fuel rest

def MAX_PATTERN_LENGTH : Nat := 200

def utf16Length (pattern : Text) : Nat := (pattern.map fun c => if c.toNat < 0x10000 then 1 else 2).sum

abbrev Engine := Text → Option String

def lintPattern (E : Engine) (pattern : Text) (place : String) : List String :=
  (if MAX_PATTERN_LENGTH < utf16Length pattern then
    [s!"{place}: longer than {MAX_PATTERN_LENGTH} characters"] else []) ++
  (if hasBackreference pattern then
    [s!"{place}: backreferences are not allowed (they force backtracking)"] else []) ++
  (if hasLookaround pattern then
    [s!"{place}: lookahead and lookbehind are not allowed (they force backtracking)"] else []) ++
  (if hasNestedQuantifier pattern then
    [s!"{place}: a quantifier applied to a group that itself repeats or alternates is not allowed " ++
      "(catastrophic backtracking, e.g. \"(a+)+\")"] else []) ++
  ((boundsFrom (pattern.length + 1) pattern).filterMap fun (low, high) =>
    if 1000 < low ∨ 1000 < high then some s!"{place}: repetition bounds above 1000 are not allowed" else none) ++
  (match E pattern with
    | none => []
    | some message => [s!"{place}: not a valid regular expression ({message})"])

/-! ### Expressions -/

def isSpecial (c : Char) : Bool := "\\()[*+?|".toList.contains c

inductive Plain : Text → Prop
  | nil : Plain []
  | char {c : Char} {rest : Text} (hc : isSpecial c = false) (h : Plain rest) : Plain (c :: rest)
  | escape (c : Char) {rest : Text} (h : Plain rest) : Plain ('\\' :: c :: rest)

inductive ClassBody : Text → Prop
  | nil : ClassBody []
  | char {c : Char} {rest : Text} (hslash : c ≠ '\\') (hclose : c ≠ ']') (h : ClassBody rest) :
    ClassBody (c :: rest)
  | escape (c : Char) {rest : Text} (h : ClassBody rest) : ClassBody ('\\' :: c :: rest)

inductive Kind where
  | character
  | assertion
  | reference
  deriving DecidableEq, Repr

/-- The text of a single place: characters and escapes, or a class. A reference begins with a backslash and a
digit from one on, or with `\k<`. -/
structure Atom where
  kind : Kind
  text : Text
  written : Plain text ∨ ∃ body, ClassBody body ∧ text = '[' :: (body ++ [']'])
  refers : kind = .reference → ∃ rest, text = '\\' :: rest ∧ startsReference rest = true

inductive Quantifier where
  | star
  | plus
  | optional
  | exactly (n : Digits)
  | atLeast (n : Digits)
  | between (n m : Digits)

namespace Quantifier

def text : Quantifier → Text
  | .star => ['*']
  | .plus => ['+']
  | .optional => ['?']
  | .exactly n => '\x7b' :: (n.digits ++ ['\x7d'])
  | .atLeast n => '\x7b' :: (n.digits ++ [',', '\x7d'])
  | .between n m => '\x7b' :: (n.digits ++ ',' :: (m.digits ++ ['\x7d']))

def times : Quantifier → Times
  | .star => ⟨0, none⟩
  | .plus => ⟨1, none⟩
  | .optional => ⟨0, some 1⟩
  | .exactly n => ⟨n.value, some n.value⟩
  | .atLeast n => ⟨n.value, none⟩
  | .between n m => ⟨n.value, some m.value⟩

def Repeats (large : Nat) : Quantifier → Prop
  | .star | .plus | .atLeast _ => True
  | .optional => False
  | .exactly n => large ≤ n.value
  | .between _ m => large ≤ m.value

end Quantifier

abbrev Often := Option (Quantifier × Bool)

namespace Often

def text : Often → Text
  | none => []
  | some (q, lazy) => q.text ++ (if lazy then ['?'] else [])

def times : Often → Times
  | none => Times.once
  | some (q, _) => q.times

end Often

inductive Look where
  | ahead
  | notAhead
  | behind
  | notBehind
  deriving DecidableEq, Repr

def Look.text : Look → Text
  | .ahead => ['?', '=']
  | .notAhead => ['?', '!']
  | .behind => ['?', '<', '=']
  | .notBehind => ['?', '<', '!']

inductive Opening where
  | capture
  | marked (rest : Text) (written : Plain rest)
  | look (l : Look)

def Opening.text : Opening → Text
  | .capture => []
  | .marked rest _ => '?' :: rest
  | .look l => l.text

/-- An expression. It ends where it is `done`, and `bar` ends an alternative. -/
inductive Pattern where
  | done
  | bar (rest : Pattern)
  | atom (a : Atom) (often : Often) (rest : Pattern)
  | group (opening : Opening) (inner : Pattern) (often : Often) (rest : Pattern)

namespace Pattern

def text : Pattern → Text
  | .done => []
  | .bar rest => '|' :: rest.text
  | .atom a often rest => a.text ++ (often.text ++ rest.text)
  | .group opening inner often rest =>
    '(' :: (opening.text ++ (inner.text ++ ')' :: (often.text ++ rest.text)))

def groups : Pattern → List (Pattern × Often)
  | .done => []
  | .bar rest => rest.groups
  | .atom _ _ rest => rest.groups
  | .group _ inner often rest => (inner, often) :: (inner.groups ++ rest.groups)

def quantifiers : Pattern → List Quantifier
  | .done => []
  | .bar rest => rest.quantifiers
  | .atom _ often rest => (often.map (·.1)).toList ++ rest.quantifiers
  | .group _ inner often rest => (often.map (·.1)).toList ++ (inner.quantifiers ++ rest.quantifiers)

def alternates : Pattern → Bool
  | .done => false
  | .bar _ => true
  | .atom _ _ rest => rest.alternates
  | .group _ inner _ rest => inner.alternates || rest.alternates

def atoms : Pattern → List Atom
  | .done => []
  | .bar rest => rest.atoms
  | .atom a _ rest => a :: rest.atoms
  | .group _ inner _ rest => inner.atoms ++ rest.atoms

def openings : Pattern → List Opening
  | .done => []
  | .bar rest => rest.openings
  | .atom _ _ rest => rest.openings
  | .group opening inner _ rest => opening :: (inner.openings ++ rest.openings)

def Flat (p : Pattern) : Prop := p.quantifiers = [] ∧ p.alternates = false

end Pattern

/-! ### Ways to match -/

section
variable {σ ω : Type}

abbrev Matching (σ ω : Type) := List σ → List σ → List σ → ω → Prop

def OneWay (r : Matching σ ω) : Prop :=
  ∀ before taken after w w', r before taken after w → r before taken after w' → w = w'

def turnsFrom (r : Matching σ ω) : Nat → Matching σ (List (List σ × ω))
  | _, _, taken, _, [] => taken = []
  | least, before, taken, after, (u, w) :: rest =>
    ∃ v, taken = u ++ v ∧ r before u (v ++ after) w ∧ (least = 0 → u ≠ []) ∧
      turnsFrom r (least - 1) (before ++ u) v after rest

def turns (r : Matching σ ω) (times : Times) : Matching σ (List (List σ × ω)) :=
  fun before taken after ways => times.Allows ways.length ∧ turnsFrom r times.min before taken after ways

inductive Way (σ : Type) where
  | done
  | other (rest : Way σ)
  | atom (turns : List (List σ × Unit)) (rest : Way σ)
  | group (turns : List (List σ × Way σ)) (rest : Way σ)

structure Meaning (σ : Type) where
  reads : Atom → σ → Prop
  stands : Atom → List σ → List σ → Prop
  refers : Atom → List σ → List σ → List σ → Prop
  looks : Look → Pattern → Often → List σ → List σ → Prop

def Meaning.atom (M : Meaning σ) (a : Atom) : Matching σ Unit := fun before taken after _ =>
  match a.kind with
  | .character => ∃ c, taken = [c] ∧ M.reads a c
  | .assertion => taken = [] ∧ M.stands a before after
  | .reference => M.refers a before taken after

def Meaning.ways (M : Meaning σ) : Pattern → Matching σ (Way σ) × Matching σ (Way σ)
  | .done => (fun _ taken _ w => taken = [] ∧ w = .done, fun _ _ _ _ => False)
  | .bar rest =>
    (fun _ taken _ w => taken = [] ∧ w = .done, fun before taken after w =>
      ∃ w', w = .other w' ∧ ((M.ways rest).1 before taken after w' ∨ (M.ways rest).2 before taken after w'))
  | .atom a often rest =>
    (fun before taken after w => ∃ u v ts w', taken = u ++ v ∧ w = .atom ts w' ∧
      turns (M.atom a) often.times before u (v ++ after) ts ∧ (M.ways rest).1 (before ++ u) v after w',
      (M.ways rest).2)
  | .group (.look l) inner often rest =>
    (fun before taken after w => M.looks l inner often before (taken ++ after) ∧
      (M.ways rest).1 before taken after w, (M.ways rest).2)
  | .group _ inner often rest =>
    (fun before taken after w => ∃ u v ts w', taken = u ++ v ∧ w = .group ts w' ∧
      turns (fun before taken after w => (M.ways inner).1 before taken after w ∨
        (M.ways inner).2 before taken after w) often.times before u (v ++ after) ts ∧
      (M.ways rest).1 (before ++ u) v after w', (M.ways rest).2)

def Meaning.through (M : Meaning σ) (p : Pattern) : Matching σ (Way σ) := fun before taken after w =>
  (M.ways p).1 before taken after w ∨ (M.ways p).2 before taken after w

end

/-- No repeated group has a quantifier or an alternative in it, or matches in two ways. -/
structure RulesOut {σ : Type} (M : Meaning σ) (large : Nat) (p : Pattern) : Prop where
  flat : ∀ inner q lazy, (inner, some (q, lazy)) ∈ p.groups → q.Repeats large → inner.Flat
  oneWay : ∀ inner q lazy, (inner, some (q, lazy)) ∈ p.groups → q.Repeats large →
    OneWay (turns (M.through inner) q.times)

/-! ### What the linter sees -/

theorem isSpecial_eq_false {c : Char} (h : isSpecial c = false) : c ≠ '\\' ∧ c ≠ '(' ∧ c ≠ ')' ∧ c ≠ '[' ∧
    c ≠ '*' ∧ c ≠ '+' ∧ c ≠ '?' ∧ c ≠ '|' := by
  refine ⟨?_, ?_, ?_, ?_, ?_, ?_, ?_, ?_⟩ <;>
  · rintro rfl
    exact absurd h (by decide)

def Scan.run (s : Scan) (t : Text) : Scan := t.foldl Scan.step s

theorem scan_append (s : Scan) (t rest : Text) : hasQuantifierOrAlternation s (t ++ rest) =
    (hasQuantifierOrAlternation s t || hasQuantifierOrAlternation (s.run t) rest) := by
  induction t generalizing s with
  | nil => rfl
  | cons c t ih =>
    rw [List.cons_append, hasQuantifierOrAlternation, hasQuantifierOrAlternation, ih, ← Bool.or_assoc]
    rfl

theorem not_reads_escaped (inClass : Bool) (c : Char) : ¬(⟨true, inClass⟩ : Scan).reads c = true := nofun

theorem not_reads_class (c : Char) : ¬(⟨false, true⟩ : Scan).reads c = true := nofun

structure Inert (t : Text) : Prop where
  run : Scan.outside.run t = .outside
  nested : ∀ pattern i stack rest, nestedFrom pattern i .outside stack (t ++ rest) =
    nestedFrom pattern (i + t.length) .outside stack rest

namespace Inert

theorem nil : Inert [] := ⟨rfl, fun _ _ _ _ => rfl⟩

theorem append {t u : Text} (ht : Inert t) (hu : Inert u) : Inert (t ++ u) where
  run := by
    have hrun : Scan.outside.run (t ++ u) = (Scan.outside.run t).run u := List.foldl_append ..
    rw [hrun, ht.run, hu.run]
  nested pattern i stack rest := by
    rw [List.append_assoc, ht.nested, hu.nested, List.length_append, Nat.add_assoc]

theorem char {c : Char} (hslash : c ≠ '\\') (hclass : c ≠ '[') (hopen : c ≠ '(') (hclose : c ≠ ')') :
    Inert [c] := by
  have hstep : Scan.outside.step c = .outside := by
    simp [Scan.step, Scan.outside, hslash, hclass]
  refine ⟨hstep, fun pattern i stack rest => ?_⟩
  show nestedFrom pattern i .outside stack (c :: rest) = _
  rw [nestedFrom, if_neg fun h => hopen h.2, if_neg fun h => hclose h.2, hstep]
  rfl

theorem escape (c : Char) : Inert ['\\', c] := by
  have hfirst : Scan.outside.step '\\' = ⟨true, false⟩ := rfl
  have hnext : (⟨true, false⟩ : Scan).step c = .outside := rfl
  refine ⟨by show (Scan.outside.step '\\').step c = _; rw [hfirst, hnext], fun pattern i stack rest => ?_⟩
  show nestedFrom pattern i .outside stack ('\\' :: c :: rest) = _
  rw [nestedFrom, if_neg fun h => absurd h.1 (by decide), if_neg fun h => absurd h.1 (by decide), hfirst,
    nestedFrom, if_neg fun h => not_reads_escaped _ _ h.1, if_neg fun h => not_reads_escaped _ _ h.1, hnext]
  rfl

theorem chars {t : Text} (h : ∀ c ∈ t, c ≠ '\\' ∧ c ≠ '[' ∧ c ≠ '(' ∧ c ≠ ')') : Inert t := by
  induction t with
  | nil => exact nil
  | cons c rest ih =>
    obtain ⟨⟨hslash, hclass, hopen, hclose⟩, hrest⟩ := List.forall_mem_cons.mp h
    exact append (char hslash hclass hopen hclose) (ih hrest)

theorem plain {t : Text} (h : Plain t) : Inert t := by
  induction h with
  | nil => exact nil
  | @char c rest hc _ ih =>
    obtain ⟨hslash, hopen, hclose, hclass, -⟩ := isSpecial_eq_false hc
    exact append (char hslash hclass hopen hclose) ih
  | escape c _ ih => exact append (escape c) ih

theorem classBody {t : Text} (h : ClassBody t) : (⟨false, true⟩ : Scan).run t = ⟨false, true⟩ ∧
    ∀ pattern i stack rest, nestedFrom pattern i ⟨false, true⟩ stack (t ++ rest) =
      nestedFrom pattern (i + t.length) ⟨false, true⟩ stack rest := by
  induction h with
  | nil => exact ⟨rfl, fun _ _ _ _ => rfl⟩
  | @char c t hslash hclose _ ih =>
    have hstep : (⟨false, true⟩ : Scan).step c = ⟨false, true⟩ := by
      simp [Scan.step, hslash, hclose]
    refine ⟨?_, fun pattern i stack rest => ?_⟩
    · show ((⟨false, true⟩ : Scan).step c).run t = _
      rw [hstep, ih.1]
    · rw [List.cons_append, nestedFrom, if_neg fun h => not_reads_class _ h.1,
        if_neg fun h => not_reads_class _ h.1, hstep, ih.2, List.length_cons]
      congr 1
      omega
  | @escape c t _ ih =>
    have hfirst : (⟨false, true⟩ : Scan).step '\\' = ⟨true, true⟩ := rfl
    have hnext : (⟨true, true⟩ : Scan).step c = ⟨false, true⟩ := rfl
    refine ⟨?_, fun pattern i stack rest => ?_⟩
    · show (((⟨false, true⟩ : Scan).step '\\').step c).run t = _
      rw [hfirst, hnext, ih.1]
    · rw [List.cons_append, List.cons_append, nestedFrom, if_neg fun h => absurd h.1 (by decide),
        if_neg fun h => absurd h.1 (by decide), hfirst, nestedFrom, if_neg fun h => not_reads_escaped _ _ h.1,
        if_neg fun h => not_reads_escaped _ _ h.1, hnext, ih.2, List.length_cons, List.length_cons]
      congr 1
      omega

theorem cls {body : Text} (h : ClassBody body) : Inert ('[' :: (body ++ [']'])) := by
  obtain ⟨hrun, hnested⟩ := classBody h
  have hfirst : Scan.outside.step '[' = ⟨false, true⟩ := rfl
  have hlast : (⟨false, true⟩ : Scan).step ']' = .outside := rfl
  constructor
  · show (Scan.outside.step '[').run (body ++ [']']) = _
    rw [hfirst, Scan.run, List.foldl_append]
    show ((⟨false, true⟩ : Scan).run body).step ']' = _
    rw [hrun, hlast]
  · intro pattern i stack rest
    rw [List.cons_append, List.append_assoc, nestedFrom, if_neg fun h => absurd h.2 (by decide),
      if_neg fun h => absurd h.2 (by decide), hfirst, hnested]
    show nestedFrom pattern (i + 1 + body.length) ⟨false, true⟩ stack (']' :: rest) = _
    rw [nestedFrom, if_neg fun h => absurd h.1 (by decide), if_neg fun h => absurd h.1 (by decide), hlast]
    simp only [List.length_cons, List.length_append, List.length_nil]
    congr 1
    omega

theorem atom (a : Atom) : Inert a.text := by
  obtain hplain | ⟨body, hbody, heq⟩ := a.written
  · exact plain hplain
  · rw [heq]
    exact cls hbody

theorem digits (n : Digits) : Inert n.digits := by
  refine chars fun c hc => ?_
  have hdigit := List.all_eq_true.mp n.numeric c hc
  refine ⟨?_, ?_, ?_, ?_⟩ <;>
  · rintro rfl
    exact absurd hdigit (by decide)

theorem mark {c : Char} (h : c ∈ ("*+?\x7b\x7d,|=!<".toList : Text)) : Inert [c] := by
  refine chars fun d hd => ?_
  obtain rfl := List.mem_singleton.mp hd
  refine ⟨?_, ?_, ?_, ?_⟩ <;>
  · rintro rfl
    exact absurd h (by decide)

theorem quantifier (q : Quantifier) : Inert q.text := by
  cases q with
  | star => exact mark (by decide)
  | plus => exact mark (by decide)
  | optional => exact mark (by decide)
  | exactly n => exact append (mark (by decide)) (append (digits n) (mark (by decide)))
  | atLeast n =>
    exact append (mark (by decide)) (append (digits n) (append (mark (by decide)) (mark (by decide))))
  | between n m =>
    refine append (mark (by decide)) (append (digits n) (append (mark (by decide)) ?_))
    exact append (digits m) (mark (by decide))

theorem often (o : Often) : Inert o.text := by
  obtain _ | ⟨q, _ | _⟩ := o
  · exact nil
  · exact append (quantifier q) nil
  · exact append (quantifier q) (mark (by decide))

theorem opening (o : Opening) : Inert o.text := by
  cases o with
  | capture => exact nil
  | marked rest written => exact append (mark (by decide)) (plain written)
  | look l =>
    cases l with
    | ahead => exact append (mark (by decide)) (mark (by decide))
    | notAhead => exact append (mark (by decide)) (mark (by decide))
    | behind => exact append (mark (by decide)) (append (mark (by decide)) (mark (by decide)))
    | notBehind => exact append (mark (by decide)) (append (mark (by decide)) (mark (by decide)))

end Inert


/-! ### Repeated groups -/

def Often.Seen (o : Often) : Prop := ∃ q lazy, o = some (q, lazy) ∧ q ≠ .optional

theorem repeatsNext_of_seen {o : Often} (h : o.Seen) (rest : Text) : repeatsNext (o.text ++ rest) = true := by
  obtain ⟨q, lazy, rfl, hq⟩ := h
  cases q with
  | optional => exact absurd rfl hq
  | star => rfl
  | plus => rfl
  | exactly n => rfl
  | atLeast n => rfl
  | between n m => rfl

theorem scan_of_seen {o : Often} (h : o.Seen) : hasQuantifierOrAlternation .outside o.text = true := by
  obtain ⟨q, lazy, rfl, hq⟩ := h
  cases q with
  | optional => exact absurd rfl hq
  | star => rfl
  | plus => rfl
  | exactly n => rfl
  | atLeast n => rfl
  | between n m => rfl

namespace Pattern

theorem run_text (p : Pattern) : Scan.outside.run p.text = .outside := by
  have happend : ∀ {t u : Text}, Scan.outside.run t = .outside → Scan.outside.run u = .outside →
      Scan.outside.run (t ++ u) = .outside := by
    intro t u ht hu
    have hrun : Scan.outside.run (t ++ u) = (Scan.outside.run t).run u := List.foldl_append ..
    rw [hrun, ht, hu]
  induction p with
  | done => rfl
  | bar rest ih => exact @happend ['|'] _ rfl ih
  | atom a often rest ih => exact happend (Inert.atom a).run (happend (Inert.often often).run ih)
  | group opening inner often rest ihinner ih =>
    have hbehind := @happend [')'] _ rfl (happend (Inert.often often).run ih)
    exact @happend ['('] _ rfl (happend (Inert.opening opening).run (happend ihinner hbehind))

def Quiet (p : Pattern) : Prop := (∀ q ∈ p.quantifiers, q = .optional) ∧ p.alternates = false

theorem quiet_term {o : Often} (ho : ¬o.Seen) {rest : Pattern} (h : rest.Quiet) :
    ∀ q ∈ (o.map (·.1)).toList ++ rest.quantifiers, q = Quantifier.optional := by
  intro q hq
  obtain hq | hq := List.mem_append.mp hq
  · by_contra hne
    obtain _ | ⟨q', lazy⟩ := o
    · cases hq
    · obtain rfl := List.mem_singleton.mp hq
      exact ho ⟨q, lazy, rfl, hne⟩
  · exact h.1 q hq

theorem quiet_of_scan {p : Pattern} (h : hasQuantifierOrAlternation .outside p.text = false) : p.Quiet := by
  have hsplit : ∀ {t u : Text}, Scan.outside.run t = .outside →
      hasQuantifierOrAlternation .outside (t ++ u) = false →
      hasQuantifierOrAlternation .outside t = false ∧ hasQuantifierOrAlternation .outside u = false := by
    intro t u ht h
    rw [scan_append, ht] at h
    exact Bool.or_eq_false_iff.mp h
  have hseen : ∀ {o : Often}, hasQuantifierOrAlternation .outside o.text = false → ¬o.Seen := by
    intro o h hseen
    rw [scan_of_seen hseen] at h
    cases h
  induction p with
  | done => exact ⟨nofun, rfl⟩
  | bar rest ih => exact absurd h (by simp [text, hasQuantifierOrAlternation, Scan.reads, Scan.outside])
  | atom a often rest ih =>
    obtain ⟨-, hbehind⟩ := hsplit (Inert.atom a).run h
    obtain ⟨hoften, hrest⟩ := hsplit (Inert.often often).run hbehind
    exact ⟨quiet_term (hseen hoften) (ih hrest), (ih hrest).2⟩
  | group opening inner often rest ihinner ih =>
    obtain ⟨-, hbehind⟩ := @hsplit ['('] _ rfl h
    obtain ⟨-, hbehind⟩ := hsplit (Inert.opening opening).run hbehind
    obtain ⟨hinner, hbehind⟩ := hsplit (run_text inner) hbehind
    obtain ⟨-, hbehind⟩ := @hsplit [')'] _ rfl hbehind
    obtain ⟨hoften, hrest⟩ := hsplit (Inert.often often).run hbehind
    refine ⟨fun q hq => ?_, by rw [alternates, (ihinner hinner).2, (ih hrest).2]; rfl⟩
    obtain hq | hq := List.mem_append.mp hq
    · exact quiet_term (hseen hoften) (ih hrest) q (List.mem_append_left _ hq)
    · obtain hq | hq := List.mem_append.mp hq
      · exact (ihinner hinner).1 q hq
      · exact (ih hrest).1 q hq

def Clear (p : Pattern) : Prop :=
  ∀ group ∈ p.groups, group.2.Seen → hasQuantifierOrAlternation .outside group.1.text = false

theorem slice_between {pattern before body rest : Text} (h : pattern = before ++ (body ++ rest)) :
    slice pattern before.length (before ++ body).length = body := by
  have hlength : (before ++ body).length - before.length = body.length := by
    rw [List.length_append]
    omega
  rw [slice, hlength, h, List.drop_left, List.take_left]

theorem nested_inert {t pattern before rest : Text} {stack : List Nat} (ht : Inert t)
    (h : nestedFrom pattern before.length .outside stack (t ++ rest) = false) :
    nestedFrom pattern (before ++ t).length .outside stack rest = false := by
  rw [ht.nested] at h
  rw [List.length_append]
  exact h

theorem nested_open {pattern before rest : Text} {stack : List Nat}
    (h : nestedFrom pattern before.length .outside stack ('(' :: rest) = false) :
    nestedFrom pattern (before ++ ['(']).length .outside (before.length :: stack) rest = false := by
  rw [nestedFrom, if_pos (by decide)] at h
  rw [List.length_append]
  exact h

theorem nested_close {pattern before rest : Text} {start : Nat} {stack : List Nat}
    (h : nestedFrom pattern before.length .outside (start :: stack) (')' :: rest) = false) :
    (repeatsNext rest = true →
      hasQuantifierOrAlternation .outside (slice pattern (start + 1) before.length) = false) ∧
    nestedFrom pattern (before ++ [')']).length .outside stack rest = false := by
  rw [nestedFrom, if_neg (by decide), if_pos (by decide)] at h
  obtain ⟨hhead, hbehind⟩ := Bool.or_eq_false_iff.mp h
  constructor
  · intro hnext
    have hboth : (repeatsNext rest &&
      hasQuantifierOrAlternation .outside (slice pattern (start + 1) before.length)) = false := hhead
    rw [hnext, Bool.true_and] at hboth
    exact hboth
  · rw [List.length_append]
    exact hbehind

theorem clear_text {p : Pattern} {pattern before rest : Text} {stack : List Nat}
    (hpattern : pattern = before ++ (p.text ++ rest))
    (h : nestedFrom pattern before.length .outside stack (p.text ++ rest) = false) :
    p.Clear ∧ nestedFrom pattern (before ++ p.text).length .outside stack rest = false := by
  induction p generalizing before rest stack with
  | done =>
    refine ⟨nofun, ?_⟩
    rw [text, List.append_nil]
    exact h
  | bar next ih =>
    have hmark : Inert ['|'] := .mark (by decide)
    obtain ⟨hclear, hend⟩ := @ih (before ++ ['|']) rest stack (by rw [hpattern, List.append_assoc]; rfl)
      (nested_inert hmark h)
    rw [List.append_assoc] at hend
    exact ⟨hclear, hend⟩
  | atom a often next ih =>
    rw [text, List.append_assoc, List.append_assoc] at h hpattern
    have hbehind := nested_inert (Inert.often often) (nested_inert (Inert.atom a) h)
    obtain ⟨hclear, hend⟩ := ih (by rw [hpattern, List.append_assoc, List.append_assoc]) hbehind
    rw [List.append_assoc, List.append_assoc] at hend
    exact ⟨hclear, hend⟩
  | group opening inner often next ihinner ih =>
    have hform : (Pattern.group opening inner often next).text ++ rest =
        '(' :: (opening.text ++ (inner.text ++ ')' :: (often.text ++ (next.text ++ rest)))) := by
      simp [text]
    rw [hform] at h hpattern
    have hopening := nested_inert (Inert.opening opening) (nested_open h)
    obtain ⟨hclear, hinner⟩ := ihinner (by simp [hpattern]) hopening
    obtain ⟨hslice, hbehind⟩ := nested_close hinner
    obtain ⟨hclearNext, hend⟩ := ih (by simp [hpattern]) (nested_inert (Inert.often often) hbehind)
    refine ⟨?_, by simpa [text] using hend⟩
    intro group hgroup hseen
    obtain rfl | hgroup := List.mem_cons.mp hgroup
    · have hbody := hslice (repeatsNext_of_seen hseen _)
      have hbetween : slice pattern (before.length + 1) (before ++ ['('] ++ opening.text ++ inner.text).length =
          opening.text ++ inner.text := by
        have hlength : before.length + 1 = (before ++ ['(']).length := by simp
        rw [hlength, List.append_assoc (before ++ ['('])]
        exact @slice_between pattern (before ++ ['(']) (opening.text ++ inner.text)
          (')' :: (often.text ++ (next.text ++ rest))) (by simp [hpattern])
      rw [hbetween, scan_append, (Inert.opening opening).run] at hbody
      exact (Bool.or_eq_false_iff.mp hbody).2
    · obtain hgroup | hgroup := List.mem_append.mp hgroup
      · exact hclear group hgroup hseen
      · exact hclearNext group hgroup hseen

end Pattern

/-! ### Backreferences and look-arounds -/

theorem hasBackreference_append {rest : Text} (h : startsReference rest = true) (before : Text) :
    hasBackreference (before ++ '\\' :: rest) = true := by
  induction before with
  | nil => simp [hasBackreference, h]
  | cons d before ih => simp [hasBackreference, ih]

theorem startsReference_append {t : Text} (h : startsReference t = true) (rest : Text) :
    startsReference (t ++ rest) = true := by
  unfold startsReference at h
  split at h
  · rfl
  next c more _ =>
    rw [List.cons_append, startsReference]
    · exact h
    · rintro _ rfl -
      exact absurd h (by decide)
  · cases h

theorem hasLookaround_append {rest : Text} (h : startsLook rest = true) (before : Text) :
    hasLookaround (before ++ '(' :: rest) = true := by
  induction before with
  | nil => simp [hasLookaround, h]
  | cons d before ih => simp [hasLookaround, ih]

theorem startsLook_text (l : Look) (rest : Text) : startsLook (l.text ++ rest) = true := by
  cases l <;> rfl

namespace Pattern

theorem no_look {p : Pattern} {before rest : Text} (h : hasLookaround (before ++ (p.text ++ rest)) = false) :
    ∀ l, Opening.look l ∉ p.openings := by
  induction p generalizing before rest with
  | done => exact fun l => List.not_mem_nil
  | bar next ih => exact @ih (before ++ ['|']) rest (by simpa [text] using h)
  | atom a often next ih => exact @ih (before ++ (a.text ++ often.text)) rest (by simpa [text] using h)
  | group opening inner often next ihinner ih =>
    intro l hl
    obtain rfl | hl := List.mem_cons.mp hl
    · have hyes := hasLookaround_append (startsLook_text l (inner.text ++ ')' :: (often.text ++ (next.text ++ rest))))
        before
      simp only [text, Opening.text, List.cons_append, List.append_assoc] at h
      rw [hyes] at h
      cases h
    · obtain hl | hl := List.mem_append.mp hl
      · refine @ihinner (before ++ '(' :: opening.text) (')' :: (often.text ++ (next.text ++ rest)))
          ?_ l hl
        simpa [text] using h
      · refine @ih (before ++ ('(' :: (opening.text ++ (inner.text ++ ')' :: often.text)))) rest
          ?_ l hl
        simpa [text] using h

theorem no_reference {p : Pattern} {before rest : Text}
    (h : hasBackreference (before ++ (p.text ++ rest)) = false) : ∀ a ∈ p.atoms, a.kind ≠ .reference := by
  induction p generalizing before rest with
  | done => exact nofun
  | bar next ih => exact @ih (before ++ ['|']) rest (by simpa [text] using h)
  | atom a often next ih =>
    refine List.forall_mem_cons.mpr ⟨fun hkind => ?_, ?_⟩
    · obtain ⟨more, htext, hmore⟩ := a.refers hkind
      have hyes := hasBackreference_append
        (startsReference_append hmore (often.text ++ (next.text ++ rest))) before
      rw [text, htext, List.append_assoc, List.append_assoc, List.cons_append, hyes] at h
      cases h
    · exact @ih (before ++ (a.text ++ often.text)) rest (by simpa [text] using h)
  | group opening inner often next ihinner ih =>
    refine List.forall_mem_append.mpr ⟨?_, ?_⟩
    · refine @ihinner (before ++ '(' :: opening.text) (')' :: (often.text ++ (next.text ++ rest))) ?_
      simpa [text] using h
    · refine @ih (before ++ ('(' :: (opening.text ++ (inner.text ++ ')' :: often.text)))) rest ?_
      simpa [text] using h

end Pattern

/-! ### A flat body is matched in one way -/

section
variable {σ ω : Type}

structure Fixed (r : Matching σ ω) (width : Nat) : Prop where
  length_eq : ∀ {before taken after w}, r before taken after w → taken.length = width
  oneWay : OneWay r

theorem oneWay_turns {r : Matching σ ω} {width : Nat} (hr : Fixed r width) (times : Times) :
    OneWay (turns r times) := by
  have hfrom : ∀ {least : Nat} {before taken after : List σ} {ts ts' : List (List σ × ω)},
      least ≤ ts.length → least ≤ ts'.length → turnsFrom r least before taken after ts →
      turnsFrom r least before taken after ts' → ts = ts' := by
    intro least before taken after ts ts' hleast hleast' h h'
    induction ts generalizing least before taken ts' with
    | nil =>
      cases ts' with
      | nil => rfl
      | cons t ts' =>
        obtain ⟨v, htaken, -, hsome, -⟩ := h'
        rw [show taken = [] from h] at htaken
        exact absurd (List.append_eq_nil_iff.mp htaken.symm).1 (hsome (Nat.le_zero.mp hleast))
    | cons t ts ih =>
      obtain ⟨v, rfl, hu, hsome, hrest⟩ := h
      cases ts' with
      | nil =>
        exact absurd (List.append_eq_nil_iff.mp h').1 (hsome (Nat.le_zero.mp hleast'))
      | cons t' ts' =>
        obtain ⟨v', htaken, hu', -, hrest'⟩ := h'
        have hlength : t.1.length = t'.1.length := (hr.length_eq hu).trans (hr.length_eq hu').symm
        obtain ⟨hfirst, rfl⟩ := List.append_inj htaken hlength
        obtain ⟨u, w⟩ := t
        obtain ⟨u', w'⟩ := t'
        obtain rfl : u = u' := hfirst
        obtain rfl := hr.oneWay _ _ _ _ _ hu hu'
        rw [ih (Nat.sub_le_of_le_add hleast) (Nat.sub_le_of_le_add hleast') hrest hrest']
  rintro before taken after ts ts' ⟨hallowed, h⟩ ⟨hallowed', h'⟩
  exact hfrom hallowed.1 hallowed'.1 h h'

theorem length_of_once {r : Matching σ ω} {width : Nat} (hr : Fixed r width) {before taken after : List σ}
    {ts : List (List σ × ω)} (h : turns r Times.once before taken after ts) : taken.length = width := by
  obtain ⟨hallowed, h⟩ := h
  obtain ⟨t, rfl⟩ := List.length_eq_one_iff.mp (Times.allows_once.mp hallowed)
  obtain ⟨v, rfl, hu, -, hv⟩ := h
  rw [List.length_append, hr.length_eq hu, show v = [] from hv]
  rfl

def Atom.width (a : Atom) : Nat := if a.kind = .character then 1 else 0

def Pattern.width : Pattern → Nat
  | .done => 0
  | .bar _ => 0
  | .atom a _ rest => a.width + rest.width
  | .group (.look _) _ _ rest => rest.width
  | .group _ inner _ rest => inner.width + rest.width

theorem fixed_atom (M : Meaning σ) {a : Atom} (h : a.kind ≠ .reference) : Fixed (M.atom a) a.width := by
  refine ⟨fun {before taken after w} hmatch => ?_, fun _ _ _ _ _ _ _ => rfl⟩
  unfold Meaning.atom at hmatch
  unfold Atom.width
  cases hkind : a.kind with
  | character =>
    rw [hkind] at hmatch
    obtain ⟨c, rfl, -⟩ := hmatch
    rfl
  | assertion =>
    rw [hkind] at hmatch
    rw [hmatch.1]
    rfl
  | reference => exact absurd hkind h

theorem fixed_term {ω' : Type} {r : Matching σ ω} {next : Matching σ ω'} {make : List (List σ × ω) → ω' → ω'}
    {first rest : Nat} (hr : Fixed r first) (hnext : Fixed next rest) :
    Fixed (fun before taken after w => ∃ u v ts w', taken = u ++ v ∧ w = make ts w' ∧
      turns r Times.once before u (v ++ after) ts ∧ next (before ++ u) v after w') (first + rest) := by
  constructor
  · rintro before taken after w ⟨u, v, ts, w', rfl, -, hturns, hv⟩
    rw [List.length_append, length_of_once hr hturns, hnext.length_eq hv]
  · rintro before taken after w w' ⟨u, v, ts, tail, rfl, rfl, hturns, hv⟩
      ⟨u', v', ts', tail', htaken, rfl, hturns', hv'⟩
    have hlength : u.length = u'.length := (length_of_once hr hturns).trans (length_of_once hr hturns').symm
    obtain ⟨rfl, rfl⟩ := List.append_inj htaken hlength
    rw [oneWay_turns hr _ _ _ _ _ _ hturns hturns', hnext.oneWay _ _ _ _ _ hv hv']

theorem often_eq_none {o : Often} (h : (o.map (·.1)).toList = []) : o = none := by
  cases o with
  | none => rfl
  | some q => cases h

theorem fixed_ways (M : Meaning σ) {p : Pattern} (hflat : p.Flat) (hrefs : ∀ a ∈ p.atoms, a.kind ≠ .reference)
    (hlooks : ∀ l, Opening.look l ∉ p.openings) :
    (∀ before taken after w, ¬(M.ways p).2 before taken after w) ∧ Fixed (M.ways p).1 p.width := by
  induction p with
  | done =>
    refine ⟨fun _ _ _ _ => id, ?_, ?_⟩
    · rintro before taken after w ⟨rfl, -⟩
      rfl
    · rintro before taken after w w' ⟨-, rfl⟩ ⟨-, rfl⟩
      rfl
  | bar rest ih => exact absurd hflat.2 (by simp [Pattern.alternates])
  | atom a often rest ih =>
    obtain ⟨hnone, hquantifiers⟩ := List.append_eq_nil_iff.mp hflat.1
    obtain rfl := often_eq_none hnone
    obtain ⟨ha, hrefs⟩ := List.forall_mem_cons.mp hrefs
    obtain ⟨hother, hrest⟩ := ih ⟨hquantifiers, hflat.2⟩ hrefs hlooks
    exact ⟨hother, fixed_term (fixed_atom M ha) hrest⟩
  | group opening inner often rest ihinner ih =>
    obtain ⟨hnone, hquantifiers⟩ := List.append_eq_nil_iff.mp hflat.1
    obtain ⟨hinnerQuantifiers, hquantifiers⟩ := List.append_eq_nil_iff.mp hquantifiers
    obtain ⟨hinnerAlternates, halternates⟩ := Bool.or_eq_false_iff.mp hflat.2
    obtain rfl := often_eq_none hnone
    obtain ⟨hinnerRefs, hrefs⟩ := List.forall_mem_append.mp hrefs
    obtain ⟨hinnerOther, hinner⟩ := ihinner ⟨hinnerQuantifiers, hinnerAlternates⟩ hinnerRefs
      fun l hl => hlooks l (List.mem_cons_of_mem _ (List.mem_append_left _ hl))
    obtain ⟨hother, hrest⟩ := ih ⟨hquantifiers, halternates⟩ hrefs
      fun l hl => hlooks l (List.mem_cons_of_mem _ (List.mem_append_right _ hl))
    have hbody : (fun before taken after w => (M.ways inner).1 before taken after w ∨
        (M.ways inner).2 before taken after w) = (M.ways inner).1 := by
      funext before taken after w
      exact propext (or_iff_left (hinnerOther before taken after w))
    cases opening with
    | look l => exact absurd List.mem_cons_self (hlooks l)
    | capture =>
      simp only [Meaning.ways, hbody]
      exact ⟨hother, fixed_term hinner hrest⟩
    | marked text written =>
      simp only [Meaning.ways, hbody]
      exact ⟨hother, fixed_term hinner hrest⟩

theorem oneWay_through (M : Meaning σ) {p : Pattern} (hflat : p.Flat)
    (hrefs : ∀ a ∈ p.atoms, a.kind ≠ .reference) (hlooks : ∀ l, Opening.look l ∉ p.openings) (times : Times) :
    OneWay (turns (M.through p) times) := by
  obtain ⟨hother, hfixed⟩ := fixed_ways M hflat hrefs hlooks
  have hthrough : M.through p = (M.ways p).1 := by
    funext before taken after w
    exact propext (or_iff_left (hother before taken after w))
  rw [hthrough]
  exact oneWay_turns hfixed times

end

/-! ### What is let through -/

namespace Pattern

theorem mem_of_groups {p inner : Pattern} {often : Often} (h : (inner, often) ∈ p.groups) :
    inner.atoms ⊆ p.atoms ∧ inner.openings ⊆ p.openings := by
  induction p with
  | done => cases h
  | bar rest ih => exact ih h
  | atom a often rest ih =>
    obtain ⟨hatoms, hopenings⟩ := ih h
    exact ⟨List.subset_cons_of_subset _ hatoms, hopenings⟩
  | group opening body often rest ihbody ih =>
    obtain heq | h := List.mem_cons.mp h
    · cases heq
      exact ⟨List.subset_append_left _ _, List.subset_cons_of_subset _ (List.subset_append_left _ _)⟩
    · obtain h | h := List.mem_append.mp h
      · obtain ⟨hatoms, hopenings⟩ := ihbody h
        exact ⟨List.Subset.trans hatoms (List.subset_append_left _ _),
          List.subset_cons_of_subset _ (List.Subset.trans hopenings (List.subset_append_left _ _))⟩
      · obtain ⟨hatoms, hopenings⟩ := ih h
        exact ⟨List.Subset.trans hatoms (List.subset_append_right _ _),
          List.subset_cons_of_subset _ (List.Subset.trans hopenings (List.subset_append_right _ _))⟩

end Pattern

theorem lintPattern_eq_nil {E : Engine} {pattern : Text} {place : String}
    (h : lintPattern E pattern place = []) :
    hasBackreference pattern = false ∧ hasLookaround pattern = false ∧ hasNestedQuantifier pattern = false := by
  unfold lintPattern at h
  simp only [List.append_eq_nil_iff] at h
  obtain ⟨⟨⟨⟨⟨-, hreference⟩, hlook⟩, hnested⟩, -⟩, -⟩ := h
  refine ⟨?_, ?_, ?_⟩
  · by_contra hyes
    rw [if_pos (Bool.eq_true_of_not_eq_false hyes)] at hreference
    cases hreference
  · by_contra hyes
    rw [if_pos (Bool.eq_true_of_not_eq_false hyes)] at hlook
    cases hlook
  · by_contra hyes
    rw [if_pos (Bool.eq_true_of_not_eq_false hyes)] at hnested
    cases hnested

theorem seen_of_repeats {q : Quantifier} {lazy : Bool} {large : Nat} (h : q.Repeats large) :
    Often.Seen (some (q, lazy)) := by
  refine ⟨q, lazy, rfl, ?_⟩
  rintro rfl
  exact h

theorem lint_rulesOut {σ : Type} (M : Meaning σ) (E : Engine) (place : String) (large : Nat) (p : Pattern)
    (h : lintPattern E p.text place = []) :
    RulesOut M large p ↔ ∀ inner q lazy, (inner, some (q, lazy)) ∈ p.groups → q.Repeats large →
      .optional ∉ inner.quantifiers := by
  constructor
  · intro hrules inner q lazy hgroup hrepeats
    rw [(hrules.flat inner q lazy hgroup hrepeats).1]
    exact List.not_mem_nil
  · intro hnone
    obtain ⟨hreference, hlook, hnested⟩ := lintPattern_eq_nil h
    have hclear : p.Clear := by
      refine (@Pattern.clear_text p p.text [] [] [] (List.append_nil _).symm ?_).1
      rw [List.append_nil]
      exact hnested
    have hrefs := @Pattern.no_reference p [] [] (by rw [List.append_nil]; exact hreference)
    have hlooks := @Pattern.no_look p [] [] (by rw [List.append_nil]; exact hlook)
    have hflat : ∀ inner q lazy, (inner, some (q, lazy)) ∈ p.groups → q.Repeats large → inner.Flat := by
      intro inner q lazy hgroup hrepeats
      obtain ⟨hoptional, halternates⟩ := Pattern.quiet_of_scan (hclear _ hgroup (seen_of_repeats hrepeats))
      refine ⟨List.eq_nil_iff_forall_not_mem.mpr fun q' hq' => ?_, halternates⟩
      rw [hoptional q' hq'] at hq'
      exact hnone inner q lazy hgroup hrepeats hq'
    refine ⟨hflat, fun inner q lazy hgroup hrepeats => ?_⟩
    obtain ⟨hatoms, hopenings⟩ := Pattern.mem_of_groups hgroup
    exact oneWay_through M (hflat inner q lazy hgroup hrepeats) (fun a ha => hrefs a (hatoms ha))
      (fun l hl => hlooks l (hopenings hl)) q.times

def letter : Atom := ⟨.character, ['a'], .inl (.char (by decide) .nil), nofun⟩

def letterMeaning : Meaning Char := ⟨fun _ c => c = 'a', fun _ _ _ => True, fun _ _ _ _ => False, fun _ _ _ _ _ => False⟩

def pairs : Pattern :=
  .group .capture (.atom letter none (.atom letter none .done)) (some (.star, false)) .done

theorem lint_rulesOut_pairs :
    RulesOut letterMeaning 2 pairs ↔ ∀ inner q lazy, (inner, some (q, lazy)) ∈ pairs.groups → q.Repeats 2 →
      .optional ∉ inner.quantifiers :=
  lint_rulesOut letterMeaning (fun _ => none) "pattern" 2 pairs (by decide +kernel)

def optionals : Pattern :=
  .group .capture (.atom letter (some (.optional, false)) (.atom letter (some (.optional, false)) .done))
    (some (.star, false)) .done

theorem optional_accepted : ¬∀ p : Pattern, lintPattern (fun _ => none) p.text "pattern" = [] →
    RulesOut letterMeaning 2 p := by
  intro h
  have hrules := h optionals (by decide +kernel)
  exact absurd (hrules.flat _ .star false List.mem_cons_self trivial).1 (by decide)

end Apim.PatternLint
