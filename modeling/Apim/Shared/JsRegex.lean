import Apim.Lib.Regex
import Apim.Shared.Routing

/-!
# JavaScript regular expressions under the u flag

What `new RegExp(source, "u")` makes of a source, and what `test` answers. The grammar is that of
patterns: what is no pattern is a syntax error, and a pattern that uses more than a schema expression
can be translated to (look-around, back references, lazy quantifiers, numeric escapes, properties other
than a general category) is `outside`.
-/

namespace Apim.JsRegex
open Regex

inductive Fault where
  | syntaxError
  | outside
  deriving DecidableEq, Repr

/-! ### Expressions -/

inductive Kind where
  | digit
  | space
  | word
  | property (name : List Char)
  deriving DecidableEq, Repr

abbrev Properties := List Char → Char → Bool

def isDigit (c : Char) : Bool := decide ('0' ≤ c ∧ c ≤ '9')

def Kind.has (properties : Properties) : Kind → Char → Bool
  | .digit, c => isDigit c
  | .space, c => Routing.isSpace c
  | .word, c => c.isAlphanum || c == '_'
  | .property name, c => properties name c

inductive ClassItem where
  | one (c : Char)
  | range (low high : Char)
  | escape (kind : Kind) (negated : Bool)
  deriving DecidableEq, Repr

def ClassItem.has (properties : Properties) : ClassItem → Char → Bool
  | .one d, c => c == d
  | .range low high, c => decide (low ≤ c ∧ c ≤ high)
  | .escape kind negated, c => kind.has properties c != negated

inductive Term where
  | start
  | finish
  | char (c : Char)
  | dot
  | escape (kind : Kind) (negated : Bool)
  | cls (negated : Bool) (items : List ClassItem)
  deriving DecidableEq, Repr

def dotHas (c : Char) : Bool := !(c == '\n' || c == '\r' || c == '\u2028' || c == '\u2029')

def oneOf (has : Char → Bool) : Span Char := fun _ taken _ => ∃ c, taken = [c] ∧ has c = true

def Term.span (properties : Properties) : Term → Span Char
  | .start => fun before taken _ => taken = [] ∧ before = []
  | .finish => fun _ taken after => taken = [] ∧ after = []
  | .char c => oneOf (· == c)
  | .dot => oneOf dotHas
  | .escape kind negated => oneOf fun c => kind.has properties c != negated
  | .cls negated items => oneOf fun c => (items.any fun item => item.has properties c) != negated

abbrev Expression := Pattern Term Times

/-- `regex.test(text)`: the expression matches somewhere. -/
def test (properties : Properties) (expression : Expression) (text : List Char) : Prop :=
  ∃ before taken after, text = before ++ taken ++ after ∧
    expression.runs (Term.span properties) id before taken after

/-! ### Reading a source -/

inductive Escaped where
  | char (c : Char)
  | set (kind : Kind) (negated : Bool)
  deriving DecidableEq, Repr

def isSyntax (c : Char) : Bool := "^$\\.*+?()[]\x7b\x7d|/".toList.contains c

def charEscape (inClass : Bool) (c : Char) : Except Fault Escaped :=
  if c = 'd' then .ok (.set .digit false)
  else if c = 'D' then .ok (.set .digit true)
  else if c = 's' then .ok (.set .space false)
  else if c = 'S' then .ok (.set .space true)
  else if c = 'w' then .ok (.set .word false)
  else if c = 'W' then .ok (.set .word true)
  else if c = 'n' then .ok (.char '\n')
  else if c = 'r' then .ok (.char '\r')
  else if c = 't' then .ok (.char '\t')
  else if c = 'v' then .ok (.char '\x0b')
  else if c = 'f' then .ok (.char '\x0c')
  else if isSyntax c = true ∨ (inClass = true ∧ c = '-') then .ok (.char c)
  else if "bBcxuk0123456789".toList.contains c then .error .outside
  else .error .syntaxError

def CATEGORIES : List String :=
  ["L", "Lu", "Ll", "Lt", "Lm", "Lo", "M", "Mn", "Mc", "Me", "N", "Nd", "Nl", "No", "P", "Pc", "Pd",
    "Ps", "Pe", "Pi", "Pf", "Po", "Z", "Zs", "Zl", "Zp", "S", "Sm", "Sc", "Sk", "So", "C", "Cc", "Cf",
    "Co", "Cn"]

def isCategory (name : List Char) : Bool := CATEGORIES.contains (String.ofList name)

/-- What follows `\p`: the name of a property in braces. No property has a name in `Is`. -/
def propertyEscape (negated : Bool) : List Char → Except Fault (Escaped × List Char)
  | [] => .error .syntaxError
  | c :: rest =>
    if c ≠ '\x7b' then .error .syntaxError
    else
      let name := rest.takeWhile (· != '\x7d')
      match rest.dropWhile (· != '\x7d') with
      | [] => .error .syntaxError
      | _ :: rest =>
        if isCategory name = true then .ok (.set (.property name) negated, rest)
        else if name.take 2 = ['I', 's'] then .error .syntaxError
        else .error .outside

def escapeOf (inClass : Bool) (c : Char) (rest : List Char) : Except Fault (Escaped × List Char) :=
  if c = 'p' then propertyEscape false rest
  else if c = 'P' then propertyEscape true rest
  else (charEscape inClass c).map fun value => (value, rest)

def classAtom : List Char → Except Fault (Escaped × List Char)
  | [] => .error .syntaxError
  | [c] => if c = '\\' then .error .syntaxError else .ok (.char c, [])
  | c :: d :: rest =>
    if c = '\\' then escapeOf true d rest else .ok (.char c, d :: rest)

def Escaped.item : Escaped → ClassItem
  | .char c => .one c
  | .set kind negated => .escape kind negated

def rangeOf : Escaped → Escaped → Except Fault ClassItem
  | .char low, .char high => if low ≤ high then .ok (.range low high) else .error .syntaxError
  | _, _ => .error .syntaxError

def classItems : Nat → List Char → Except Fault (List ClassItem × List Char)
  | 0, _ => .error .outside
  | fuel + 1, input =>
    if input.head? = some ']' then .ok ([], input.tail)
    else do
      let (low, rest) ← classAtom input
      if rest.head? = some '-' ∧ rest.tail.head? ≠ some ']' then
        let (high, rest) ← classAtom rest.tail
        let item ← rangeOf low high
        let (items, rest) ← classItems fuel rest
        pure (item :: items, rest)
      else
        let (items, rest) ← classItems fuel rest
        pure (low.item :: items, rest)

def numberOf (digits : List Char) : Nat :=
  digits.foldl (fun n c => 10 * n + (c.toNat - 48)) 0

def boundsOf (input : List Char) : Except Fault (Times × List Char) :=
  let low := input.takeWhile isDigit
  if low = [] then .error .syntaxError
  else
    match input.dropWhile isDigit with
    | [] => .error .syntaxError
    | c :: rest =>
      if c = '\x7d' then .ok (⟨numberOf low, some (numberOf low)⟩, rest)
      else if c = ',' then
        let high := rest.takeWhile isDigit
        match rest.dropWhile isDigit with
        | [] => .error .syntaxError
        | d :: rest =>
          if d ≠ '\x7d' then .error .syntaxError
          else if high = [] then .ok (⟨numberOf low, none⟩, rest)
          else if numberOf low ≤ numberOf high then
            .ok (⟨numberOf low, some (numberOf high)⟩, rest)
          else .error .syntaxError
      else .error .syntaxError

def greedy (result : Times × List Char) : Except Fault (Times × List Char) :=
  if result.2.head? = some '?' then .error .outside else .ok result

def quantifier : List Char → Except Fault (Times × List Char)
  | [] => .ok (Times.once, [])
  | c :: rest =>
    if c = '*' then greedy (⟨0, none⟩, rest)
    else if c = '+' then greedy (⟨1, none⟩, rest)
    else if c = '?' then greedy (⟨0, some 1⟩, rest)
    else if c = '\x7b' then (boundsOf rest).bind greedy
    else .ok (Times.once, c :: rest)

def Escaped.term : Escaped → Term
  | .char c => .char c
  | .set kind negated => .escape kind negated

def escapedTerm : List Char → Except Fault (Term × List Char)
  | [] => .error .syntaxError
  | c :: rest => (escapeOf false c rest).map fun (value, rest) => (value.term, rest)

def classTerm (input : List Char) : Except Fault (Term × List Char) :=
  if input.head? = some '^' then
    (classItems input.length input.tail).map fun (items, rest) => (.cls true items, rest)
  else (classItems (input.length + 1) input).map fun (items, rest) => (.cls false items, rest)

def term : List Char → Except Fault (Term × List Char)
  | [] => .error .syntaxError
  | c :: rest =>
    if c = '.' then .ok (.dot, rest)
    else if c = '\\' then escapedTerm rest
    else if c = '[' then classTerm rest
    else if isSyntax c = true ∧ c ≠ '/' then .error .syntaxError
    else .ok (.char c, rest)

def groupBody : List Char → Except Fault (List Char)
  | [] => .ok []
  | [c] => if c = '?' then .error .syntaxError else .ok [c]
  | c :: d :: rest =>
    if c ≠ '?' then .ok (c :: d :: rest)
    else if d = ':' then .ok rest
    else .error .outside

def terms : Nat → List Char → Except Fault (Expression × List Char)
  | 0, _ => .error .outside
  | _ + 1, [] => .ok (.done, [])
  | fuel + 1, c :: rest =>
    if c = ')' then .ok (.done, c :: rest)
    else if c = '|' then do
      let (p, rest) ← terms fuel rest
      pure (.bar p, rest)
    else if c = '^' then do
      let (p, rest) ← terms fuel rest
      pure (.item .start Times.once p, rest)
    else if c = '$' then do
      let (p, rest) ← terms fuel rest
      pure (.item .finish Times.once p, rest)
    else if c = '(' then do
      let body ← groupBody rest
      let (inner, rest) ← terms fuel body
      if rest.head? = some ')' then
        let (times, rest) ← quantifier rest.tail
        let (p, rest) ← terms fuel rest
        pure (.group inner times p, rest)
      else .error .syntaxError
    else do
      let (t, rest) ← term (c :: rest)
      let (times, rest) ← quantifier rest
      let (p, rest) ← terms fuel rest
      pure (.item t times p, rest)

def compile (source : List Char) : Except Fault Expression := do
  let (p, rest) ← terms (source.length + 1) source
  if rest = [] then .ok p else .error .syntaxError

end Apim.JsRegex
