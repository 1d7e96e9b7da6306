import Apim.DataPlane.Validate
import Apim.Shared.Hex
import Apim.Shared.JsNumber

/-!
# Reading and writing JSON

`readJsonBounded` (`shared/json-reader.ts:73-294`) and `JSON.stringify`, over texts of characters and
strings of UTF-16 code units. A text is read as a tree whose numbers are the literals it has and whose
members are those it has (`readTree`); the reader makes a JavaScript value of it as it goes (`toJs`).
-/

namespace Apim.JsonReader
open DataPlane (JsonLimits DuplicateKeys)
open Hex JsNumber

/-! ### Values -/

abbrev Units := List UInt16

inductive Value (ν : Type) where
  | null
  | bool (b : Bool)
  | num (n : ν)
  | str (s : Units)
  | arr (items : List (Value ν))
  | obj (members : List (Units × Value ν))

abbrev Tree := Value Literal

abbrev JsValue := Value Double

def unitsOf (c : Char) : Units :=
  if c.toNat < 0x10000 then [UInt16.ofNat c.toNat]
  else [UInt16.ofNat (0xd800 + (c.toNat - 0x10000) / 0x400),
    UInt16.ofNat (0xdc00 + (c.toNat - 0x10000) % 0x400)]

def units (text : String) : Units := text.toList.flatMap unitsOf

inductive Step where
  | index (i : Nat)
  | name (key : Units)
  deriving DecidableEq, Repr

/-! ### Refusals -/

inductive Fault where
  | outOfFuel
  | unexpectedCharacter
  | unterminatedString
  | unterminatedEscape
  | invalidUnicodeEscape
  | invalidEscape (c : Char)
  | controlCharacter (c : Char)
  | truncatedNumber
  | expectedDigit
  | expectedFraction
  | expectedExponent
  | tooDeep
  | unexpectedEnd
  | tooLong
  | unterminatedArray
  | expectedItemEnd
  | expectedKey
  | tooManyKeys
  | duplicateKey (key : Units)
  | expectedColon (key : Units)
  | unterminatedObject
  | expectedMemberEnd
  | trailingContent
  deriving DecidableEq, Repr

/-- `JsonError`: the fault, the text from the offset on, and the pointer to the value. -/
structure JsonError where
  fault : Fault
  rest : List Char
  path : List Step := []
  deriving DecidableEq, Repr

/-! ### Strings and numbers -/

def isWs (c : Char) : Bool := c == ' ' || c == '\t' || c == '\n' || c == '\r'

def skipWs (text : List Char) : List Char := text.dropWhile isWs

def simpleEscape (c : Char) : Option Char :=
  if c = '"' then some '"'
  else if c = '\\' then some '\\'
  else if c = '/' then some '/'
  else if c = 'b' then some '\x08'
  else if c = 'f' then some '\x0c'
  else if c = 'n' then some '\n'
  else if c = 'r' then some '\r'
  else if c = 't' then some '\t'
  else none

def after (front : Units) : Except JsonError (Units × List Char) → Except JsonError (Units × List Char)
  | .ok (s, rest) => .ok (front ++ s, rest)
  | .error e => .error e

def readString : List Char → Except JsonError (Units × List Char)
  | [] => .error ⟨.unterminatedString, [], []⟩
  | c :: text =>
    if c = '"' then .ok ([], text)
    else if c = '\\' then
      match text with
      | [] => .error ⟨.unterminatedEscape, [], []⟩
      | e :: more =>
        if e = 'u' then
          match more with
          | a :: b :: c :: d :: rest =>
            match hexValue a b c d with
            | some n => after [UInt16.ofNat n] (readString rest)
            | none => .error ⟨.invalidUnicodeEscape, e :: more, []⟩
          | _ => .error ⟨.invalidUnicodeEscape, e :: more, []⟩
        else
          match simpleEscape e with
          | some escaped => after (unitsOf escaped) (readString more)
          | none => .error ⟨.invalidEscape e, e :: more, []⟩
    else if c.toNat < 0x20 then .error ⟨.controlCharacter c, c :: text, []⟩
    else after (unitsOf c) (readString text)

def readWhole : List Char → Except JsonError (List Char × List Char)
  | [] => .error ⟨.truncatedNumber, [], []⟩
  | c :: text =>
    if c = '0' then .ok (['0'], text)
    else if isDigit c = true then .ok (c :: text.takeWhile isDigit, text.dropWhile isDigit)
    else .error ⟨.expectedDigit, c :: text, []⟩

def readFraction (text : List Char) : Except JsonError (List Char × List Char) :=
  if text.head? = some '.' then
    let digits := text.tail.takeWhile isDigit
    if digits = [] then .error ⟨.expectedFraction, text.tail, []⟩
    else .ok (digits, text.tail.dropWhile isDigit)
  else .ok ([], text)

def readSign (text : List Char) : Bool × List Char :=
  if text.head? = some '-' then (true, text.tail)
  else if text.head? = some '+' then (false, text.tail)
  else (false, text)

def readExponent (text : List Char) : Except JsonError (Option (Bool × List Char) × List Char) :=
  if text.head? = some 'e' ∨ text.head? = some 'E' then
    let signed := readSign text.tail
    let digits := signed.2.takeWhile isDigit
    if digits = [] then .error ⟨.expectedExponent, signed.2, []⟩
    else .ok (some (signed.1, digits), signed.2.dropWhile isDigit)
  else .ok (none, text)

def readNumber (text : List Char) : Except JsonError (Literal × List Char) := do
  let negative := decide (text.head? = some '-')
  let (whole, rest) ← readWhole (if negative then text.tail else text)
  let (fraction, rest) ← readFraction rest
  let (exponent, rest) ← readExponent rest
  pure (⟨negative, whole, fraction, exponent⟩, rest)

def literal (word : String) (value : Tree) (text : List Char) : Except JsonError (Tree × List Char) :=
  if word.toList.isPrefixOf text then .ok (value, text.drop word.length)
  else .error ⟨.unexpectedCharacter, text, []⟩

/-! ### Values of a text -/

def PROTO : Units := units "__proto__"

def exceeds (limits : Option JsonLimits) (bound : JsonLimits → Nat) (n : Nat) : Bool :=
  limits.any fun l => decide (bound l < n)

def isDuplicate (limits : Option JsonLimits) (own : List Units) (key : Units) : Bool :=
  own.contains key && limits.any fun l => l.duplicateKeys == .reject

def assigned (own : List Units) (key : Units) : List Units := if key = PROTO then own else key :: own

mutual
def readValue (limits : Option JsonLimits) :
    Nat → Nat → List Step → List Char → Except JsonError (Tree × List Char)
  | 0, _, path, text => .error ⟨.outOfFuel, text, path⟩
  | fuel + 1, depth, path, text =>
    if exceeds limits JsonLimits.maxDepth depth = true then .error ⟨.tooDeep, text, path⟩
    else
      match skipWs text with
      | [] => .error ⟨.unexpectedEnd, [], path⟩
      | c :: rest =>
        if c = '"' then (readString rest).map fun (s, rest) => (.str s, rest)
        else if c = '-' ∨ isDigit c = true then
          (readNumber (c :: rest)).map fun (n, rest) => (.num n, rest)
        else if c = 't' then literal "true" (.bool true) (c :: rest)
        else if c = 'f' then literal "false" (.bool false) (c :: rest)
        else if c = 'n' then literal "null" .null (c :: rest)
        else if c = '[' then
          if (skipWs rest).head? = some ']' then .ok (.arr [], (skipWs rest).tail)
          else (readItems limits fuel depth path 0 (skipWs rest)).map fun (items, rest) =>
            (.arr items, rest)
        else if c = '\x7b' then
          if (skipWs rest).head? = some '\x7d' then .ok (.obj [], (skipWs rest).tail)
          else (readMembers limits fuel depth path [] 0 (skipWs rest)).map fun (members, rest) =>
            (.obj members, rest)
        else .error ⟨.unexpectedCharacter, c :: rest, []⟩

def readItems (limits : Option JsonLimits) :
    Nat → Nat → List Step → Nat → List Char → Except JsonError (List Tree × List Char)
  | 0, _, path, _, text => .error ⟨.outOfFuel, text, path⟩
  | fuel + 1, depth, path, count, text =>
    if exceeds limits JsonLimits.maxArrayLength (count + 1) = true then .error ⟨.tooLong, text, path⟩
    else do
      let (v, rest) ← readValue limits fuel (depth + 1) (path ++ [.index count]) text
      match skipWs rest with
      | [] => .error ⟨.unterminatedArray, [], path⟩
      | c :: rest =>
        if c = ',' then do
          let (items, rest) ← readItems limits fuel depth path (count + 1) rest
          pure (v :: items, rest)
        else if c = ']' then .ok ([v], rest)
        else .error ⟨.expectedItemEnd, c :: rest, path⟩

def readMembers (limits : Option JsonLimits) :
    Nat → Nat → List Step → List Units → Nat → List Char →
      Except JsonError (List (Units × Tree) × List Char)
  | 0, _, path, _, _, text => .error ⟨.outOfFuel, text, path⟩
  | fuel + 1, depth, path, own, keys, text =>
    if (skipWs text).head? ≠ some '"' then .error ⟨.expectedKey, skipWs text, path⟩
    else do
      let (key, rest) ← readString (skipWs text).tail
      if exceeds limits JsonLimits.maxObjectKeys (keys + 1) = true then
        .error ⟨.tooManyKeys, rest, path⟩
      else if isDuplicate limits own key = true then
        .error ⟨.duplicateKey key, skipWs text, path⟩
      else if (skipWs rest).head? ≠ some ':' then .error ⟨.expectedColon key, skipWs rest, path⟩
      else do
        let (v, rest) ← readValue limits fuel (depth + 1) (path ++ [.name key]) (skipWs rest).tail
        match skipWs rest with
        | [] => .error ⟨.unterminatedObject, [], path⟩
        | c :: rest =>
          if c = ',' then do
            let (members, rest) ← readMembers limits fuel depth path (assigned own key) (keys + 1) rest
            pure ((key, v) :: members, rest)
          else if c = '\x7d' then .ok ([(key, v)], rest)
          else .error ⟨.expectedMemberEnd, c :: rest, path⟩
end

def readTree (limits : Option JsonLimits) (text : List Char) : Except JsonError Tree := do
  let (t, rest) ← readValue limits (2 * text.length + 2) 1 [] text
  if skipWs rest = [] then .ok t else .error ⟨.trailingContent, skipWs rest, []⟩

/-! ### What JavaScript makes of it -/

/-- `out[key] = value`: a new member comes last, one that is there keeps its place, and the prototype is
no member. -/
def assign (members : List (Units × JsValue)) (key : Units) (value : JsValue) :
    List (Units × JsValue) :=
  if key = PROTO then members
  else if members.any (fun member => member.1 == key) then
    members.map fun member => if member.1 = key then (key, value) else member
  else members ++ [(key, value)]

mutual
def toJs : Tree → JsValue
  | .null => .null
  | .bool b => .bool b
  | .num n => .num (ofRat n.value)
  | .str s => .str s
  | .arr items => .arr (itemsToJs items)
  | .obj members => .obj ((membersToJs members).foldl (fun out member => assign out member.1 member.2) [])

def itemsToJs : List Tree → List JsValue
  | [] => []
  | v :: rest => toJs v :: itemsToJs rest

def membersToJs : List (Units × Tree) → List (Units × JsValue)
  | [] => []
  | (key, v) :: rest => (key, toJs v) :: membersToJs rest
end

/-- `readJsonBounded` (`shared/json-reader.ts:73-294`). -/
def readJsonBounded (text : List Char) (limits : JsonLimits) : Except JsonError JsValue :=
  (readTree (some limits) text).map toJs

end Apim.JsonReader
