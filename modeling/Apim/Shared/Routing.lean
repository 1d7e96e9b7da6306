import Mathlib.Data.List.Basic
import Mathlib.Algebra.GroupWithZero.Nat

/-!
# Addresses

The normalisation of a host and a base path that every write path goes through
(`shared/routing.ts:24-60`). A refusal keeps its case, not its sentence.
-/

namespace Apim.Routing

-- A test over the characters of a text runs over that text, not over every character.
instance (priority := 1100) decidableAll (P : Char → Prop) [DecidablePred P] (text : List Char) :
    Decidable (∀ c ∈ text, P c) :=
  List.decidableBAll P text

instance (priority := 1100) decidableSome (P : Char → Prop) [DecidablePred P] (text : List Char) :
    Decidable (∃ c ∈ text, P c) :=
  List.decidableBEx P text

inductive AddressError where
  | emptyBasePath
  | noLeadingSlash
  | queryOrFragment
  | whitespace
  | doubleSlash
  | tooLong
  | reserved (basePath : String)
  | badHost
  deriving DecidableEq, Repr

/-- `RESERVED_BASE_PATHS` (`shared/routing.ts:8`). -/
def RESERVED_BASE_PATHS : List String := ["/healthz", "/readyz"]

def MAX_BASE_PATH_LENGTH : Nat := 128

def isSpace (c : Char) : Bool :=
  let n := c.toNat
  (9 ≤ n && n ≤ 13) || n == 0x20 || n == 0xa0 || n == 0x1680 || (0x2000 ≤ n && n ≤ 0x200a) ||
    n == 0x2028 || n == 0x2029 || n == 0x202f || n == 0x205f || n == 0x3000 || n == 0xfeff

def trim (value : List Char) : List Char :=
  ((value.dropWhile isSpace).reverse.dropWhile isSpace).reverse

/-- Lower case, as far as it can give a character a host may have: the ASCII letters, and the
Kelvin sign, whose lower case is `k`. -/
def toLower (c : Char) : Char := if c.toNat == 0x212a then 'k' else c.toLower

def stripTrailingSlashes (value : List Char) : List Char :=
  match value with
  | [] => []
  | c :: rest => c :: (rest.reverse.dropWhile (· == '/')).reverse

def hasDoubleSlash : List Char → Bool
  | '/' :: '/' :: _ => true
  | _ :: rest => hasDoubleSlash rest
  | [] => false

def utf16Length (value : List Char) : Nat :=
  (value.map fun c => if c.toNat < 0x10000 then 1 else 2).sum

/-- `normalizeBasePath` (`shared/routing.ts:24-45`). -/
def normalizeBasePath (input : String) : String × List AddressError :=
  if input.isEmpty then ("", [.emptyBasePath])
  else
    let value := trim input.toList
    let basePath := String.ofList (stripTrailingSlashes value)
    (basePath,
      (if value.head? = some '/' then [] else [.noLeadingSlash]) ++
      (if value.contains '?' || value.contains '#' then [.queryOrFragment] else []) ++
      (if value.any isSpace then [.whitespace] else []) ++
      (if hasDoubleSlash value then [.doubleSlash] else []) ++
      (if utf16Length value > MAX_BASE_PATH_LENGTH then [.tooLong] else []) ++
      (if RESERVED_BASE_PATHS.contains basePath then [.reserved basePath] else []))

def hostChar (c : Char) : Bool :=
  ('a' ≤ c && c ≤ 'z') || ('0' ≤ c && c ≤ '9') || c == '.' || c == '-'

/-- `normalizeHost` (`shared/routing.ts:47-57`). -/
def normalizeHost (input : String) : String × List AddressError :=
  let trimmed := trim input.toList
  if trimmed.isEmpty then ("*", [])
  else
    let host := trimmed.map toLower
    if host = ['*'] then ("*", [])
    else (String.ofList host, if host.all hostChar then [] else [.badHost])

example : normalizeBasePath "/orders/" = ("/orders", []) := by decide
example : normalizeHost " API.Example " = ("api.example", []) := by decide

end Apim.Routing
