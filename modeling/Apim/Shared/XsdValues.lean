import Apim.Shared.XsdCompile
import Mathlib.Computability.RegularExpressions

/-!
# Checking simple values

`checkSimpleValue` and what it asks (`shared/xsd.ts:1028-1292`), over a bundle whose arrays are lists. What
`new RegExp(source, "u").test` answers is a parameter (`matched`), and the sentences of the issues are left
out. A check through the references of lists and unions is bounded by a number, and has no result where
that is used up.
-/

namespace Apim.Xsd
open Overlay (Dict)
open Xml (Text)
open JsNumber (Double toNumber)
open RegularExpression (char rmatch star)

/-! ### Issues -/

structure XsdIssue where
  path : String
  rule : String
  deriving DecidableEq, Repr

structure VCtx where
  issues : List XsdIssue := []
  maxErrors : Nat
  truncated : Bool := false
  deriving DecidableEq, Repr

def fullCtx (ctx : VCtx) : Bool := decide (ctx.maxErrors ≤ ctx.issues.length)

def addIssue (ctx : VCtx) (path rule : String) : VCtx :=
  if fullCtx ctx then { ctx with truncated := true }
  else { ctx with issues := ctx.issues ++ [⟨path, rule⟩] }

def report (path : String) (checks : List (Bool × String)) (ctx : VCtx) : VCtx :=
  checks.foldl (fun ctx check => if check.1 then addIssue ctx path check.2 else ctx) ctx

/-! ### Built-in types -/

def INTEGER_RANGES : List (String × Option Int × Option Int) :=
  [("integer", none, none), ("nonPositiveInteger", none, some 0), ("negativeInteger", none, some (-1)),
    ("nonNegativeInteger", some 0, none), ("positiveInteger", some 1, none),
    ("long", some (-9223372036854775808), some 9223372036854775807),
    ("int", some (-2147483648), some 2147483647), ("short", some (-32768), some 32767),
    ("byte", some (-128), some 127), ("unsignedLong", some 0, some 18446744073709551615),
    ("unsignedInt", some 0, some 4294967295), ("unsignedShort", some 0, some 65535),
    ("unsignedByte", some 0, some 255)]

def isNumericBuiltin (builtin : String) : Bool :=
  builtin == "decimal" || builtin == "float" || builtin == "double" ||
    (INTEGER_RANGES.lookup builtin).isSome

abbrev Shape := RegularExpression Char

def oneOf (chars : String) : Shape := (chars.toList.map char).foldr (· + ·) 0

def optional (p : Shape) : Shape := 1 + p

def many (p : Shape) : Shape := p * p.star

def word (text : String) : Shape := (text.toList.map char).foldr (· * ·) 1

def DIGIT : Shape := oneOf "0123456789"
def SIGN : Shape := oneOf "+-"
def ALPHA : Shape := oneOf "abcdefghijklmnopqrstuvwxyzABCDEFGHIJKLMNOPQRSTUVWXYZ"
def ALNUM : Shape := ALPHA + DIGIT

def SPACE : Shape :=
  oneOf (String.ofList (([9, 10, 11, 12, 13, 0x20, 0xa0, 0x1680, 0x2028, 0x2029, 0x202f, 0x205f, 0x3000,
    0xfeff] ++ (List.range 11).map (0x2000 + ·)).map Char.ofNat))

def MANTISSA : Shape := many DIGIT * optional (char '.' * DIGIT.star) + char '.' * many DIGIT
def ZONE : Shape := optional (char 'Z' + SIGN * DIGIT ^ 2 * char ':' * DIGIT ^ 2)
def YEAR : Shape := optional (char '-') * DIGIT ^ 4 * DIGIT.star
def DAY_TIME : Shape :=
  DIGIT ^ 2 * char ':' * DIGIT ^ 2 * char ':' * DIGIT ^ 2 * optional (char '.' * many DIGIT)

def RE_DECIMAL : Shape := optional SIGN * MANTISSA
def RE_DOUBLE : Shape :=
  optional SIGN * MANTISSA * optional (oneOf "eE" * optional SIGN * many DIGIT) +
    optional (char '-') * word "INF" + word "NaN"
def RE_INTEGER : Shape := optional SIGN * many DIGIT
def RE_DATE : Shape := YEAR * char '-' * DIGIT ^ 2 * char '-' * DIGIT ^ 2 * ZONE
def RE_TIME : Shape := DAY_TIME * ZONE
def RE_DATETIME : Shape :=
  YEAR * char '-' * DIGIT ^ 2 * char '-' * DIGIT ^ 2 * char 'T' * DAY_TIME * ZONE
def RE_G_YEAR : Shape := YEAR * ZONE
def RE_G_YEAR_MONTH : Shape := YEAR * char '-' * DIGIT ^ 2 * ZONE
def RE_G_MONTH : Shape := word "--" * DIGIT ^ 2 * ZONE
def RE_G_MONTH_DAY : Shape := word "--" * DIGIT ^ 2 * char '-' * DIGIT ^ 2 * ZONE
def RE_G_DAY : Shape := word "---" * DIGIT ^ 2 * ZONE
def RE_NCNAME : Shape := (ALPHA + char '_') * (ALNUM + oneOf "_.-").star
def RE_NAME : Shape := (ALPHA + oneOf "_:") * (ALNUM + oneOf "_.:-").star
def RE_NMTOKEN : Shape := many (ALNUM + oneOf "_.:-")
def RE_HEX : Shape := ((DIGIT + oneOf "abcdefABCDEF") ^ 2).star
def RE_B64 : Shape := (ALNUM + oneOf "+/" + SPACE).star * optional (char '=') * optional (char '=')

def upToEight (p : Shape) : Shape := ((List.range 8).map fun n => p ^ (n + 1)).foldr (· + ·) 0

def RE_LANGUAGE : Shape := upToEight ALPHA * (char '-' * upToEight ALNUM).star

def component (unit : Char) : Shape := optional (many DIGIT * char unit)

def DURATION : Shape :=
  optional (char '-') * char 'P' * component 'Y' * component 'M' * component 'D' *
    optional (char 'T' * component 'H' * component 'M' *
      optional (many DIGIT * optional (char '.' * many DIGIT) * char 'S'))

def isDuration (value : Text) : Bool :=
  DURATION.rmatch value && value.getLast? != some 'P' && value.getLast? != some 'T'

def integerOf (value : Text) : Int :=
  if value.head? = some '-' then -(JsNumber.digitsValue value.tail : Int)
  else JsNumber.digitsValue (if value.head? = some '+' then value.tail else value)

/-- `builtinError` (`shared/xsd.ts:1192-1292`): whether the form is not one of the type. -/
def builtinError (builtin : String) (value : Text) : Bool :=
  match INTEGER_RANGES.lookup builtin with
  | some (low, high) =>
    !RE_INTEGER.rmatch value || low.any (fun low => decide (integerOf value < low)) ||
      high.any fun high => decide (high < integerOf value)
  | none =>
    if builtin = "boolean" then !(["true", "false", "1", "0"].contains (String.ofList value))
    else if builtin = "decimal" then !RE_DECIMAL.rmatch value
    else if builtin = "float" ∨ builtin = "double" then !RE_DOUBLE.rmatch value
    else if builtin = "date" then !RE_DATE.rmatch value
    else if builtin = "dateTime" then !RE_DATETIME.rmatch value
    else if builtin = "time" then !RE_TIME.rmatch value
    else if builtin = "duration" then !isDuration value
    else if builtin = "gYear" then !RE_G_YEAR.rmatch value
    else if builtin = "gYearMonth" then !RE_G_YEAR_MONTH.rmatch value
    else if builtin = "gMonth" then !RE_G_MONTH.rmatch value
    else if builtin = "gMonthDay" then !RE_G_MONTH_DAY.rmatch value
    else if builtin = "gDay" then !RE_G_DAY.rmatch value
    else if builtin = "base64Binary" then
      !(RE_B64.rmatch value && (value.filter fun c => !Routing.isSpace c).length % 4 == 0)
    else if builtin = "hexBinary" then !RE_HEX.rmatch value
    else if builtin = "anyURI" then value.contains ' '
    else if builtin = "language" then !RE_LANGUAGE.rmatch value
    else if builtin = "Name" ∨ builtin = "QName" then !RE_NAME.rmatch value
    else if ["NCName", "ID", "IDREF", "ENTITY"].contains builtin then !RE_NCNAME.rmatch value
    else if builtin = "NMTOKEN" then !RE_NMTOKEN.rmatch value
    else false

/-! ### Facets -/

def whiteSpaceOf (explicit : Option String) (builtin : String) : String :=
  explicit.getD (if builtin = "string" then "preserve"
    else if builtin = "normalizedString" then "replace" else "collapse")

def collapseSpaces : Text → Text
  | [] => []
  | [c] => [c]
  | c :: d :: rest => if c = ' ' ∧ d = ' ' then collapseSpaces (d :: rest) else c :: collapseSpaces (d :: rest)

def normalized (mode : String) (value : Text) : Text :=
  if mode = "preserve" then value
  else
    let replaced := value.map fun c => if c = '\t' ∨ c = '\n' ∨ c = '\r' then ' ' else c
    if mode = "replace" then replaced else collapseSpaces (Routing.trim replaced)

def normalizeWhitespace {α : Type} (value : Text) (type : XsdSimpleType α) : Text :=
  normalized (whiteSpaceOf (type.facets.values.lookup .whiteSpace) type.builtin) value

def below : Option Double → Option Double → Bool
  | some (.finite a), some (.finite b) => decide (a < b)
  | some (.finite _), some (.infinite negative) => !negative
  | some (.infinite negative), some (.finite _) => negative
  | some (.infinite a), some (.infinite b) => a && !b
  | _, _ => false

def atMost (a b : Option Double) : Bool := below a b || (a.isSome && a == b)

def count (n : Nat) : Option Double := some (.finite n)

def comesBefore (a b : Text) : Bool :=
  let codeUnits := fun (c : Char) =>
    if c.toNat < 0x10000 then [c.toNat]
    else [0xd800 + (c.toNat - 0x10000) / 0x400, 0xdc00 + (c.toNat - 0x10000) % 0x400]
  decide (a.flatMap codeUnits < b.flatMap codeUnits)

def Facet.refuses (builtin : String) (facet : Facet) (bound : String) (value : Text) : Bool :=
  let numeric := isNumericBuiltin builtin
  let limit := toNumber bound.toList
  match facet with
  | .length => limit != count value.length
  | .minLength => below (count value.length) limit
  | .maxLength => below limit (count value.length)
  | .minInclusive => if numeric then below (toNumber value) limit else comesBefore value bound.toList
  | .maxInclusive => if numeric then below limit (toNumber value) else comesBefore bound.toList value
  | .minExclusive => numeric && atMost (toNumber value) limit
  | .maxExclusive => numeric && atMost limit (toNumber value)
  | .fractionDigits => numeric && below limit (count (value.dropWhile (· != '.')).tail.length)
  | .totalDigits =>
    numeric && below limit (count ((value.filter JsNumber.isDigit).dropWhile (· == '0')).length)
  | .whiteSpace => false

def CHECKED : List (Facet × String) :=
  [(.length, "length"), (.minLength, "minLength"), (.maxLength, "maxLength"),
    (.minInclusive, "minInclusive"), (.maxInclusive, "maxInclusive"), (.minExclusive, "minExclusive"),
    (.maxExclusive, "maxExclusive"), (.fractionDigits, "fractionDigits"), (.totalDigits, "totalDigits")]

section
variable (matched : String → Text → Bool)

def facetChecks (builtin : String) (facets : Facets (List String)) (value : Text) : List (Bool × String) :=
  (facets.enumeration.any (fun values => !values.contains (String.ofList value)), "enumeration") ::
    (facets.patterns.any (fun patterns => !patterns.any fun p => matched p value), "pattern") ::
    CHECKED.map fun entry =>
      ((facets.values.lookup entry.1).any fun bound => entry.1.refuses builtin bound value, entry.2)

def checkAtomic (raw : Text) (type : XsdSimpleType (List String)) (path : String) (ctx : VCtx) : VCtx :=
  let value := normalizeWhitespace raw type
  if builtinError type.builtin value then addIssue ctx path "type"
  else report path (facetChecks matched type.builtin type.facets value) ctx

variable (types : Dict String (XsdType (List String)))

def simpleTypeFor (typeRef : String) : Option (XsdSimpleType (List String)) :=
  match builtinName typeRef with
  | some builtin => some { builtin := builtin, variety := .atomic }
  | none =>
    match types.lookup typeRef with
    | some (.simple type) => some type
    | _ => none

/-- `checkSimpleValue` (`shared/xsd.ts:1103-1176`). -/
def checkSimpleValue :
    Nat → Text → XsdSimpleType (List String) → String → VCtx → Option VCtx
  | 0, _, _, _, _ => none
  | fuel + 1, raw, type, path, ctx =>
    if fullCtx ctx then some ctx
    else
      match type.variety with
      | .list =>
        match type.itemRef.bind (simpleTypeFor types) with
        | none => some ctx
        | some item => (words raw).foldlM (fun ctx part => checkSimpleValue fuel part item path ctx) ctx
      | .union => do
        let member ← (type.memberRefs.filterMap (simpleTypeFor types)).foldlM (fun found member =>
          if found then some true
          else (checkSimpleValue fuel raw member path { maxErrors := 1 }).map fun probe =>
            decide (probe.issues = [])) false
        pure (if member then ctx else addIssue ctx path "union")
      | .atomic => some (checkAtomic matched raw type path ctx)

def Accepts (type : XsdSimpleType (List String)) (raw : Text) : Prop :=
  ∃ fuel ctx, checkSimpleValue matched types fuel raw type "/" { maxErrors := 20 } = some ctx ∧
    ctx.issues = []

end

/-! ### What is accepted -/

theorem issues_addIssue {ctx : VCtx} (h : 0 < ctx.maxErrors) (path rule : String) :
    (addIssue ctx path rule).issues ≠ [] ∧ (addIssue ctx path rule).maxErrors = ctx.maxErrors := by
  rw [addIssue]
  split
  · next hfull =>
    refine ⟨fun hnil => ?_, rfl⟩
    rw [fullCtx, decide_eq_true_eq] at hfull
    rw [show ctx.issues = [] from hnil, List.length_nil] at hfull
    exact absurd hfull (by omega)
  · exact ⟨List.append_ne_nil_of_right_ne_nil _ (List.cons_ne_nil _ _), rfl⟩

theorem report_issues (path : String) (checks : List (Bool × String)) {ctx : VCtx}
    (h : 0 < ctx.maxErrors) :
    (report path checks ctx).issues = [] ↔ ctx.issues = [] ∧ ∀ check ∈ checks, check.1 = false := by
  induction checks generalizing ctx with
  | nil => exact ⟨fun hnil => ⟨hnil, nofun⟩, And.left⟩
  | cons check rest ih =>
    rw [List.forall_mem_cons]
    cases hcheck : check.1 with
    | false =>
      have hstep : report path (check :: rest) ctx = report path rest ctx := by
        rw [report, List.foldl_cons, hcheck]
        rfl
      rw [hstep, ih h]
      exact and_congr_right fun _ => (and_iff_right rfl).symm
    | true =>
      obtain ⟨hissues, hmax⟩ := issues_addIssue h path check.2
      have hstep : report path (check :: rest) ctx = report path rest (addIssue ctx path check.2) := by
        rw [report, List.foldl_cons, hcheck]
        rfl
      rw [hstep, ih (hmax.symm ▸ h)]
      exact ⟨fun hnil => absurd hnil.1 hissues, fun hall => absurd hall.2.1 Bool.noConfusion⟩

section
variable {matched : String → Text → Bool} {types : Dict String (XsdType (List String))}

theorem accepts_atomic {type : XsdSimpleType (List String)} (h : type.variety = .atomic) (raw : Text) :
    Accepts matched types type raw ↔ builtinError type.builtin (normalizeWhitespace raw type) = false ∧
      ∀ check ∈ facetChecks matched type.builtin type.facets (normalizeWhitespace raw type),
        check.1 = false := by
  have hcheck : ∀ fuel, checkSimpleValue matched types (fuel + 1) raw type "/" { maxErrors := 20 } =
      some (checkAtomic matched raw type "/" { maxErrors := 20 }) := by
    intro fuel
    rw [checkSimpleValue, if_neg (by decide), h]
  have hissues : (checkAtomic matched raw type "/" { maxErrors := 20 }).issues = [] ↔
      builtinError type.builtin (normalizeWhitespace raw type) = false ∧
        ∀ check ∈ facetChecks matched type.builtin type.facets (normalizeWhitespace raw type),
          check.1 = false := by
    rw [checkAtomic]
    cases herror : builtinError type.builtin (normalizeWhitespace raw type) with
    | true =>
      rw [if_pos rfl]
      exact ⟨fun hnil => absurd hnil (issues_addIssue (by decide) _ _).1, fun hall => Bool.noConfusion hall.1⟩
    | false =>
      rw [if_neg Bool.false_ne_true, report_issues _ _ (by decide)]
      exact and_congr_left fun _ => ⟨fun _ => rfl, fun _ => rfl⟩
  rw [← hissues]
  constructor
  · rintro ⟨fuel, ctx, hrun, hnil⟩
    cases fuel with
    | zero => cases hrun
    | succ fuel =>
      rw [hcheck] at hrun
      cases hrun
      exact hnil
  · exact fun hnil => ⟨1, _, hcheck 0, hnil⟩

end

end Apim.Xsd
