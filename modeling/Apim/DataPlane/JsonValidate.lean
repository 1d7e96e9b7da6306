import Apim.DataPlane.JsonWriter
import Apim.Lib.Budget
import Apim.Lib.Guard
import Apim.Shared.JsonSchema

/-!
# Validating against a compiled schema

`validate` (`shared/jsonschema.ts:347-750`), over the nodes that `compile` makes. A node is the JSON it is
stored as; what stands under a keyword in a form `compile` never writes is a `TypeError`. `check` counts the
schemas it may still go into down to nothing where the source counts them up to `maxDepth`. The regular
expressions of the engine and the checks of `format` are parameters.
-/

namespace Apim.JsonSchema
open Overlay (Dict)
open Budget

structure Issue where
  path : String
  rule : String
  message : String
  deriving DecidableEq, Repr

inductive Thrown where
  | syntaxError (pattern : String)
  | typeError
  deriving DecidableEq, Repr

structure Engine where
  compiles : String → Bool
  test : String → String → Bool
  /-- `formatError` (`shared/jsonschema.ts:761-818`). -/
  formatError : String → Json → Option String

structure Bundle where
  defs : Dict String Json
  maxPatternInputBytes : Nat := 4096
  maxDepth : Nat := 64

abbrev Check := Step Thrown Issue

/-! ### Texts -/

mutual
def toJsValue : Json → JsonReader.JsValue
  | .null => .null
  | .bool b => .bool b
  | .num q => .num (.finite q)
  | .str s => .str (JsonReader.units s)
  | .arr items => .arr (itemsToJsValue items)
  | .obj members => .obj (membersToJsValue members)

def itemsToJsValue : List Json → List JsonReader.JsValue
  | [] => []
  | v :: rest => toJsValue v :: itemsToJsValue rest

def membersToJsValue : List (String × Json) → List (JsonReader.Units × JsonReader.JsValue)
  | [] => []
  | (key, v) :: rest => (JsonReader.units key, toJsValue v) :: membersToJsValue rest
end

def stringify (v : Json) : String := String.ofList (JsonReader.stringify (toJsValue v))

def shown (n : Rat) : String := stringify (.num n)

def pointerSegment (key : String) : String :=
  String.ofList (key.toList.flatMap fun c => if c = '~' then ['~', '0'] else if c = '/' then ['~', '1'] else [c])

def below (path key : String) : String := s!"{path}/{pointerSegment key}"

def nth (path : String) (index : Nat) : String := s!"{path}/{index}"

/-! ### Values -/

def typeOf : Json → String
  | .null => "null"
  | .arr _ => "array"
  | .num n => if n.den = 1 then "integer" else "number"
  | .bool _ => "boolean"
  | .str _ => "string"
  | .obj _ => "object"

def matchesType (value : Json) (type : String) : Bool :=
  if type = "integer" then
    match value with
    | .num n => n.den = 1
    | _ => false
  else if type = "number" then typeOf value = "number" || typeOf value = "integer"
  else if SIMPLE_TYPES.contains type then typeOf value = type
  else true

mutual
/-- `canonicalize` (`shared/canonical.ts:7-16`): the members in order, and none under `__proto__`. Two values
have one canonical text where these are the same. -/
def canonicalize : Json → Json
  | .arr items => .arr (canonicalItems items)
  | .obj members => .obj ((canonicalMembers members).mergeSort fun a b => a.1 ≤ b.1)
  | v => v

def canonicalItems : List Json → List Json
  | [] => []
  | v :: rest => canonicalize v :: canonicalItems rest

def canonicalMembers : List (String × Json) → List (String × Json)
  | [] => []
  | (key, v) :: rest =>
    if key = "__proto__" then canonicalMembers rest else (key, canonicalize v) :: canonicalMembers rest
end

def sameValue (a b : Json) : Bool := decide (canonicalize a = canonicalize b)

def firstDuplicate : List Json → List Json → Nat → Option Nat
  | _, [], _ => none
  | seen, v :: rest, i =>
    if seen.any (sameValue v) then some i else firstDuplicate (v :: seen) rest (i + 1)

/-! ### Keywords -/

def number? (key : String) (schema : Json) : Option Rat :=
  match schema.member? key with
  | some (.num n) => some n
  | _ => none

def text? (key : String) (schema : Json) : Option String := (schema.member? key).bind Json.asString?

def falsy : Json → Bool
  | .null => true
  | .bool b => !b
  | .num n => n = 0
  | .str s => s = ""
  | _ => false

def schemaUnder (key : String) (schema : Json) : Option Json := (schema.member? key).filter fun v => !falsy v

def listUnder (key : String) (schema : Json) : Except Thrown (Option (List Json)) :=
  match schemaUnder key schema with
  | none => .ok none
  | some (.arr items) => .ok (some items)
  | some _ => .error .typeError

def membersUnder (key : String) (schema : Json) : Except Thrown (List (String × Json)) :=
  match schemaUnder key schema with
  | none => .ok []
  | some (.obj members) => .ok members
  | some _ => .error .typeError

/-! ### Reports -/

def add (path rule message : String) : Check := report ⟨if path = "" then "/" else path, rule, message⟩

def addIf (failed : Bool) (path rule message : String) : Check :=
  if failed then add path rule message else done

section
variable (E : Engine) (bundle : Bundle)

def checkBound (schema : Json) (path rule : String) (failed : Rat → Bool) (message : String → String) : Check :=
  match number? rule schema with
  | none => done
  | some bound => addIf (failed bound) path rule (message (shown bound))

def matchPattern (pattern text : String) : Except Thrown Bool :=
  if E.compiles pattern then .ok (E.test pattern text) else .error (.syntaxError pattern)

def checkFormat (value schema : Json) (path : String) : Check :=
  match (text? "format" schema).bind fun format => E.formatError format value with
  | none => done
  | some message => add path "format" message

def checkPattern (value : String) (schema : Json) (path : String) : Check :=
  match text? "pattern" schema with
  | none => done
  | some pattern =>
    if bundle.maxPatternInputBytes < value.utf8ByteSize then
      add path "pattern" s!"longer than {bundle.maxPatternInputBytes} bytes, so it was not matched"
    else
      after (matchPattern E pattern value) fun found =>
        addIf (!found) path "pattern" s!"does not match {pattern}"

def checkString (value : String) (schema : Json) (path : String) : Check :=
  andThen (checkBound schema path "minLength" (fun bound => value.length < bound)
    fun bound => s!"shorter than {bound} characters") <|
  andThen (checkBound schema path "maxLength" (fun bound => bound < value.length)
    fun bound => s!"longer than {bound} characters") <|
  andThen (checkPattern E bundle value schema path) (checkFormat E (.str value) schema path)

def TOLERANCE : JsNumber.Double := JsNumber.ofRat (1 / 1000000000)

def offMultiple (value unit : Rat) : Bool :=
  match JsNumber.ofRat (value / unit), TOLERANCE with
  | .finite quotient, .finite tolerance =>
    decide (tolerance < |quotient - ((quotient + 1 / 2).floor : Rat)|)
  -- the difference of two infinities is no number
  | _, _ => false

def checkNumber (value : Rat) (schema : Json) (path : String) : Check :=
  andThen (checkBound schema path "minimum" (fun bound => value < bound) fun bound => s!"less than {bound}") <|
  andThen (checkBound schema path "maximum" (fun bound => bound < value)
    fun bound => s!"greater than {bound}") <|
  andThen (checkBound schema path "exclusiveMinimum" (fun bound => value ≤ bound)
    fun bound => s!"not greater than {bound}") <|
  andThen (checkBound schema path "exclusiveMaximum" (fun bound => bound ≤ value)
    fun bound => s!"not less than {bound}") <|
  andThen (checkBound schema path "multipleOf" (fun unit => 0 < unit && offMultiple value unit)
    fun unit => s!"not a multiple of {unit}")
    (checkFormat E (.num value) schema path)

end

section
variable (E : Engine) (chk : Json → Json → String → Check)

def checkUnder (key : String) (schema value : Json) (path : String) : Check :=
  match schemaUnder key schema with
  | none => done
  | some sub => chk value sub path

def countMatches (sub : Json) (path : String) (items : List Json) : Except Thrown Nat := do
  let found ← items.mapM fun item => probe (chk item sub path) 1
  return found.countP (·.isEmpty)

def checkContains (items : List Json) (schema : Json) (path : String) : Check :=
  match schemaUnder "contains" schema with
  | none => done
  | some sub =>
    after (countMatches chk sub path items) fun found =>
      let min := (number? "minContains" schema).getD 1
      andThen (addIf (found < min) path "contains" s!"fewer than {shown min} items match \"contains\"")
        (match number? "maxContains" schema with
          | none => done
          | some max =>
            addIf (max < found) path "maxContains" s!"more than {shown max} items match \"contains\"")

def checkUnique (items : List Json) (schema : Json) (path : String) : Check :=
  if schema.member? "uniqueItems" = some (.bool true) then
    match firstDuplicate [] items 0 with
    | none => done
    | some i => add (nth path i) "uniqueItems" "duplicates an earlier item"
  else done

def checkArray (items : List Json) (schema : Json) (path : String) : Check :=
  andThen (checkBound schema path "minItems" (fun bound => items.length < bound)
    fun bound => s!"fewer than {bound} items") <|
  andThen (checkBound schema path "maxItems" (fun bound => bound < items.length)
    fun bound => s!"more than {bound} items") <|
  andThen (checkUnique items schema path) <|
  after (listUnder "prefixItems" schema) fun front =>
    let front := front.getD []
    whileRoom (fun ((item, sub), i) => chk item sub (nth path i)) (items.zip front).zipIdx <|
    whileRoom (fun ((item, sub), i) => chk item sub (nth path i))
      (match schemaUnder "items" schema with
        | none => []
        | some sub => (items.zipIdx.drop front.length).map fun (item, i) => ((item, sub), i)) <|
    checkContains chk items schema path

def checkMatched (schema : Json) (key : String) (item : Json) (path : String) :
    List (String × Json) → Bool → Check
  | [], matched => if matched then done else checkUnder chk "additionalProperties" schema item path
  | (pattern, sub) :: rest, matched =>
    after (matchPattern E pattern key) fun found =>
      if found then andThen (chk item sub path) (checkMatched schema key item path rest true)
      else checkMatched schema key item path rest matched

def checkMember (schema : Json) (path : String) (member : String × Json) : Check :=
  let (key, item) := member
  let path := below path key
  andThen (checkUnder chk "propertyNames" schema (.str key) path) <|
  after (membersUnder "patternProperties" schema) fun patterns =>
    match (schemaUnder "properties" schema).bind (·.member? key) with
    | none => checkMatched E chk schema key item path patterns false
    | some sub => andThen (chk item sub path) (checkMatched E chk schema key item path patterns true)

def missing (required : List Json) (members : List (String × Json)) : List String :=
  required.filterMap fun name =>
    name.asString?.filter fun name => !(members.lookup name).isSome

def checkObject (members : List (String × Json)) (schema : Json) (path : String) : Check :=
  andThen (checkBound schema path "minProperties" (fun bound => members.length < bound)
    fun bound => s!"fewer than {bound} properties") <|
  andThen (checkBound schema path "maxProperties" (fun bound => bound < members.length)
    fun bound => s!"more than {bound} properties") <|
  after (listUnder "required" schema) fun required =>
    whileRoom (fun name => add (below path name) "required" s!"required property \"{name}\" is missing")
      (missing (required.getD []) members) <|
    whileRoom (checkMember E chk schema path) members done

def reasons (failures : List Issue) : String :=
  "; ".intercalate ((failures.take 3).map fun issue => s!"{issue.path}: {issue.message}")

/-- The failures of the alternatives of `anyOf`, none where one of them matches. -/
def failuresOf (value : Json) (path : String) : List Json → Except Thrown (Option (List Issue))
  | [] => .ok (some [])
  | sub :: rest => do
    let found ← probe (chk value sub path) 3
    if found = [] then return none
    else return (← failuresOf value path rest).map (found ++ ·)

def checkAnyOf (value schema : Json) (path : String) : Check :=
  after (listUnder "anyOf" schema) fun
    | none => done
    | some subs =>
      after (failuresOf chk value path subs) fun
        | none => done
        | some failures =>
          add path "anyOf" s!"matched none of the {subs.length} alternatives ({reasons failures})"

def checkOneOf (value schema : Json) (path : String) : Check :=
  after (listUnder "oneOf" schema) fun
    | none => done
    | some subs =>
      after (subs.mapM fun sub => probe (chk value sub path) 3) fun found =>
        let count := found.countP (·.isEmpty)
        addIf (count ≠ 1) path "oneOf"
          (if count = 0 then s!"matched none of the {subs.length} alternatives ({reasons found.flatten})"
          else s!"matched {count} of the {subs.length} alternatives, expected exactly one")

def checkNot (value schema : Json) (path : String) : Check :=
  match schemaUnder "not" schema with
  | none => done
  | some sub =>
    after (probe (chk value sub path) 1) fun found =>
      addIf found.isEmpty path "not" "matched a schema it must not match"

def checkIf (value schema : Json) (path : String) : Check :=
  match schemaUnder "if" schema with
  | none => done
  | some sub =>
    after (probe (chk value sub path) 1) fun found =>
      checkUnder chk (if found = [] then "then" else "else") schema value path

def checkApplicators (value schema : Json) (path : String) : Check :=
  after (listUnder "allOf" schema) fun allOf =>
    whileRoom (fun sub => chk value sub path) (allOf.getD []) <|
    andThen (checkAnyOf chk value schema path) <|
    andThen (checkOneOf chk value schema path) <|
    andThen (checkNot chk value schema path) (checkIf chk value schema path)

def checkEnum (value schema : Json) (path : String) : Check :=
  match schema.member? "enum" with
  | none => done
  | some (.arr allowed) =>
    let texts := ", ".intercalate (allowed.map stringify)
    addIf (!allowed.any (sameValue · value)) path "enum" s!"expected one of {texts}"
  | some _ => fun _ => .error .typeError

def checkConst (value schema : Json) (path : String) : Check :=
  match schema.member? "const" with
  | none => done
  | some expected => addIf (!sameValue expected value) path "const" s!"expected {stringify expected}"

def checkValue (bundle : Bundle) (value schema : Json) (path : String) : Check :=
  match value with
  | .str s => checkString E bundle s schema path
  | .num n => checkNumber E n schema path
  | .arr items => checkArray chk items schema path
  | .obj members => checkObject E chk members schema path
  | _ => done

def typeNames (types : List Json) : List String := types.map fun name => name.asString?.getD ""

/-- `check` behind the `$ref` (`shared/jsonschema.ts:481-510`). -/
def checkKeywords (bundle : Bundle) (value schema : Json) (path : String) : Check :=
  if schema.member? "nullableAny" = some (.bool true) ∧ value = .null then done
  else
    after (listUnder "type" schema) fun types =>
      if types.any fun types => !(typeNames types).any (matchesType value) then
        let names := " or ".intercalate (typeNames (types.getD []))
        add path "type" s!"expected {names}, got {typeOf value}"
      else
        andThen (checkEnum value schema path) <|
        andThen (checkConst value schema path) <|
        andThen (checkValue E chk bundle value schema path) (checkApplicators chk value schema path)

def checkRef (bundle : Bundle) (value schema : Json) (path : String) : Check :=
  match text? "$ref" schema with
  | none => checkKeywords E chk bundle value schema path
  | some ref =>
    match bundle.defs.lookup ref with
    | none => add path "$ref" s!"the compiled bundle has no definition \"{ref}\""
    | some target =>
      andThen (chk value target path)
        (match schema with
          | .obj [_] => done
          | _ => checkKeywords E chk bundle value schema path)

end

/-- `check` at the depth that leaves so many levels (`shared/jsonschema.ts:463-511`). -/
def check (E : Engine) (bundle : Bundle) : Nat → Json → Json → String → Check
  | 0, _, _, path =>
    unlessFull (add path "depth" s!"schema evaluation nested deeper than {bundle.maxDepth}")
  | levels + 1, value, schema, path =>
    unlessFull (checkRef E (check E bundle levels) bundle value schema path)

/-! ### Every check is cut by a smaller budget -/

section
variable {E : Engine} {bundle : Bundle} {chk : Json → Json → String → Check}

theorem addIf_lawful (failed : Bool) (path rule message : String) : Lawful (addIf failed path rule message) := by
  unfold addIf
  split
  · exact .report _
  · exact .done

theorem checkBound_lawful (schema : Json) (path rule : String) (failed : Rat → Bool)
    (message : String → String) : Lawful (checkBound schema path rule failed message) := by
  unfold checkBound
  split
  · exact .done
  · exact addIf_lawful ..

theorem checkFormat_lawful (value schema : Json) (path : String) :
    Lawful (checkFormat E value schema path) := by
  unfold checkFormat
  split
  · exact .done
  · exact .report _

theorem checkPattern_lawful (value : String) (schema : Json) (path : String) :
    Lawful (checkPattern E bundle value schema path) := by
  unfold checkPattern
  split
  · exact .done
  · split
    · exact .report _
    · exact .after fun _ _ => addIf_lawful ..

theorem checkString_lawful (value : String) (schema : Json) (path : String) :
    Lawful (checkString E bundle value schema path) := by
  unfold checkString
  refine .andThen (checkBound_lawful ..) (.andThen (checkBound_lawful ..) ?_)
  exact .andThen (checkPattern_lawful ..) (checkFormat_lawful ..)

theorem checkNumber_lawful (value : Rat) (schema : Json) (path : String) :
    Lawful (checkNumber E value schema path) := by
  unfold checkNumber
  refine .andThen (checkBound_lawful ..) (.andThen (checkBound_lawful ..) ?_)
  refine .andThen (checkBound_lawful ..) (.andThen (checkBound_lawful ..) ?_)
  exact .andThen (checkBound_lawful ..) (checkFormat_lawful ..)

theorem checkContains_lawful (items : List Json) (schema : Json) (path : String) :
    Lawful (checkContains chk items schema path) := by
  unfold checkContains
  split
  · exact .done
  · refine .after fun found _ => .andThen (addIf_lawful ..) ?_
    split
    · exact .done
    · exact addIf_lawful ..

theorem checkUnique_lawful (items : List Json) (schema : Json) (path : String) :
    Lawful (checkUnique items schema path) := by
  unfold checkUnique
  split
  · split
    · exact .done
    · exact .report _
  · exact .done

theorem checkAnyOf_lawful (value schema : Json) (path : String) :
    Lawful (checkAnyOf chk value schema path) := by
  refine .after fun subs _ => ?_
  split
  · exact .done
  · refine .after fun failures _ => ?_
    split
    · exact .done
    · exact .report _

theorem checkOneOf_lawful (value schema : Json) (path : String) :
    Lawful (checkOneOf chk value schema path) := by
  refine .after fun subs _ => ?_
  split
  · exact .done
  · exact .after fun found _ => addIf_lawful ..

theorem checkNot_lawful (value schema : Json) (path : String) : Lawful (checkNot chk value schema path) := by
  unfold checkNot
  split
  · exact .done
  · exact .after fun found _ => addIf_lawful ..

theorem checkEnum_lawful (value schema : Json) (path : String) : Lawful (checkEnum value schema path) := by
  unfold checkEnum
  split
  · exact .done
  · exact addIf_lawful ..
  · exact .throw _

theorem checkConst_lawful (value schema : Json) (path : String) : Lawful (checkConst value schema path) := by
  unfold checkConst
  split
  · exact .done
  · exact addIf_lawful ..

variable (hchk : ∀ value schema path, Lawful (chk value schema path))
include hchk

theorem checkUnder_lawful (key : String) (schema value : Json) (path : String) :
    Lawful (checkUnder chk key schema value path) := by
  unfold checkUnder
  split
  · exact .done
  · exact hchk ..

theorem checkArray_lawful (items : List Json) (schema : Json) (path : String) :
    Lawful (checkArray chk items schema path) := by
  unfold checkArray
  refine .andThen (checkBound_lawful ..) (.andThen (checkBound_lawful ..) ?_)
  refine .andThen (checkUnique_lawful ..) (.after fun front _ => ?_)
  refine .whileRoom (fun _ _ => hchk ..) (.whileRoom (fun _ _ => hchk ..) ?_)
  exact checkContains_lawful ..

theorem checkMatched_lawful (schema : Json) (key : String) (item : Json) (path : String)
    (patterns : List (String × Json)) (matched : Bool) :
    Lawful (checkMatched E chk schema key item path patterns matched) := by
  induction patterns generalizing matched with
  | nil =>
    unfold checkMatched
    split
    · exact .done
    · exact checkUnder_lawful hchk ..
  | cons pattern rest ih =>
    refine .after fun found _ => ?_
    split
    · exact .andThen (hchk ..) (ih true)
    · exact ih matched

theorem checkMember_lawful (schema : Json) (path : String) (member : String × Json) :
    Lawful (checkMember E chk schema path member) := by
  unfold checkMember
  refine .andThen (checkUnder_lawful hchk ..) (.after fun patterns _ => ?_)
  split
  · exact checkMatched_lawful hchk ..
  · exact .andThen (hchk ..) (checkMatched_lawful hchk ..)

theorem checkObject_lawful (members : List (String × Json)) (schema : Json) (path : String) :
    Lawful (checkObject E chk members schema path) := by
  unfold checkObject
  refine .andThen (checkBound_lawful ..) (.andThen (checkBound_lawful ..) (.after fun required _ => ?_))
  exact .whileRoom (fun _ _ => .report _) (.whileRoom (fun _ _ => checkMember_lawful hchk ..) .done)

theorem checkIf_lawful (value schema : Json) (path : String) : Lawful (checkIf chk value schema path) := by
  unfold checkIf
  split
  · exact .done
  · exact .after fun found _ => checkUnder_lawful hchk ..

theorem checkApplicators_lawful (value schema : Json) (path : String) :
    Lawful (checkApplicators chk value schema path) := by
  refine .after fun allOf _ => .whileRoom (fun _ _ => hchk ..) (.andThen (checkAnyOf_lawful ..) ?_)
  exact .andThen (checkOneOf_lawful ..) (.andThen (checkNot_lawful ..) (checkIf_lawful hchk ..))

theorem checkValue_lawful (value schema : Json) (path : String) :
    Lawful (checkValue E chk bundle value schema path) := by
  unfold checkValue
  split
  · exact checkString_lawful ..
  · exact checkNumber_lawful ..
  · exact checkArray_lawful hchk ..
  · exact checkObject_lawful hchk ..
  · exact .done

theorem checkKeywords_lawful (value schema : Json) (path : String) :
    Lawful (checkKeywords E chk bundle value schema path) := by
  unfold checkKeywords
  split
  · exact .done
  refine .after fun types _ => ?_
  split
  · exact .report _
  refine .andThen (checkEnum_lawful ..) (.andThen (checkConst_lawful ..) ?_)
  exact .andThen (checkValue_lawful hchk ..) (checkApplicators_lawful hchk ..)

theorem checkRef_lawful (value schema : Json) (path : String) :
    Lawful (checkRef E chk bundle value schema path) := by
  unfold checkRef
  split
  · exact checkKeywords_lawful hchk ..
  split
  · exact .report _
  refine .andThen (hchk ..) ?_
  split
  · exact .done
  · exact checkKeywords_lawful hchk ..

end

theorem check_lawful (E : Engine) (bundle : Bundle) (levels : Nat) (value schema : Json) (path : String) :
    Lawful (check E bundle levels value schema path) := by
  induction levels generalizing value schema path with
  | zero => exact .unlessFull (.report _)
  | succ levels ih => exact .unlessFull (checkRef_lawful ih ..)

/-! ### Validation -/

structure ValidationResult where
  ok : Bool
  issues : List Issue
  truncated : Bool
  deriving DecidableEq, Repr

/-- `validate`; the error budget is the one field of `Ctx` that a probe changes. -/
def validate (E : Engine) (bundle : Bundle) (maxErrors : ℕ∞) (value schema : Json) :
    Except Thrown ValidationResult := do
  let ctx ← check E bundle (bundle.maxDepth + 1) value schema "" ⟨[], maxErrors, false⟩
  return ⟨ctx.issues.isEmpty, ctx.issues, ctx.truncated⟩

theorem validate_eq_ok {E : Engine} {bundle : Bundle} {maxErrors : ℕ∞} {value schema : Json}
    {r : ValidationResult} : validate E bundle maxErrors value schema = .ok r ↔
      ∃ ctx, check E bundle (bundle.maxDepth + 1) value schema "" ⟨[], maxErrors, false⟩ = .ok ctx ∧
        r = ⟨ctx.issues.isEmpty, ctx.issues, ctx.truncated⟩ := by
  unfold validate
  rw [Guard.bind_eq_ok]
  refine exists_congr fun ctx => and_congr_right fun _ => ?_
  rw [Guard.pure_eq_ok, eq_comm]

theorem budget_cuts (E : Engine) (bundle : Bundle) (value schema : Json) {m n : ℕ∞} (hm : 1 ≤ m)
    (hmn : m ≤ n) :
    (∀ r, validate E bundle n value schema = .ok r → ∃ r', validate E bundle m value schema = .ok r' ∧
      r'.ok = r.ok ∧ r'.issues <+: r.issues) ∧
    ∀ r, validate E bundle m value schema = .ok r → r.truncated = false →
      validate E bundle ⊤ value schema = .ok r := by
  have hlawful := check_lawful E bundle (bundle.maxDepth + 1) value schema ""
  constructor
  · intro r hr
    obtain ⟨ctx, hctx, rfl⟩ := validate_eq_ok.mp hr
    obtain ⟨ctx', hctx', hempty, hbegins⟩ := hlawful.cut hm hmn hctx
    refine ⟨_, validate_eq_ok.mpr ⟨ctx', hctx', rfl⟩, ?_, hbegins⟩
    rw [Bool.eq_iff_iff, List.isEmpty_iff, List.isEmpty_iff]
    exact hempty
  · intro r hr htruncated
    obtain ⟨ctx, hctx, rfl⟩ := validate_eq_ok.mp hr
    exact validate_eq_ok.mpr ⟨_, hlawful.widens hctx htruncated le_top, rfl⟩

def plainEngine : Engine := ⟨fun _ => true, fun _ _ => true, fun _ _ => none⟩

def pairSchema : Json := .obj [("type", .arr [.str "object"]), ("required", .arr [.str "a", .str "b"])]

example : validate plainEngine ⟨∅, 4096, 64⟩ 1 (.obj []) pairSchema =
    .ok ⟨false, [⟨"/a", "required", "required property \"a\" is missing"⟩], true⟩ := by decide +kernel

theorem budget_cuts_pair :
    (∀ r, validate plainEngine ⟨∅, 4096, 64⟩ 2 (.obj []) pairSchema = .ok r →
      ∃ r', validate plainEngine ⟨∅, 4096, 64⟩ 1 (.obj []) pairSchema = .ok r' ∧
        r'.ok = r.ok ∧ r'.issues <+: r.issues) ∧
    ∀ r, validate plainEngine ⟨∅, 4096, 64⟩ 1 (.obj []) pairSchema = .ok r → r.truncated = false →
      validate plainEngine ⟨∅, 4096, 64⟩ ⊤ (.obj []) pairSchema = .ok r :=
  budget_cuts _ _ _ _ (le_refl 1) (by decide)

end Apim.JsonSchema
