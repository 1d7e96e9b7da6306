import Apim.Lib.Overlay
import Apim.Shared.Json

/-!
# Compiling JSON schemas

`SchemaCompiler` (`shared/jsonschema.ts:116-345`): the schemas of a document are compiled one after
another into one flat table of definitions. A schema in place is put under a name of its own, and a
component under the letters and digits of its pointer, before its body is compiled, so that a
component that refers to itself ends.

A throw ends the compilation of one schema and leaves the table as it is. The call stack is a number
of nested calls.
-/

namespace Apim.JsonSchema
open Overlay

def ASSERTIONS : List String :=
  ["type", "enum", "const", "properties", "patternProperties", "additionalProperties",
    "propertyNames", "required", "minProperties", "maxProperties", "items", "prefixItems", "minItems",
    "maxItems", "uniqueItems", "contains", "minContains", "maxContains", "minimum", "maximum",
    "exclusiveMinimum", "exclusiveMaximum", "multipleOf", "minLength", "maxLength", "pattern", "allOf",
    "anyOf", "oneOf", "not", "if", "then", "else", "format", "$ref"]

def REFUSED : List (String × String) :=
  [("$dynamicRef", "dynamic references need a runtime scope this validator does not model"),
    ("$dynamicAnchor", "dynamic anchors need a runtime scope this validator does not model"),
    ("unevaluatedProperties", "unevaluated* needs annotation collection across applicators"),
    ("unevaluatedItems", "unevaluated* needs annotation collection across applicators"),
    ("$vocabulary", "custom vocabularies are not supported"),
    ("dependentSchemas", "dependent schemas are not implemented"),
    ("dependentRequired", "dependent required is not implemented"),
    ("contentSchema", "content schemas would require decoding the encoded payload")]

def ANNOTATIONS : List String :=
  ["title", "description", "default", "example", "examples", "deprecated", "readOnly", "writeOnly",
    "xml", "externalDocs", "discriminator", "$comment", "$id", "$schema", "$anchor", "$defs",
    "definitions", "components", "contentEncoding", "contentMediaType", "nullable",
    "collectionFormat"]

def SIMPLE_TYPES : List String :=
  ["null", "boolean", "object", "array", "number", "string", "integer"]

inductive Dialect where
  | draft2020
  | oas30
  | swagger20
  deriving DecidableEq, Repr

inductive CompileError where
  | unsupported (keyword place reason : String)
  | stack
  deriving DecidableEq, Repr

def CompileError.message : CompileError → String
  | .unsupported keyword place reason => s!"{place}: \"{keyword}\" is not supported — {reason}"
  | .stack => "Maximum call stack size exceeded"

structure CompileOptions where
  dialect : Dialect
  components : Json
  maxDepth : Nat
  /-- `lintPattern` (`shared/policy.ts:697-725`): what is wrong with a pattern at a place. -/
  lintPattern : String → String → List String
  text : Json → String

structure SchemaCompiler where
  defs : Dict String Json
  counter : Nat
  byComponent : Dict String String

abbrev CompileM := ExceptT CompileError (StateM SchemaCompiler)

/-! ### Pointers -/

def isAlphanumeric (c : Char) : Bool := c.isAlpha || c.isDigit

def underscored : List Char → List Char
  | [] => []
  | c :: rest =>
    if isAlphanumeric c then c :: underscored rest
    else
      match rest with
      | [] => ['_']
      | next :: _ => if isAlphanumeric next then '_' :: underscored rest else underscored rest

example : String.ofList (underscored "#/components/schemas/Pet".toList) = "_components_schemas_Pet" := by
  decide +kernel

def unescapeSlash : List Char → List Char
  | '~' :: '1' :: rest => '/' :: unescapeSlash rest
  | c :: rest => c :: unescapeSlash rest
  | [] => []

def unescapeTilde : List Char → List Char
  | '~' :: '0' :: rest => '~' :: unescapeTilde rest
  | c :: rest => c :: unescapeTilde rest
  | [] => []

def splitSlash : List Char → List (List Char)
  | [] => [[]]
  | c :: rest =>
    if c = '/' then [] :: splitSlash rest
    else
      match splitSlash rest with
      | [] => [[c]]
      | part :: parts => (c :: part) :: parts

def pointerParts (pointer : String) : List String :=
  (splitSlash (pointer.toList.drop 2)).map fun part =>
    String.ofList (unescapeTilde (unescapeSlash part))

/-- `resolvePointer` (`shared/jsonschema.ts:335-344`). -/
def resolvePointer (root : Json) (pointer : String) : Option Json :=
  (pointerParts pointer).foldlM (fun current part => current.member? part) root

def componentName (pointer : String) : String := String.ofList (underscored pointer.toList)

/-! ### Schemas -/

def setMember (out : List (String × Json)) (key : String) (value : Json) : List (String × Json) :=
  if out.any (·.1 == key) then out.map fun member => if member.1 == key then (key, value) else member
  else out ++ [(key, value)]

def dropMember (out : List (String × Json)) (key : String) : List (String × Json) :=
  out.filter (·.1 != key)

section
variable (options : CompileOptions) (compile : Json → String → Nat → CompileM Json)

/-- `componentDef` (`shared/jsonschema.ts:140-171`). -/
def componentDef (pointer place : String) : CompileM String := do
  match (← get).byComponent.lookup pointer with
  | some existing => return existing
  | none =>
    let name := componentName pointer
    match resolvePointer options.components pointer with
    | none =>
      throw (.unsupported "$ref" place s!"\"{pointer}\" does not resolve inside the document")
    | some target =>
      -- defined before its body is compiled, so that a component may refer to itself
      modify fun c => { c with
        byComponent := c.byComponent.insert pointer name, defs := c.defs.insert name (.obj []) }
      tryCatch
        (do
          let node ← compile target pointer 0
          modify fun c => { c with defs := c.defs.insert name node }
          return name)
        (fun error => do
          modify fun c => { c with
            byComponent := c.byComponent.erase pointer, defs := c.defs.erase name }
          throw error)

def compileItems (place : String) (depth : Nat) (items : List Json) : CompileM Json := do
  let nodes ← items.zipIdx.mapM fun (sub, index) => compile sub s!"{place}[{index}]" (depth + 1)
  return .arr nodes

def lint (keyword pattern place patternPlace : String) : CompileM Unit :=
  match options.lintPattern pattern patternPlace with
  | [] => pure ()
  | errors => throw (.unsupported keyword place ("; ".intercalate errors))

def compileType (place : String) (value : Json) : CompileM (List Json) := do
  let types := match value with
    | .arr items => items
    | value => [value]
  types.filterM fun t =>
    match t with
    | .str name =>
      if SIMPLE_TYPES.contains name then pure true
      else if name = "file" then pure false
      else throw (.unsupported "type" place s!"\"{name}\" is not a JSON type")
    | t => throw (.unsupported "type" place s!"\"{options.text t}\" is not a JSON type")

/-- One turn of the loop over the members of a schema (`shared/jsonschema.ts:200-303`). -/
def compileKeyword (place : String) (depth : Nat) (out : List (String × Json))
    (member : String × Json) : CompileM (List (String × Json)) := do
  let (keyword, value) := member
  if keyword = "$ref" ∨ ANNOTATIONS.contains keyword ∨ "x-".isPrefixOf keyword then return out
  match REFUSED.lookup keyword with
  | some reason => throw (.unsupported keyword place reason)
  | none =>
    if ¬ ASSERTIONS.contains keyword then return out
    if keyword = "type" then
      let kept ← compileType options place value
      return if kept = [] then out else setMember out "type" (.arr kept)
    else if keyword = "properties" ∨ keyword = "patternProperties" then
      match value with
      | .obj members =>
        let nodes ← members.mapM fun (key, sub) => do
          if keyword = "patternProperties" then
            lint options keyword key place s!"{place}.patternProperties"
          let node ← compile sub s!"{place}.{keyword}.{key}" (depth + 1)
          return (key, node)
        return setMember out keyword (.obj nodes)
      | _ => throw (.unsupported keyword place "expected an object")
    else if ["additionalProperties", "propertyNames", "not", "if", "then", "else",
        "contains"].contains keyword then
      let node ← compile value s!"{place}.{keyword}" (depth + 1)
      return setMember out keyword node
    else if keyword = "items" then
      match value with
      | .arr items =>
        let nodes ← compileItems compile s!"{place}.items" depth items
        return setMember out "prefixItems" nodes
      | value =>
        let node ← compile value s!"{place}.items" (depth + 1)
        return setMember out "items" node
    else if ["prefixItems", "allOf", "anyOf", "oneOf"].contains keyword then
      match value with
      | .arr items =>
        let nodes ← compileItems compile s!"{place}.{keyword}" depth items
        return setMember out keyword nodes
      | _ => throw (.unsupported keyword place "expected an array")
    else if keyword = "pattern" then
      match value with
      | .str pattern =>
        lint options keyword pattern place s!"{place}.pattern"
        return setMember out "pattern" value
      | _ => throw (.unsupported keyword place "expected a string")
    else if keyword = "required" then
      match value with
      | .arr items =>
        return setMember out "required" (.arr (items.filter fun item => item.asString?.isSome))
      | _ => throw (.unsupported keyword place "expected an array")
    else if keyword = "enum" then
      match value with
      | .arr _ => return setMember out "enum" value
      | _ => throw (.unsupported keyword place "expected an array")
    else return setMember out keyword value

/-- A boolean bound beside the limit it makes exclusive (`shared/jsonschema.ts:312-326`). -/
def exclusiveBound (exclusive limit : String) (out : List (String × Json)) : List (String × Json) :=
  match out.lookup exclusive with
  | some (.bool true) =>
    match out.lookup limit with
    | some bound => dropMember (setMember out exclusive bound) limit
    | none => dropMember out exclusive
  | some (.bool false) => dropMember out exclusive
  | _ => out

/-- The dialect is resolved once (`shared/jsonschema.ts:305-327`). -/
def resolveDialect (input out : List (String × Json)) : List (String × Json) :=
  if options.dialect = .draft2020 then out
  else
    let out := match input.lookup "nullable", out.lookup "type" with
      | some (.bool true), some (.arr types) =>
        if types.contains (.str "null") then out
        else setMember out "type" (.arr (types ++ [.str "null"]))
      | some (.bool true), _ => setMember out "nullableAny" (.bool true)
      | _, _ => out
    exclusiveBound "exclusiveMaximum" "maximum" (exclusiveBound "exclusiveMinimum" "minimum" out)

def compileRef (members : List (String × Json)) (place : String) :
    CompileM (List (String × Json)) :=
  match members.lookup "$ref" with
  | some (.str ref) => do
    if ¬ "#/".isPrefixOf ref then
      throw (.unsupported "$ref" place s!"\"{ref}\" points outside the document")
    let name ← componentDef options compile ref place
    return [("$ref", .str name)]
  | _ => return []

end

/-- `compile` (`shared/jsonschema.ts:173-330`). -/
def compile (options : CompileOptions) : Nat → Json → String → Nat → CompileM Json
  | 0, _, _, _ => throw .stack
  | calls + 1, raw, place, depth => do
    if options.maxDepth < depth then
      throw (.unsupported "$ref" place s!"nested deeper than {options.maxDepth} schemas")
    match raw with
    | .bool true => return .obj []
    | .bool false => return .obj [("not", .obj [])]
    | .obj members =>
      let ref ← compileRef options (compile options calls) members place
      let siblings := members.filter fun member =>
        member.1 != "$ref" && !ANNOTATIONS.contains member.1
      if ref ≠ [] ∧ siblings = [] then return .obj ref
      let out ← members.foldlM (compileKeyword options (compile options calls) place depth) ref
      return .obj (resolveDialect options members out)
    | _ => throw (.unsupported "schema" place "expected an object or a boolean")

/-- `hoist` (`shared/jsonschema.ts:133-138`): the schema is defined under a name of its own. -/
def hoist (options : CompileOptions) (calls : Nat) (schema : Json) (place : String) :
    CompileM String := do
  let node ← compile options calls schema place 0
  let name := "s" ++ toString ((← get).counter + 1)
  modify fun c => { c with counter := c.counter + 1, defs := c.defs.insert name node }
  return name

end Apim.JsonSchema
