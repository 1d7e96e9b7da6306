import Apim.Lib.Guard
import Apim.Shared.ApiModel
import Apim.Shared.Policy

/-!
# Definitions into the model

`normalizeSpec` (`control-plane/src/normalize.ts:28-324`): a Swagger 2.0 or OpenAPI 3.x document, parsed
as JSON, into the model. One pass refuses a `$ref` that leaves the document or points at nothing; the
other one walks the paths and takes what has the shape it looks for.
-/

namespace Apim.Normalize
open JsonSchema Guard

abbrev Members := List (String × Json)

structure Runtime where
  localeCompare : String → String → Ordering
  arrayIndex : String → Option Nat

def METHODS : List String := ["get", "put", "post", "delete", "options", "head", "patch", "trace"]

def asRecord : Json → Members
  | .obj members => members
  | _ => []

def recordAt (members : Members) (name : String) : Members :=
  ((members.lookup name).map asRecord).getD []

def stringAt (members : Members) (name : String) : Option String :=
  (members.lookup name).bind Json.asString?

def arrayAt (members : Members) (name : String) : List Json :=
  match members.lookup name with
  | some (.arr items) => items
  | _ => []

def stringArray (members : Members) (name : String) : List String :=
  ((members.lookup name).map Json.strings).getD []

def trueAt (members : Members) (name : String) : Bool := members.lookup name == some (.bool true)

/-! ### References -/

section
variable (R : Runtime)

def stepInto (current : Json) (part : String) : Option Json :=
  match current with
  | .arr items => (R.arrayIndex part).bind fun index => items[index]?
  | .obj members => members.lookup part
  | _ => none

def resolveJsonPointer (root : Json) (pointer : String) : Option Json :=
  (pointerParts pointer).foldlM (stepInto R) root

def checkRef (root : Json) (path : String) (value : Json) : Except String Unit :=
  match value with
  | .str target =>
    if !"#/".toList.isPrefixOf target.toList then
      .error (s!"{path}.$ref points outside the document (\"{target}\"); uploaded specs must be " ++
        "self-contained (design section 5.3)")
    else
      match resolveJsonPointer R root target with
      | none =>
        .error (s!"{path}.$ref is broken: \"{target}\" does not resolve anywhere in this " ++
          "document. A reference that points at nothing cannot be compiled into a validator, so " ++
          "the operations that use it would publish unvalidated. Add the missing definition, or " ++
          "remove the reference.")
      | some _ => .ok ()
  | _ => .ok ()

mutual
def assertSelfContained (root : Json) (path : String) : Json → Except String Unit
  | .arr items => assertItems root path 0 items
  | .obj members => assertMembers root path members
  | _ => .ok ()

def assertItems (root : Json) (path : String) (index : Nat) : List Json → Except String Unit
  | [] => .ok ()
  | item :: items => do
    assertSelfContained root s!"{path}[{index}]" item
    assertItems root path (index + 1) items

def assertMembers (root : Json) (path : String) : List (String × Json) → Except String Unit
  | [] => .ok ()
  | (key, value) :: members => do
    if key = "$ref" then checkRef R root path value
    assertSelfContained root s!"{path}.{key}" value
    assertMembers root path members
end

end

/-! ### What an operation declares -/

def SCHEMA_KEYS : List String :=
  ["type", "format", "items", "enum", "minimum", "maximum", "minLength", "maxLength", "pattern",
    "multipleOf", "maxItems", "minItems", "uniqueItems", "exclusiveMinimum", "exclusiveMaximum"]

def inlineV2Schema (p : Members) : Option Json :=
  let schema := SCHEMA_KEYS.filterMap fun key => (p.lookup key).map fun value => (key, value)
  if schema = [] then none else some (.obj schema)

def parameterOf (isV2 : Bool) (raw : Json) : Option ApiParameter :=
  let p := asRecord raw
  (stringAt p "name").map fun name =>
    let place := (stringAt p "in").getD "query"
    { name := name
      place := place
      required := trueAt p "required" || place == "path"
      schema := if isV2 && place != "body" then inlineV2Schema p else p.lookup "schema" }

def contentV3 (content : Members) : Members :=
  content.filterMap fun (mediaType, entry) =>
    ((asRecord entry).lookup "schema").map fun schema => (mediaType, schema)

def requestBodyV3 (op : Members) : Option ApiRequestBody :=
  let body := recordAt op "requestBody"
  if body = [] then none
  else some ⟨trueAt body "required", contentV3 (recordAt body "content")⟩

def contentV2 (schema : Option Json) (types : List String) : Members :=
  match schema with
  | none => []
  | some schema =>
    (if types = [] then ["application/json"] else types).foldl
      (fun content type => setMember content type schema) []

def requestBodyV2 (parameters : List Json) (consumes : List String) : Option ApiRequestBody :=
  ((parameters.map asRecord).find? fun p => p.lookup "in" == some (.str "body")).map fun body =>
    ⟨trueAt body "required", contentV2 (body.lookup "schema") consumes⟩

def responseHeader (isV2 : Bool) (name : String) (raw : Json) : ApiParameter :=
  let header := asRecord raw
  { name := name
    place := "header"
    required := trueAt header "required"
    schema := if isV2 then inlineV2Schema header else header.lookup "schema" }

def responseOf (isV2 : Bool) (produces : List String) (raw : Json) : ApiResponse :=
  let entry := asRecord raw
  let content :=
    if isV2 then contentV2 (entry.lookup "schema") produces
    else contentV3 (recordAt entry "content")
  let headers := (recordAt entry "headers").map fun (name, raw) => responseHeader isV2 name raw
  { description := stringAt entry "description"
    content := if content = [] then none else some content
    headers := if headers = [] then none else some headers }

/-- `responsesOf`: the responses that say anything. An empty description says nothing. -/
def responsesOf (isV2 : Bool) (produces : List String) (op : Members) :
    Option (List (String × ApiResponse)) :=
  let responses := ((recordAt op "responses").map fun (status, raw) =>
    (status, responseOf isV2 produces raw)).filter fun (_, response) =>
      response.content.isSome || response.headers.isSome ||
        response.description.any (· != "")
  if responses = [] then none else some responses

def operationIdOf (op : Members) (method pathTemplate : String) : String :=
  match (stringAt op "operationId").filter (· ≠ "") with
  | some id => id
  | none => method ++ String.ofList (underscored pathTemplate.toList)

def parametersOf (isV2 : Bool) (raw : List Json) : List ApiParameter :=
  raw.filterMap (parameterOf isV2)

def bodyParameter (op : Members) : List ApiParameter :=
  match op.lookup "requestBody" with
  | none => []
  | some body =>
    if Policy.truthy body then [⟨"body", "body", trueAt (asRecord body) "required", none⟩] else []

def operationOf (doc : Members) (isV2 : Bool) (pathTemplate : String) (item : Members)
    (method : String) (op : Members) : ApiOperation :=
  let sharedRaw := arrayAt item "parameters"
  let ownRaw := arrayAt op "parameters"
  let consumes := stringArray op "consumes" ++ stringArray doc "consumes"
  let produces := stringArray op "produces" ++ stringArray doc "produces"
  { operationId := operationIdOf op method pathTemplate
    method := method.toUpper
    path := pathTemplate
    summary := stringAt op "summary"
    parameters := parametersOf isV2 sharedRaw ++ parametersOf isV2 ownRaw ++
      (if isV2 then [] else bodyParameter op)
    requestBody :=
      if isV2 then requestBodyV2 (sharedRaw ++ ownRaw) consumes else requestBodyV3 op
    responses := responsesOf isV2 produces op }

def operationRecord : Json → Option Members
  | .obj members => some members
  | .arr _ => some []
  | _ => none

structure DeclaredOperation where
  path : String
  item : Members
  method : String
  op : Members

def declaredOperations (doc : Members) : List DeclaredOperation :=
  (recordAt doc "paths").flatMap fun (path, rawItem) =>
    METHODS.filterMap fun method =>
      (((asRecord rawItem).lookup method).bind operationRecord).map fun op =>
        ⟨path, asRecord rawItem, method, op⟩

def operationOrder (R : Runtime) (a b : ApiOperation) : Bool :=
  ((R.localeCompare a.path b.path).then (R.localeCompare a.method b.method)).isLE

def operationsFrom (R : Runtime) (doc : Members) (isV2 : Bool) : List ApiOperation :=
  ((declaredOperations doc).map fun d => operationOf doc isV2 d.path d.item d.method d.op).mergeSort
    (operationOrder R)

/-! ### The document -/

def trimSlashes (path : String) : String :=
  String.ofList (path.toList.reverse.dropWhile (· == '/')).reverse

def serversV2 (doc : Members) : List String :=
  let host := (stringAt doc "host").getD ""
  let basePath := ((stringAt doc "basePath").map trimSlashes).getD ""
  let schemes :=
    match doc.lookup "schemes" with
    | some (.arr items) => items.filterMap Json.asString?
    | _ => ["https"]
  if host = "" then if basePath = "" then [] else [basePath]
  else
    let ordered :=
      if schemes.contains "https" then "https" :: schemes.filter (· ≠ "https") else schemes
    ordered.map fun scheme => s!"{scheme}://{host}{basePath}"

def serversV3 (doc : Members) : List String :=
  (arrayAt doc "servers").filterMap fun entry =>
    (stringAt (asRecord entry) "url").filter (· ≠ "")

inductive OriginalFormat where
  | swagger20
  | openapi30
  | openapi31
  | wsdl
  | mcpManifest
  | a2aAgentCard
  deriving DecidableEq, Repr

def textFrom (doc : Members) (name front : String) : Bool :=
  (stringAt doc name).any fun text => front.toList.isPrefixOf text.toList

def formatOf (doc : Members) : Except String (OriginalFormat × Dialect) :=
  if textFrom doc "swagger" "2." then .ok (.swagger20, .swagger20)
  else if textFrom doc "openapi" "3.1" then .ok (.openapi31, .draft2020)
  else if textFrom doc "openapi" "3." then .ok (.openapi30, .oas30)
  else
    .error ("not an OpenAPI document: expected a \"swagger\": \"2.0\" or \"openapi\": \"3.x\" " ++
      "field at the top level")

def componentsOf (doc : Members) (isV2 : Bool) : Option Json :=
  let key := if isV2 then "definitions" else "components"
  ((doc.lookup key).filter Policy.truthy).map fun value => .obj [(key, value)]

structure NormalizeResult where
  model : ApiModel
  format : OriginalFormat

def normalizeSpec (R : Runtime) (doc : Members) : Except String NormalizeResult := do
  assertSelfContained R (.obj doc) "$" (.obj doc)
  let info := recordAt doc "info"
  let (format, dialect) ← formatOf doc
  let isV2 := decide (format = .swagger20)
  let operations := operationsFrom R doc isV2
  ensure (operations ≠ []) "the document declares no operations"
  return ⟨{
    title := (stringAt info "title").getD "untitled"
    version := (stringAt info "version").getD "1.0.0"
    description := stringAt info "description"
    servers := if isV2 then serversV2 doc else serversV3 doc
    operations := operations
    components := componentsOf doc isV2
    schemaDialect := some dialect }, format⟩

theorem normalizeSpec_ok {R : Runtime} {doc : Members} {result : NormalizeResult}
    (h : normalizeSpec R doc = .ok result) :
    result.model.soap = none ∧ result.model.operations.Perm ((declaredOperations doc).map fun d =>
      operationOf doc (decide (result.format = .swagger20)) d.path d.item d.method d.op) := by
  simp only [normalizeSpec, bind_eq_ok, ensure_eq_ok, pure_eq_ok] at h
  obtain ⟨-, -, ⟨format, dialect⟩, -, -, -, rfl⟩ := h
  exact ⟨rfl, List.mergeSort_perm _ _⟩

theorem normalizeSpec_isOk {R : Runtime} {doc : Members} {format : OriginalFormat × Dialect}
    (hrefs : assertSelfContained R (.obj doc) "$" (.obj doc) = .ok ())
    (hformat : formatOf doc = .ok format) (hoperations : declaredOperations doc ≠ []) :
    ∃ result, normalizeSpec R doc = .ok result := by
  have hsome : operationsFrom R doc (decide (format.1 = .swagger20)) ≠ [] := by
    intro hnil
    have hlength := congrArg List.length hnil
    rw [operationsFrom, List.length_mergeSort, List.length_map] at hlength
    exact hoperations (List.length_eq_zero_iff.mp hlength)
  refine ⟨_, bind_eq_ok.mpr ⟨(), hrefs, bind_eq_ok.mpr ⟨format, hformat, bind_eq_ok.mpr ⟨(), ?_, rfl⟩⟩⟩⟩
  exact ensure_eq_ok.mpr (decide_eq_true hsome)

end Apim.Normalize
