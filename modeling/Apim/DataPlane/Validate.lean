import Apim.DataPlane.Route

/-!
# Requests against a compiled contract

The artifacts of a revision and the checks a request is put to (`data-plane/src/validate.ts:22-200`).
What a schema says of a value is a parameter; which schema is asked, and whether one is asked at all,
is not.
-/

namespace Apim.DataPlane

open Apim.Overlay

structure ValidationIssue where
  path : String
  rule : String
  message : String
  deriving DecidableEq, Repr

structure ValidationOutcome where
  ok : Bool
  issues : List ValidationIssue
  truncated : Bool
  skipped : Bool := false
  deriving DecidableEq, Repr

def OK : ValidationOutcome := ⟨true, [], false, false⟩
def SKIPPED : ValidationOutcome := { OK with skipped := true }

/-! ### Artifacts -/

inductive ParameterLocation where
  | path
  | query
  | header
  | cookie
  deriving DecidableEq, Repr

structure CompiledParameter where
  name : String
  location : ParameterLocation
  required : Bool
  ref : Option String
  deriving DecidableEq, Repr

structure RequestBody where
  required : Bool
  content : List (String × String)
  deriving DecidableEq, Repr

structure OperationSchemas where
  state : SchemaState
  parameters : List CompiledParameter
  request : Option RequestBody
  inputElement : Option String
  deriving DecidableEq, Repr

inductive ArtifactKind where
  | jsonSchema
  | xsdSet
  deriving DecidableEq, Repr

structure ValidationArtifact where
  kind : ArtifactKind
  defs : Dict String Json
  xsd : Option Json
  operations : Dict String OperationSchemas

structure JsonLimits where
  maxDepth : Nat
  maxArrayLength : Nat
  maxObjectKeys : Nat
  duplicateKeys : DuplicateKeys
  deriving DecidableEq, Repr

def jsonLimitsOf (validate : ValidateUnit) : JsonLimits where
  maxDepth := (validate.always.bind (·.maxDepth)).getD 32
  maxArrayLength := (validate.always.bind (·.maxArrayLength)).getD 10000
  maxObjectKeys := 5000
  duplicateKeys := (validate.always.bind (·.duplicateKeys)).getD .reject

structure SchemaResult where
  ok : Bool
  issues : List ValidationIssue
  truncated : Bool
  deriving DecidableEq, Repr

def SchemaResult.outcome (result : SchemaResult) : ValidationOutcome :=
  ⟨result.ok, result.issues, result.truncated, false⟩

structure Validators where
  readJson : JsonLimits → Bytes → Except ValidationIssue Json
  /-- `validate` of a value with a schema over its definitions, up to a number of errors. -/
  validateJson : Json → Json → Dict String Json → Nat → SchemaResult
  coerceParameter : String → Json → Json
  soapBodyChild : Bytes → Option String
  /-- `validateXmlDocument` of an element with the schema set and a ceiling of elements. -/
  validateXml : String → Json → Option Nat → SchemaResult

/-! ### The schema of a body -/

/-- What a lookup in the declared map answers. The map is a plain object: the two names every object
answers to by itself give something that is no key of `defs`. -/
inductive ContentRef where
  | declared (ref : String)
  | inherited
  deriving DecidableEq, Repr

def INHERITED : List String := ["constructor", "__proto__"]

def contentAt (content : List (String × String)) (media : String) : Option ContentRef :=
  match content.lookup media with
  | some ref => some (.declared ref)
  | none => if INHERITED.contains media then some .inherited else none

def mediaRange (media declared : String) : Bool :=
  declared = "*/*" ||
    (endsWith declared "/*" && startsWith media (String.ofList declared.toList.dropLast)) ||
    (startsWith declared "application/" && endsWith declared "+json" && endsWith media "+json")

/-- `contentRefFor` (`data-plane/src/validate.ts:87-106`). -/
def contentRefFor (content : Option (List (String × String))) (contentType : Option String) :
    Option ContentRef :=
  match content with
  | none => none
  | some content =>
    let media := mediaTypeOf contentType
    let exact := if media = "" then none else contentAt content media
    match exact with
    | some ref => some ref
    | none =>
      match content.find? fun entry => mediaRange media entry.1 with
      | some (_, ref) => some (.declared ref)
      | none =>
        match content with
        | [(_, ref)] => if media = "" then some (.declared ref) else none
        | _ => none

def schemaAt (defs : Dict String Json) : ContentRef → Option Json
  | .declared ref => defs.lookup ref
  | .inherited => none

theorem mem_of_contentRefFor {content : List (String × String)} {contentType : Option String}
    {ref : String} (h : contentRefFor (some content) contentType = some (.declared ref)) :
    ∃ media, (media, ref) ∈ content := by
  have hlookup : ∀ media, contentAt content media = some (.declared ref) →
      ∃ media, (media, ref) ∈ content := by
    intro media hat
    unfold contentAt at hat
    split at hat
    · rename_i found hfound
      cases hat
      obtain ⟨before, after, hcontent, _⟩ := List.lookup_eq_some_iff.mp hfound
      exact ⟨media, hcontent ▸ List.mem_append_right _ List.mem_cons_self⟩
    · split at hat <;> cases hat
  unfold contentRefFor at h
  dsimp only at h
  split at h
  · rename_i found hexact
    cases h
    split at hexact
    · cases hexact
    · exact hlookup _ hexact
  · split at h
    · rename_i media found hfind
      cases h
      exact ⟨media, List.mem_of_find?_eq_some hfind⟩
    · split at h
      · split at h
        · cases h
          exact ⟨_, List.mem_cons_self⟩
        · cases h
      · cases h

/-! ### Bodies and parameters -/

section
variable (V : Validators)

/-- `validateBody` of a request (`data-plane/src/validate.ts:123-149`) with a JSON artifact. -/
def validateJsonBody (artifact : ValidationArtifact) (operationId : String)
    (contentType : Option String) (json : Json) : ValidationOutcome :=
  match artifact.operations.lookup operationId with
  | none => SKIPPED
  | some op =>
    if op.state = .ok then
      match contentRefFor (op.request.map (·.content)) contentType with
      | none => SKIPPED
      | some ref =>
        match schemaAt artifact.defs ref with
        | none => SKIPPED
        | some schema => (V.validateJson json schema artifact.defs 20).outcome
    else SKIPPED

def validateXmlBody (artifact : ValidationArtifact) (operationId : String) (xml : String)
    (maxElements : Option Nat) : ValidationOutcome :=
  match artifact.operations.lookup operationId with
  | none => SKIPPED
  | some op =>
    if op.state = .ok then
      match op.inputElement.filter (· ≠ ""), artifact.xsd with
      | some _, some xsd =>
        if xml = "" then SKIPPED else (V.validateXml xml xsd maxElements).outcome
      | _, _ => SKIPPED
    else SKIPPED

/-- `validateRequestBody` (`data-plane/src/pipeline.ts:2203-2241`). -/
def validateRequestBody (operationId : String) (artifact : ValidationArtifact) (body : Bytes)
    (contentType : Option String) (validate : ValidateUnit) : ValidationOutcome :=
  match artifact.kind with
  | .xsdSet =>
    match (V.soapBodyChild body).filter (· ≠ "") with
    | none => SKIPPED
    | some child =>
      validateXmlBody V artifact operationId child (validate.always.bind (·.xmlMaxElements))
  | .jsonSchema =>
    match V.readJson (jsonLimitsOf validate) body with
    | .error issue => ⟨false, [issue], false, false⟩
    | .ok json => validateJsonBody V artifact operationId contentType json

def rawParameter (pathParams : Dict String String) (query : Query) (headers : Headers)
    (parameter : CompiledParameter) : Option (Option String) :=
  match parameter.location with
  | .path => some (pathParams.lookup parameter.name)
  | .query => some (query.get parameter.name)
  | .header => some (headers.get parameter.name)
  | .cookie => none

def ParameterLocation.text : ParameterLocation → String
  | .path => "path"
  | .query => "query"
  | .header => "header"
  | .cookie => "cookie"

def checkParameter (defs : Dict String Json) (pathParams : Dict String String) (query : Query)
    (headers : Headers) (issues : List ValidationIssue) (parameter : CompiledParameter) :
    List ValidationIssue :=
  let place := parameter.location.text ++ "/" ++ parameter.name
  if 20 ≤ issues.length then issues
  else
    match rawParameter pathParams query headers parameter with
    | none => issues
    | some none =>
      if parameter.required then
        issues ++ [⟨place, "required",
          s!"required {parameter.location.text} parameter \"{parameter.name}\" is missing"⟩]
      else issues
    | some (some raw) =>
      match parameter.ref.bind defs.lookup with
      | none => issues
      | some schema =>
        let result := V.validateJson (V.coerceParameter raw schema) schema defs (20 - issues.length)
        issues ++ result.issues.map fun issue =>
          { issue with path := if issue.path = "/" then place else place ++ issue.path }

/-- `validateParameters` (`data-plane/src/validate.ts:165-211`). -/
def validateParameters (artifact : ValidationArtifact) (operationId : String)
    (pathParams : Dict String String) (query : Query) (headers : Headers) : ValidationOutcome :=
  match artifact.operations.lookup operationId with
  | none => OK
  | some op =>
    if op.parameters = [] then OK
    else
      let issues := op.parameters.foldl
        (checkParameter V artifact.defs pathParams query headers) []
      ⟨issues.isEmpty, issues, 20 ≤ issues.length, false⟩

end

/-- `validationDetail` (`data-plane/src/pipeline.ts:2193-2201`). -/
def validationDetail (outcome : ValidationOutcome) : String :=
  match outcome.issues with
  | [] => "the request does not match this API's contract"
  | first :: more =>
    first.path ++ ": " ++ first.message ++
      (if more = [] then "" else s!" (and {more.length} more)") ++
      (if outcome.truncated then "; more errors were not collected" else "")

end Apim.DataPlane
