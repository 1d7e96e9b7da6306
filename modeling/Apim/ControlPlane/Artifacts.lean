import Apim.DataPlane.Validate
import Apim.Lib.Guard
import Apim.Shared.ApiModel

/-!
# Compiled contracts

What a revision needs before it can be served (`control-plane/src/artifacts.ts`): a bundle of compiled
schemas, and the index of its operations. An operation whose schemas cannot be compiled is in the
bundle as one that is not validated; what is thrown for another reason ends the compilation.
-/

namespace Apim.ControlPlane
open Overlay JsonSchema DataPlane Guard

def MAX_OPERATIONS_PER_ROUTE : Nat := 1000

/-! ### Bundles -/

structure CompiledResponse where
  content : List (String × String)
  headers : List CompiledParameter
  deriving DecidableEq

/-- `OperationSchemas` (`shared/artifact.ts:40-52`). -/
structure CompiledOperation where
  state : SchemaState
  reason : Option String := none
  parameters : List CompiledParameter := []
  request : Option RequestBody := none
  responses : List (String × CompiledResponse) := []
  inputElement : Option String := none
  outputElement : Option String := none
  deriving DecidableEq

/-- `ValidationArtifact` (`shared/artifact.ts:54-61`). -/
structure Bundle where
  kind : ArtifactKind
  defs : Dict String Json
  xsd : Option Json
  operations : Dict String CompiledOperation

def CompiledOperation.schemas (op : CompiledOperation) : OperationSchemas :=
  ⟨op.state, op.parameters, op.request, op.inputElement⟩

def Bundle.artifact (bundle : Bundle) : ValidationArtifact :=
  ⟨bundle.kind, bundle.defs, bundle.xsd, mapValues CompiledOperation.schemas bundle.operations⟩

structure Toolkit where
  lintPattern : String → String → List String
  text : Json → String
  canonicalJson : Bundle → String
  sha256Hex : String → String
  calls : Nat

structure CompileResult where
  bundle : Option Bundle
  notes : List String

/-! ### A schema set -/

/-- The entry of one operation of a WSDL (`control-plane/src/artifacts.ts:82-106`). -/
def compileXsdOperation (schema : Option Json) (op : ApiOperation) :
    CompiledOperation × List String :=
  match schema with
  | none =>
    ({ state := .noSchema
       reason := some
        "the WSDL declares no inline schema, so there is nothing to validate against" }, [])
  | some schema =>
    match op.inputElement.filter fun input => input ≠ "" && declaresElement schema input with
    | none =>
      ({ state := .noSchema
         reason := some ("the schema declares no global element " ++
          op.inputElement.getD "(none)" ++ " for this operation") },
        [s!"{op.operationId}: its body element is not declared by the inline schema"])
    | some input =>
      ({ state := .ok
         inputElement := some input
         outputElement := op.outputElement.filter fun output =>
          output ≠ "" && declaresElement schema output }, [])

/-- `compileXsdArtifact` (`control-plane/src/artifacts.ts:77-112`). -/
def compileXsdArtifact (model : ApiModel) : CompileResult :=
  let schema := model.soap.bind (·.schema)
  let operations := model.operations.foldl (fun (operations : Dict String CompiledOperation) op =>
    operations.insert op.operationId (compileXsdOperation schema op).1) ∅
  match schema with
  | none => ⟨none, ["the WSDL declares no inline schema"]⟩
  | some schema =>
    ⟨some ⟨.xsdSet, ∅, some schema, operations⟩,
      model.operations.flatMap fun op => (compileXsdOperation (some schema) op).2⟩

/-! ### JSON schemas -/

def locationOf (place : String) : Option ParameterLocation :=
  if place = "path" then some .path
  else if place = "query" then some .query
  else if place = "header" then some .header
  else none

section
variable (T : Toolkit)

def Toolkit.options (model : ApiModel) : CompileOptions where
  dialect := model.schemaDialect.getD .draft2020
  components := model.components.getD (.obj [])
  maxDepth := 64
  lintPattern := T.lintPattern
  text := T.text

variable (options : CompileOptions)

def hoistSome (schema : Option Json) (place : String) : CompileM (Option String) :=
  match schema with
  | some schema => some <$> hoist options T.calls schema place
  | none => pure none

def compileParameter (place : String) (parameter : ApiParameter) :
    CompileM (List CompiledParameter) :=
  match locationOf parameter.place with
  | some location => do
    let ref ← hoistSome T options parameter.schema s!"{place}.{parameter.place}.{parameter.name}"
    return [⟨parameter.name, location, parameter.required, ref⟩]
  | none => return []

def compileParameters (place : String) (parameters : List ApiParameter) :
    CompileM (List CompiledParameter) :=
  return (← parameters.mapM (compileParameter T options place)).flatten

def compileContent (place : String) (content : List (String × Json)) :
    CompileM (List (String × String)) :=
  content.mapM fun (mediaType, schema) => do
    return (mediaType, ← hoist options T.calls schema s!"{place}.{mediaType}")

def compileRequest (place : String) (body : Option ApiRequestBody) : CompileM (Option RequestBody) :=
  match body with
  | some body =>
    if body.content = [] then return none
    else do
      let content ← compileContent T options s!"{place}.requestBody" body.content
      return some ⟨body.required, content⟩
  | none => return none

def compileHeader (place : String) (header : ApiParameter) : CompileM CompiledParameter := do
  let ref ← hoistSome T options header.schema s!"{place}.{header.name}"
  return ⟨header.name, .header, header.required, ref⟩

def compileResponses (place : String) (responses : List (String × ApiResponse)) :
    CompileM (List (String × CompiledResponse)) :=
  return (← responses.mapM fun (status, response) => do
    let content ← compileContent T options s!"{place}.responses.{status}" (response.content.getD [])
    let headers ← (response.headers.getD []).mapM
      (compileHeader T options s!"{place}.responses.{status}")
    return (if content = [] ∧ headers = [] then [] else [(status, ⟨content, headers⟩)])).flatten

/-- `compileOperation` (`control-plane/src/artifacts.ts:144-199`). -/
def compileOperation (op : ApiOperation) : CompileM CompiledOperation := do
  let parameters ← compileParameters T options op.operationId op.parameters
  let request ← compileRequest T options op.operationId op.requestBody
  let responses ← compileResponses T options op.operationId (op.responses.getD [])
  if request.isNone ∧ responses = [] ∧ parameters.all (·.ref.isNone) then
    return {
      state := .noSchema
      reason := some ("the document declares no request body, response or parameter schema " ++
        "for this operation")
      parameters := parameters }
  else return { state := .ok, parameters := parameters, request := request, responses := responses }

/-- The operations so far, what will not be validated, and whether anything will. -/
structure Compiled where
  operations : Dict String CompiledOperation
  notes : List String
  anySchema : Bool

def compileEach (compiled : Compiled) (op : ApiOperation) : CompileM Compiled :=
  tryCatch
    (do
      let entry ← compileOperation T options op
      return { compiled with
        operations := compiled.operations.insert op.operationId entry
        anySchema := compiled.anySchema || entry.state = .ok })
    fun error =>
      match error with
      | .unsupported _ _ _ =>
        return { compiled with
          operations := compiled.operations.insert op.operationId
            { state := .unsupportedSchema, reason := some error.message }
          notes := compiled.notes ++ [s!"{op.operationId}: {error.message}"] }
      | .stack => throw error

/-- `compileJsonArtifact` (`control-plane/src/artifacts.ts:116-142`). -/
def compileJsonArtifact (model : ApiModel) : Except CompileError CompileResult :=
  match model.operations.foldlM (compileEach T (T.options model)) ⟨∅, [], false⟩ ⟨∅, 0, ∅⟩ with
  | (.error error, _) => .error error
  | (.ok compiled, compiler) =>
    if !compiled.anySchema && compiler.defs.entries.isEmpty then
      .ok ⟨none, compiled.notes ++ ["the document declares no schemas"]⟩
    else .ok ⟨some ⟨.jsonSchema, compiler.defs, none, compiled.operations⟩, compiled.notes⟩

def compileArtifact (model : ApiModel) : Except CompileError CompileResult :=
  if model.soap.isSome then .ok (compileXsdArtifact model) else compileJsonArtifact T model

end

/-! ### The index, and what is stored -/

/-- `ConfigOperation` (`shared/config-doc.ts:62-75`). -/
structure IndexedOperation where
  id : String
  method : String
  template : String
  element : Option String
  soapAction : Option String
  selector : Option String
  summary : Option String
  schemaState : SchemaState
  deriving DecidableEq

def IndexedOperation.operation (op : IndexedOperation) : ConfigOperation :=
  ⟨op.id, op.method, op.template, op.selector, op.schemaState⟩

def indexed (states : Dict String CompiledOperation) (op : ApiOperation) : IndexedOperation where
  id := op.operationId
  method := op.method
  template := op.path
  element := op.inputElement.filter (· ≠ "")
  soapAction := op.soapAction
  selector := op.selector.filter (· ≠ "")
  summary := op.summary.filter (· ≠ "")
  schemaState := ((states.lookup op.operationId).map (·.state)).getD .noSchema

/-- `buildOperationIndex` (`control-plane/src/artifacts.ts:39-61`). -/
def buildOperationIndex (model : ApiModel) (states : Dict String CompiledOperation) :
    Except String (List IndexedOperation) :=
  if MAX_OPERATIONS_PER_ROUTE < model.operations.length then
    .error (s!"this contract declares {model.operations.length} operations, over the " ++
      s!"{MAX_OPERATIONS_PER_ROUTE} a single route may carry. Split it into several APIs.")
  else .ok (model.operations.map (indexed states))

structure ArtifactRef where
  digest : String
  kind : ArtifactKind
  sizeBytes : Nat
  deriving DecidableEq

section
variable (T : Toolkit)

/-- `storeArtifact` (`control-plane/src/artifacts.ts:209-233`): stored once, under the digest of its
bytes. -/
def storeArtifact (artifacts : Dict String ArtifactRef) (bundle : Bundle) (maxBytes : Nat) :
    Except String (Dict String ArtifactRef × ArtifactRef) :=
  let bytes := T.canonicalJson bundle
  let sizeBytes := bytes.utf8ByteSize
  if maxBytes < sizeBytes then
    .error (s!"the compiled validation bundle is {sizeBytes} bytes, over ARTIFACT_MAX_BYTES " ++
      s!"({maxBytes}). Split the contract or raise the ceiling; shipping it would make every " ++
      "gateway download it.")
  else
    let ref : ArtifactRef := ⟨"sha256:" ++ T.sha256Hex bytes, bundle.kind, sizeBytes⟩
    .ok (if ref.digest ∈ artifacts then artifacts else artifacts.insert ref.digest ref, ref)

structure Stored where
  artifacts : Dict String ArtifactRef
  digest : Option String
  index : List IndexedOperation
  notes : List String

/-- `compileAndStore` (`control-plane/src/artifacts.ts:239-250`). -/
def compileAndStore (artifacts : Dict String ArtifactRef) (model : ApiModel) (maxBytes : Nat) :
    Except String Stored := do
  let result ← (compileArtifact T model).mapError (·.message)
  let index ← buildOperationIndex model ((result.bundle.map (·.operations)).getD ∅)
  match result.bundle with
  | none => return ⟨artifacts, none, index, result.notes⟩
  | some bundle =>
    let (artifacts, ref) ← storeArtifact T artifacts bundle maxBytes
    return ⟨artifacts, some ref.digest, index, result.notes⟩

theorem storeArtifact_ok {artifacts artifacts' : Dict String ArtifactRef} {bundle : Bundle}
    {maxBytes : Nat} {ref : ArtifactRef}
    (h : storeArtifact T artifacts bundle maxBytes = .ok (artifacts', ref)) :
    ref.digest = "sha256:" ++ T.sha256Hex (T.canonicalJson bundle) := by
  unfold storeArtifact at h
  dsimp only at h
  split at h
  · cases h
  · obtain ⟨-, rfl⟩ := Prod.mk.inj (Except.ok.inj h)
    rfl

theorem compileAndStore_ok {artifacts : Dict String ArtifactRef} {model : ApiModel} {maxBytes : Nat}
    {stored : Stored} (h : compileAndStore T artifacts model maxBytes = .ok stored) :
    stored.index.length = model.operations.length ∧
      (stored.digest.getD "" = "" → ∃ notes, compileArtifact T model = .ok ⟨none, notes⟩) := by
  simp only [compileAndStore, bind_eq_ok] at h
  obtain ⟨⟨bundle, notes⟩, hcompile, index, hindex, hstored⟩ := h
  have hlength : index.length = model.operations.length := by
    unfold buildOperationIndex at hindex
    split at hindex
    · cases hindex
    · rw [← Except.ok.inj hindex, List.length_map]
  cases bundle with
  | none =>
    obtain rfl := Except.ok.inj hstored
    refine ⟨hlength, fun _ => ⟨notes, ?_⟩⟩
    cases hmodel : compileArtifact T model with
    | error error =>
      rw [hmodel] at hcompile
      cases hcompile
    | ok result =>
      rw [hmodel] at hcompile
      exact congrArg _ (Except.ok.inj hcompile)
  | some bundle =>
    simp only [bind_eq_ok] at hstored
    obtain ⟨⟨artifacts', ref⟩, hstore, hstored⟩ := hstored
    obtain rfl := Except.ok.inj hstored
    refine ⟨hlength, fun hempty => ?_⟩
    rw [Option.getD_some, storeArtifact_ok T hstore] at hempty
    have hlist := congrArg String.length hempty
    rw [String.length_append] at hlist
    exact absurd hlist (by simp)

end

end Apim.ControlPlane
