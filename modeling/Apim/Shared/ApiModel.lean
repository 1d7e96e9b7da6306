import Apim.Shared.JsonSchema

/-!
# Definitions

The model every definition is normalised into (`shared/types.ts:137-272`). The maps of a document keep
their order, as its digest is taken over it. Of the blocks of the single-endpoint variants only their
presence is read here.
-/

namespace Apim
open JsonSchema

structure ApiParameter where
  name : String
  place : String
  required : Bool
  schema : Option Json
  deriving DecidableEq

structure ApiRequestBody where
  required : Bool
  content : List (String × Json)
  deriving DecidableEq

structure ApiResponse where
  description : Option String
  content : Option (List (String × Json))
  headers : Option (List ApiParameter)
  deriving DecidableEq

structure ApiOperation where
  operationId : String
  method : String
  path : String
  summary : Option String := none
  parameters : List ApiParameter := []
  requestBody : Option ApiRequestBody := none
  responses : Option (List (String × ApiResponse)) := none
  soapAction : Option String := none
  inputElement : Option String := none
  outputElement : Option String := none
  selector : Option String := none
  deriving DecidableEq

/-- `SoapBinding`. The compiled schema set is an object with the members `elements` and `types`. -/
structure SoapBinding where
  version : String
  service : String
  port : String
  endpoint : String
  targetNamespace : String
  schema : Option Json
  deriving DecidableEq

structure ApiModel where
  title : String
  version : String
  description : Option String := none
  servers : List String := []
  operations : List ApiOperation
  soap : Option SoapBinding := none
  mcp : Option Json := none
  a2a : Option Json := none
  components : Option Json := none
  schemaDialect : Option Dialect := none
  deriving DecidableEq

def declaresElement (schema : Json) (name : String) : Bool :=
  ((schema.member? "elements").bind (·.member? name)).isSome

end Apim
