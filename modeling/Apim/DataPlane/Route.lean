import Apim.DataPlane.Attempts
import Apim.DataPlane.Http
import Apim.Shared.Json
import Apim.Shared.Policy

/-!
# Routes as a gateway has them

The policy units of a route, in the types the data plane reads them with (`shared/policy.ts`), and
the rows of the configuration document that serving a request looks at (`shared/config-doc.ts`).
Only the members that the modelled functions read are here.
-/

namespace Apim.DataPlane

open Apim.Overlay

/-! ### Policy units -/

inductive KeyLocation where
  | header
  | query
  deriving DecidableEq, Repr

structure SubscriptionKeyUnit where
  location : KeyLocation
  name : String
  forwardCredentials : Option Bool := none
  deriving DecidableEq, Repr

structure BasicAuthUnit where
  credentialRef : String
  forwardCredentials : Option Bool := none
  deriving DecidableEq, Repr

structure JwtAuthUnit where
  issuerRef : String
  headerName : Option String := none
  scheme : Option String := none
  audience : Option (List String) := none
  requiredScopes : Option (List String) := none
  scopeMap : Option (List (String × List String)) := none
  clockSkewSec : Option Nat := none
  forwardCredentials : Option Bool := none
  deriving DecidableEq, Repr

structure IntrospectionAuthUnit where
  issuerRef : String
  requiredScopes : Option (List String) := none
  forwardCredentials : Option Bool := none
  deriving DecidableEq, Repr

structure MtlsAuthUnit where
  allowedIssuers : Option (List String) := none
  allowedSubjectCns : Option (List String) := none
  allowedSans : Option (List String) := none
  deriving DecidableEq, Repr

/-- `RequireHeaderCheck`; `RequireQueryCheck` is one without a `credentialRef`. -/
structure ValueCheck where
  name : String
  present : Bool := false
  equals : Option String := none
  pattern : Option String := none
  credentialRef : Option String := none
  deriving DecidableEq, Repr

structure RequireClientCertCheck where
  issuers : Option (List String) := none
  subjectCns : Option (List String) := none
  sans : Option (List String) := none
  deriving DecidableEq, Repr

structure PreconditionRule where
  requireHeader : Option ValueCheck := none
  requireQuery : Option ValueCheck := none
  requireClientCert : Option RequireClientCertCheck := none
  requireOperation : Option (List String) := none
  denyStatus : Nat
  deriving DecidableEq, Repr

inductive ValidationState where
  | blocking
  | warning
  | disabled
  deriving DecidableEq, Repr

structure ValidateSample where
  alwaysUnderBytes : Option Nat := none
  rate : ℚ
  coldStart : Option Nat := none
  deriving DecidableEq

inductive DuplicateKeys where
  | reject
  | lastWins
  deriving DecidableEq, Repr

structure ValidateAlways where
  contentType : Option (List String) := none
  maxBodyBytes : Option Nat := none
  maxDepth : Option Nat := none
  maxArrayLength : Option Nat := none
  duplicateKeys : Option DuplicateKeys := none
  xmlMaxElements : Option Nat := none
  deriving DecidableEq, Repr

structure ValidateUnit where
  request : Option ValidationState := none
  response : Option ValidationState := none
  headers : Option Bool := none
  body : Option Bool := none
  always : Option ValidateAlways := none
  sample : Option ValidateSample := none
  deriving DecidableEq

def ValidateUnit.overlaid (own base : ValidateUnit) : ValidateUnit where
  request := own.request.or base.request
  response := own.response.or base.response
  headers := own.headers.or base.headers
  body := own.body.or base.body
  always := own.always.or base.always
  sample := own.sample.or base.sample

structure RewriteUnit where
  stripBasePath : Option Bool := none
  path : Option String := none
  copyUnmatchedParams : Option Bool := none
  querySet : List (String × String) := []
  queryRemove : List String := []
  deriving DecidableEq, Repr

structure HeaderRulesUnit where
  remove : List String := []
  set : List (String × String) := []
  append : List (String × String) := []
  skip : List (String × String) := []
  deriving DecidableEq, Repr

inductive RateScope where
  | route
  | product
  deriving DecidableEq, Repr

structure CountUnit where
  calls : Nat
  periodSec : Nat
  scope : RateScope
  deriving DecidableEq, Repr

structure PassthroughUnit where
  websocket : Bool := false
  sse : Bool := false
  maxConcurrentConnections : Option Nat := none
  deriving DecidableEq, Repr

/-- The units a per-operation override may carry (`OPERATION_OVERRIDABLE`). -/
structure OperationUnits where
  validate : Option ValidateUnit := none
  rateLimit : Option CountUnit := none
  quota : Option CountUnit := none
  timeoutMs : Option Nat := none
  cached : Bool := false
  deriving DecidableEq

structure PolicyDocument where
  subscriptionKey : Option SubscriptionKeyUnit := none
  basic : Option BasicAuthUnit := none
  jwt : Option JwtAuthUnit := none
  introspection : Option IntrospectionAuthUnit := none
  mtls : Option MtlsAuthUnit := none
  ipAllow : Option (List String) := none
  cors : Bool := false
  preconditions : List PreconditionRule := []
  validate : Option ValidateUnit := none
  rewrite : Option RewriteUnit := none
  headersRequest : Option HeaderRulesUnit := none
  soapToJson : Bool := false
  cached : Bool := false
  kafkaProduce : Option String := none
  rateLimit : Option CountUnit := none
  quota : Option CountUnit := none
  timeoutMs : Option Nat := none
  retries : Option RetriesUnit := none
  circuitBreaker : Option Backend.BreakerSettings := none
  passthrough : Option PassthroughUnit := none
  operations : Dict String OperationUnits := ∅

/-! ### Rows of the document -/

inductive SchemaState where
  | ok
  | noSchema
  | unsupportedSchema
  deriving DecidableEq, Repr

structure ConfigOperation where
  id : String
  method : String
  template : String
  selector : Option String := none
  schemaState : SchemaState := .noSchema
  deriving DecidableEq, Repr

structure ConfigSoapOperation where
  operationId : String
  element : String
  soapAction : String
  deriving DecidableEq, Repr

inductive SoapVersion where
  | v11
  | v12
  deriving DecidableEq, Repr

structure ConfigSoap where
  version : SoapVersion
  operations : List ConfigSoapOperation
  deriving DecidableEq, Repr

structure ConfigA2a where
  cardPath : String
  cardPublic : Bool
  deriving DecidableEq, Repr

structure ConfigRoute where
  resourceId : String
  kind : ResourceKind
  host : String
  basePath : String
  productIds : List String
  pool : List Backend.BackendEntry
  rule : Backend.PoolRule
  policy : PolicyDocument
  operations : List ConfigOperation
  artifact : Option String
  logBodiesUntil : Option Nat
  soap : Option ConfigSoap
  a2a : Option ConfigA2a

structure ConfigSubscription where
  id : String
  keyHashes : List String
  productId : String
  deriving DecidableEq, Repr

structure ConfigIssuer where
  issuer : String
  jwksUrl : Option String
  algorithms : List String
  audienceDefault : Option (List String)
  introspectionUrl : Option String
  deriving DecidableEq, Repr

structure ConfigReferences where
  issuers : Dict String ConfigIssuer
  secretHashes : Dict String String

/-! ### Routing -/

/-- `hostKey` (`shared/routing.ts:60-68`): the `Host` header without a port, lower-cased. -/
def hostKey (hostHeader : Option String) : String :=
  let value := (Routing.trim (hostHeader.getD "").toList).map Char.toLower
  if value.head? = some '[' then
    if value.contains ']' then String.ofList (value.takeWhile (· != ']') ++ [']']) else ""
  else if value.contains ':' then
    String.ofList ((value.reverse.dropWhile (· != ':')).drop 1).reverse
  else String.ofList value

def pathMatchesBase (path basePath : String) : Bool :=
  basePath == "/" || path == basePath || startsWith path (basePath ++ "/")

def stripBasePath (path basePath : String) : String :=
  if basePath = "/" then path
  else if path = basePath then "/"
  else if startsWith path (basePath ++ "/") then String.ofList (path.toList.drop basePath.length)
  else path

/-- `match` (`data-plane/src/route-table.ts:132-141`) over the routes as the table sorts them, the
longest base path first. -/
def matchRoute (routes : List ConfigRoute) (hostHeader : Option String) (path : String) :
    Option ConfigRoute :=
  let under := routes.filter fun route => pathMatchesBase path route.basePath
  (under.find? fun route => route.host == hostKey hostHeader).or
    (under.find? fun route => route.host == "*")

end Apim.DataPlane
