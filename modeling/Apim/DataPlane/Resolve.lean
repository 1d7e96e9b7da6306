import Apim.DataPlane.Admission

/-!
# Which operation is called

Step 11 of `handleRequest` (`data-plane/src/pipeline.ts:770-970`): the operation, by the envelope of
a SOAP request, by the method of an RPC request, by method and path otherwise; and the limits and
scopes of that operation. What a body has been read of is put back, so `Body` is what the later
steps find of it.
-/

namespace Apim.DataPlane

open Apim.Guard Apim.Overlay

inductive Body where
  | absent
  | streamed (stream : Stream)
  | buffered (bytes : Bytes)
  deriving DecidableEq, Repr

def Request.capped (req : Request) (max : Nat) : Body :=
  match req.body with
  | none => .absent
  | some stream => if req.hasBody then .streamed (stream.capped max) else .absent

structure Resolved where
  operation : Option ConfigOperation
  pathParams : Dict String String
  body : Body

/-! ### SOAP -/

def unquoted (text : String) : String :=
  if 2 ≤ text.length ∧ startsWith text "\"" ∧ endsWith text "\"" then
    String.ofList (text.toList.drop 1).dropLast
  else text

section
variable (P : Platform)

/-- `declaredAction` (`shared/soap.ts:31-47`). -/
def declaredAction (version : SoapVersion) (soapAction contentType : Option String) : Option String :=
  match version with
  | .v12 => (P.actionParameter contentType).map trimmed
  | .v11 => soapAction.map fun header => unquoted (trimmed header)

def actionAgrees (declared : Option String) (bindingAction : String) : Bool :=
  declared.getD "" == bindingAction

end

/-! ### RPC -/

structure RpcRequest where
  method : String
  params : Option Json

/-- `parseRpc` (`shared/jsonrpc.ts:66-93`), with its message for a value it refuses. -/
def parseRpc (value : Json) : Except String RpcRequest :=
  match value with
  | .arr _ => .error ("batched JSON-RPC requests are not accepted: policy, counting and validation " ++
      "apply per call, and a batch would be authorized and counted as one")
  | .obj _ =>
    if value.member? "jsonrpc" ≠ some (.str "2.0") then .error "expected \"jsonrpc\": \"2.0\""
    else
      match (value.member? "method").bind Json.asString? with
      | none => .error "expected a method name"
      | some method =>
        if method = "" then .error "expected a method name"
        else .ok ⟨method, value.member? "params"⟩
  | _ => .error "expected a JSON-RPC request object"

def toolSelector (name : String) : String := "tools/call:" ++ name

/-- `selectorFor` (`shared/mcp.ts:180-184`). -/
def selectorFor (request : RpcRequest) : String :=
  if request.method = "tools/call" then
    match ((request.params.bind fun params => params.member? "name").bind Json.asString?) with
    | some name => toolSelector name
    | none => "tools/call"
  else request.method

def rpcSelector (kind : ResourceKind) (request : RpcRequest) : String :=
  if kind = .mcp then selectorFor request else request.method

/-- `isStreamingMethod` (`shared/a2a.ts:178-180`). -/
def isStreamingMethod (method : String) : Bool :=
  method == "message/stream" || method == "tasks/resubscribe"

/-! ### Resolution -/

def ConfigRoute.sse (route : ConfigRoute) : Bool :=
  match route.policy.passthrough with
  | none => false
  | some unit => unit.sse

def ConfigRoute.validate (route : ConfigRoute) : ValidateUnit := route.policy.validate.getD {}

def isMcpStream (req : Request) (route : ConfigRoute) : Bool :=
  route.kind = .mcp && (req.method = "GET" || req.method = "DELETE")

section
variable (P : Platform) (gw : Gateway) (req : Request)

def resolveSoap (route : ConfigRoute) (soap : ConfigSoap) (stream : Stream) : Except Stop Resolved := do
  let (start, rest) ← demand (stream.takePrefix gw.maxPrefixBytes)
    (bodyTooLarge (routeMaxBody gw route))
  let scanned ← relabel (fun message =>
      deny 400 s!"the SOAP envelope was rejected: {message}" .soapMismatch)
    (P.scanEnvelope start ((route.validate.always.bind (·.xmlMaxElements)).getD gw.maxElements))
  let bodyChild ← demand (scanned.filter (· ≠ ""))
    (deny 400 (s!"no operation element was found in the first {gw.maxPrefixBytes} bytes of the " ++
      "envelope") .soapMismatch)
  let soapOperation ← demand (soap.operations.find? (·.element == bodyChild))
    (deny 400 s!"the envelope body element {bodyChild} is not an operation of this API" .soapMismatch)
  let declared := declaredAction P soap.version (req.headers.get "soapaction")
    (req.headers.get "content-type")
  let action := declared.getD ""
  ensure (actionAgrees declared soapOperation.soapAction)
    (deny 400 (s!"the declared action \"{action}\" disagrees with the body, which is " ++
      s!"{soapOperation.operationId} (action \"{soapOperation.soapAction}\")") .soapMismatch)
  pure ⟨route.operations.find? (·.id == soapOperation.operationId), ∅, .streamed rest⟩

def readBody (route : ConfigRoute) (body : Body) : Except Stop Bytes :=
  match body with
  | .absent => .ok []
  | .buffered bytes => .ok bytes
  | .streamed stream =>
    demand (stream.readWhole (routeMaxBody gw route)) (bodyTooLarge (routeMaxBody gw route))

def resolveRpc (route : ConfigRoute) (body : Body) : Except Stop Resolved := do
  let kind := if route.kind = .mcp then "mcp" else "a2a"
  ensure (req.method = "POST") (deny 405 s!"this {kind} route accepts POST" .noRoute)
  let bytes ← readBody gw route body
  let json ← relabel (fun issue : ValidationIssue =>
      deny 400 s!"the request body is not acceptable JSON: {issue.message}" .validationRejected)
    (P.validators.readJson (jsonLimitsOf route.validate) bytes)
  let request ← relabel (fun message => deny 400 message .validationRejected) (parseRpc json)
  let selector := rpcSelector route.kind request
  let operation ← demand (route.operations.find? (·.selector == some selector))
    (deny 404 s!"\"{selector}\" is not an operation this API declares" .rpcUnknownMethod)
  ensure (!(route.kind = .a2a && isStreamingMethod request.method && !route.sse))
    (deny 503 "streaming is not enabled for this route" .rpcUnknownMethod)
  pure ⟨some operation, ∅, .buffered bytes⟩

def resolveMcpStream (route : ConfigRoute) (body : Body) : Except Stop Resolved := do
  ensure route.sse
    (deny 405 (s!"{req.method} on an mcp route opens the server→client stream or ends a session, " ++
      "which need passthrough.sse; without it this route accepts POST only") .noRoute)
  pure ⟨none, ∅, body⟩

def relativePath (route : ConfigRoute) : String := stripBasePath req.path route.basePath

def matchRest (route : ConfigRoute) : Option (ConfigOperation × Dict String String) :=
  Opmatch.matchCompiled upperCase P.decodeUri
    (Opmatch.compileOperations ConfigOperation.method ConfigOperation.template upperCase
      route.operations)
    req.method (relativePath req route)

def resolveRest (route : ConfigRoute) (body : Body) : Except Stop Resolved :=
  if route.operations = [] then .ok ⟨none, ∅, body⟩
  else do
    let path := relativePath req route
    let (operation, params) ← demand (matchRest P req route)
      (deny 404 s!"\"{req.method} {path}\" is not an operation this API declares" .noOperation)
    pure ⟨some operation, params, body⟩

def resolve (route : ConfigRoute) : Except Stop Resolved :=
  let body := req.capped (routeMaxBody gw route)
  match route.kind, route.soap, body with
  | .soap, some soap, .streamed stream => resolveSoap P gw req route soap stream
  | _, _, _ =>
    if route.kind = .mcp ∨ route.kind = .a2a then
      if isMcpStream req route then resolveMcpStream req route body
      else resolveRpc P gw req route body
    else resolveRest P req route body

/-! ### The operation's own limits -/

def operationUnits (policy : PolicyDocument) (operation : Option ConfigOperation) : OperationUnits :=
  match operation with
  | none => {}
  | some operation =>
    if operation.id = "" then {} else (policy.operations.lookup operation.id).getD {}

def effectiveValidate (route : ConfigRoute) (operation : Option ConfigOperation) : ValidateUnit :=
  ((operationUnits route.policy operation).validate.getD {}).overlaid route.validate

def operationId (operation : Option ConfigOperation) : String :=
  match operation with
  | none => ""
  | some operation => operation.id

section
variable (v : Verdicts)

def checkScopes (route : ConfigRoute) (identity : Option Identity)
    (operation : Option ConfigOperation) : Except Stop Unit :=
  match route.policy.jwt, identity with
  | some unit, some identity =>
    match scopeMapMisses unit identity (operation.map (·.id)) req.method
      (operation.map (·.template)) with
    | [] => .ok ()
    | scope :: _ =>
      .error (deny 403 s!"this operation requires the scope \"{scope}\"" .badCredential)
  | _, _ => .ok ()

def checkOperationRate (route : ConfigRoute) (subscription : Option ConfigSubscription)
    (operation : Option ConfigOperation) : Except Stop Unit :=
  match (operationUnits route.policy operation).rateLimit, subscription with
  | some unit, some subscription =>
    ensure (v.rateAllowed
        (subscription.id ++ "|" ++ route.resourceId ++ "|op:" ++ operationId operation)
        unit.calls unit.periodSec)
      (deny 429 (s!"rate limit of {unit.calls} calls per {unit.periodSec}s " ++
        "exceeded for this operation") .rateLimited)
  | _, _ => .ok ()

def checkOperationQuota (route : ConfigRoute) (subscription : Option ConfigSubscription)
    (operation : Option ConfigOperation) : Except Stop Unit :=
  match (operationUnits route.policy operation).quota, subscription, operation with
  | some unit, some subscription, some operation =>
    ensure (v.quotaAllowed subscription.id "operation" (route.resourceId ++ ":" ++ operation.id)
        unit.periodSec unit.calls)
      (deny 403 "the fleet quota for this operation is exhausted" .quotaExceeded)
  | _, _, _ => .ok ()

/-- The scopes and the counters of the operation (`data-plane/src/pipeline.ts:921-970`). -/
def checkOperation (admitted : Admitted) (operation : Option ConfigOperation) : Except Stop Unit := do
  checkScopes req admitted.route admitted.callers.identity operation
  checkOperationRate v admitted.route admitted.callers.subscription operation
  checkOperationQuota v admitted.route admitted.callers.subscription operation

end

end

end Apim.DataPlane
