import Apim.DataPlane.CheckBody

/-!
# What the backend is sent

Steps 13 to 16 of `handleRequest` (`data-plane/src/pipeline.ts:1182-1446`): the path, the method and
the body, the query and the headers, the hand-over of an upgrade and the cache. The caller's query
and headers without its credentials are `strippedQuery` and `strippedHeaders`, to which the rules of
the owner apply.
-/

namespace Apim.DataPlane

open Apim.Backend Apim.Guard Apim.Overlay

structure Upstream where
  method : String
  path : String
  query : Query
  headers : Headers
  body : Body

inductive Sent where
  | upgrade (backend : BackendEntry) (request : Upstream)
  | proxy (call : Call) (request : Upstream)

def Sent.request : Sent → Upstream
  | .upgrade _ request => request
  | .proxy _ request => request

def isCacheable (method : String) : Bool := upperCase method = "GET" || upperCase method = "HEAD"

def cacheUnit (route : ConfigRoute) (operation : Option ConfigOperation) : Bool :=
  (operationUnits route.policy operation).cached || route.policy.cached

/-! ### Credentials -/

/-- The units of a policy that authenticate by a key or by `Authorization`. -/
def ownsAuthorization (policy : PolicyDocument) : Bool :=
  policy.subscriptionKey.isSome || policy.basic.isSome || policy.jwt.isSome ||
    policy.introspection.isSome

def forwards (policy : PolicyDocument) : Bool :=
  ((policy.subscriptionKey.bind (·.forwardCredentials)).getD false) ||
    ((policy.basic.bind (·.forwardCredentials)).getD false) ||
    ((policy.jwt.bind (·.forwardCredentials)).getD false) ||
    ((policy.introspection.bind (·.forwardCredentials)).getD false)

def takesAuthorization (policy : PolicyDocument) : Bool := ownsAuthorization policy && !forwards policy

def stripsKey (policy : PolicyDocument) (location : KeyLocation) : Option String :=
  match policy.subscriptionKey with
  | none => none
  | some unit =>
    if unit.location = location ∧ unit.forwardCredentials.getD false = false then some unit.name
    else none

section
variable (P : Platform) (gw : Gateway) (v : Verdicts) (req : Request)

/-! ### The query -/

def strippedQuery (policy : PolicyDocument) : Query :=
  let params : Query :=
    if (policy.rewrite.bind (·.path)).any (· ≠ "") ∧
        policy.rewrite.bind (·.copyUnmatchedParams) = some false then []
    else req.search
  match stripsKey policy .query with
  | some name => params.delete name
  | none => params

def queryRules (policy : PolicyDocument) (ctx : TemplateContext) (params : Query) : Query :=
  let rewrite := policy.rewrite.getD {}
  let params := rewrite.queryRemove.foldl Query.delete params
  rewrite.querySet.foldl (fun params (name, value) => params.set name (P.render ctx value)) params

/-! ### The headers -/

def passCompressed (route : ConfigRoute) (operation : Option ConfigOperation) : Bool :=
  !capturesBodies v route && trimmed ((req.headers.get "accept-encoding").getD "") ≠ "" &&
    ((effectiveValidate route operation).response.getD .disabled = .disabled) &&
    !route.policy.soapToJson && route.kind ≠ .mcp && route.kind ≠ .a2a &&
    !(cacheUnit route operation && isCacheable req.method) && !route.sse

def hopHeaders (compressed : Bool) : Headers :=
  let out := (req.headers.endToEnd.delete "host").delete "content-length"
  let out := if compressed then out else out.set "accept-encoding" "identity"
  let trace := P.trace (req.headers.get "traceparent")
  let out := out.set "traceparent" trace.header
  out.put "tracestate"
    (if trace.continued then (req.headers.get "tracestate").bind P.traceState else none)

def strippedHeaders (policy : PolicyDocument) (compressed : Bool) : Headers :=
  let out := hopHeaders P req compressed
  let out := match stripsKey policy .header with
    | some name => out.delete name
    | none => out
  if takesAuthorization policy then out.delete "authorization" else out

def headerRules (policy : PolicyDocument) (ctx : TemplateContext) (out : Headers) : Headers :=
  let rules := policy.headersRequest.getD {}
  let out := rules.remove.foldl Headers.delete out
  let out := rules.set.foldl (fun out (name, value) => out.set name (P.render ctx value)) out
  let out := rules.append.foldl (fun out (name, value) => out.append name (P.render ctx value)) out
  rules.skip.foldl (fun out (name, value) =>
    if (out.get name).isSome then out else out.set name (P.render ctx value)) out

def gatewayHeaders (kafka : Bool) (out : Headers) : Headers :=
  let out := if kafka then out.set "content-type" "application/json" else out
  let chain :=
    if gw.trustedPeer then
      match (req.headers.get "x-forwarded-for").filter (· ≠ "") with
      | some inbound => inbound ++ ", " ++ gw.peerIp.getD gw.clientIp
      | none => gw.peerIp.getD gw.clientIp
    else gw.clientIp
  let out := out.set "x-forwarded-for" chain
  let out := out.set "x-forwarded-proto" req.protocol
  let out := out.set "x-forwarded-host" ((req.headers.get "host").getD "")
  out.set "x-request-id" gw.requestId

/-! ### The path, the method and the body -/

def rewrittenPath (route : ConfigRoute) (pathParams : Dict String String) : String :=
  let strip := (route.policy.rewrite.bind (·.stripBasePath)).getD true
  match (route.policy.rewrite.bind (·.path)).filter (· ≠ "") with
  | none => if strip then relativePath req route else req.path
  | some template =>
    let rendered := P.renderPathTemplate template pathParams
    if strip then rendered
    else (if route.basePath = "/" then "" else route.basePath) ++ rendered

/-- A produce: its path and its record (`data-plane/src/pipeline.ts:1260-1302`). -/
def kafkaRecord (route : ConfigRoute) (resolved : Resolved) (body : Body) (clusterId : String) :
    Except Stop (String × Body) := do
  let topic ← demand ((resolved.operation.bind fun _ => resolved.pathParams.lookup "topic").filter
      (· ≠ ""))
    (deny 500 ("this route produces to Kafka, and its contract has no {topic} path parameter to " ++
      "take the topic from — the API's definition needs an operation like POST /topics/{topic}")
      .routeMisconfigured)
  let media := gotMedia (mediaTypeOf (req.headers.get "content-type"))
  ensure req.isJson
    (deny 415 s!"this route produces a JSON record, so it accepts application/json (got \"{media}\")"
      .contentType)
  let bytes := match body with
    | .buffered bytes => bytes
    | _ => []
  let value ← relabel (fun issue : ValidationIssue =>
      deny 400 s!"the request body is not acceptable JSON: {issue.message}" .validationRejected)
    (P.validators.readJson (jsonLimitsOf (effectiveValidate route resolved.operation)) bytes)
  pure (s!"/v3/clusters/{clusterId}/topics/{P.encodeUri topic}/records", .buffered (P.recordOf value))

def target (route : ConfigRoute) (resolved : Resolved) (body : Body) :
    Except Stop (String × String × Body) :=
  match route.policy.kafkaProduce with
  | none => .ok (req.method, rewrittenPath P req route resolved.pathParams, body)
  | some clusterId => do
    let (path, record) ← kafkaRecord P req route resolved body clusterId
    pure ("POST", path, record)

def contextOf (admitted : Admitted) (resolved : Resolved) : TemplateContext where
  subscription := admitted.callers.subscription
  identity := admitted.callers.identity
  certificate := clientCertificate P gw req
  operation := resolved.operation
  pathParams := resolved.pathParams

def prepare (admitted : Admitted) (resolved : Resolved) (body : Body) : Except Stop Upstream := do
  let route := admitted.route
  let ctx := contextOf P gw req admitted resolved
  let (method, path, body) ← target P req route resolved body
  let query := queryRules P route.policy ctx (strippedQuery req route.policy)
  let compressed := passCompressed v req route resolved.operation
  let headers := headerRules P route.policy ctx (strippedHeaders P req route.policy compressed)
  pure ⟨method, path, query, gatewayHeaders gw req route.policy.kafkaProduce.isSome headers, body⟩

/-! ### The hand-over -/

def Upstream.forUpgrade (request : Upstream) : Upstream :=
  { request with headers :=
      ((request.headers.delete "sec-websocket-key").delete "sec-websocket-version").delete "upgrade" }

def isUpgrade (route : ConfigRoute) : Bool :=
  route.policy.passthrough.any (·.websocket) &&
    (req.headers.get "upgrade").map lowerCase = some "websocket"

def firstBackend (route : ConfigRoute) : Option BackendEntry :=
  (selectionOrder route.pool route.rule v.cursor fun url =>
    (gw.breaker.state (route.resourceId ++ "|" ++ url) route.policy.circuitBreaker v.now).1 ≠
      .open).head?

def checkStreams : Except Stop Unit :=
  match v.streams with
  | .ok => .ok ()
  | .routeFull =>
    .error (deny 503 "this route is at its concurrent-connection ceiling" .upgradeRejected)
  | .instanceFull =>
    .error (deny 503 "this gateway instance is at its concurrent-stream ceiling" .upgradeSaturated)

def DEFAULT_TIMEOUT_MS : Nat := 120000

def callOf (route : ConfigRoute) (operation : Option ConfigOperation) (request : Upstream) : Call where
  resourceId := route.resourceId
  pool := route.pool
  rule := route.rule
  settings := route.policy.circuitBreaker
  retries := route.policy.retries
  upstreamMethod := request.method
  streamed := match request.body with
    | .streamed _ => true
    | _ => false
  timeoutMs := ((operationUnits route.policy operation).timeoutMs.or route.policy.timeoutMs).getD
    DEFAULT_TIMEOUT_MS
  routeMaxBody := routeMaxBody gw route

def handOver (route : ConfigRoute) (operation : Option ConfigOperation) (request : Upstream) :
    Except Stop Sent :=
  if isUpgrade req route then do
    checkStreams v
    let backend ← demand (firstBackend gw v route)
      (deny 503 "every backend for this route is unavailable" .poolOpen)
    pure (.upgrade backend request.forUpgrade)
  else do
    ensure (!(cacheUnit route operation && isCacheable req.method && v.cacheHit))
      (.answered 200 .cacheHit)
    pure (.proxy (callOf gw route operation request) request)

/-! ### All of it -/

structure Journey where
  admitted : Admitted
  resolved : Resolved
  checked : Body
  sent : Sent

def handleRequest : Except Stop Journey := do
  let admitted ← admission P gw v req
  let resolved ← resolve P gw req admitted.route
  checkOperation req v admitted resolved.operation
  let checked ← checkRequest P gw v req admitted.route resolved
  let request ← prepare P gw v req admitted resolved checked
  let sent ← handOver gw v req admitted.route resolved.operation request
  pure ⟨admitted, resolved, checked, sent⟩

end

/-! ### A small gateway

A platform that reads one token and one document, and a gateway with one route on it, for the runs of
the later modules. -/

namespace Small

def runtime : Jwt.Runtime where
  decodeText := fun part =>
    if part = "eyJhbGciOiJSUzI1NiIsImtpZCI6ImsxIn0" then "\x7b\"alg\":\"RS256\",\"kid\":\"k1\"\x7d"
    else if part = "eyJpc3MiOiJodHRwczovL2lkcCJ9" then "\x7b\"iss\":\"https://idp\"\x7d"
    else ""
  base64UrlDecode := fun _ => [1]
  parseJson := fun text =>
    if text = "\x7b\"alg\":\"RS256\",\"kid\":\"k1\"\x7d" then
      some (.obj [("alg", .str "RS256"), ("kid", .str "k1")])
    else if text = "\x7b\"iss\":\"https://idp\"\x7d" then some (.obj [("iss", .str "https://idp")])
    else none
  verifies := fun scheme _ _ _ => scheme = .pkcs1 .sha256

def token : String := "eyJhbGciOiJSUzI1NiIsImtpZCI6ImsxIn0.eyJpc3MiOiJodHRwczovL2lkcCJ9.AQ"

def emptyObject : Bytes := [0x7b, 0x7d]

/-- Reads `emptyObject`, and has two schemas: `true`, and `false` for the rest. -/
def validators : Validators where
  readJson := fun _ bytes =>
    if bytes = emptyObject then .ok (.obj []) else .error ⟨"/", "json", "expected a value"⟩
  validateJson := fun _ schema _ _ =>
    if schema = .bool true then ⟨true, [], false⟩ else ⟨false, [⟨"/", "type", "no value is valid"⟩], false⟩
  coerceParameter := fun raw _ => .str raw
  soapBodyChild := fun _ => none
  validateXml := fun _ _ _ => ⟨true, [], false⟩

def platform : Platform where
  crypto := ⟨fun text => "sha256:" ++ text, fun text => text⟩
  jwt := runtime
  validators := validators
  hashSubscriptionKey := fun key => "sha256:" ++ key
  cnOf := fun _ => ""
  ipInCidr := fun address range => range = address ++ "/32"
  patternTest := fun _ _ => false
  patternBounded := fun _ => true
  numberOf := fun text => if text = "0" then some 0 else none
  scanEnvelope := fun _ _ => .error "expected an element"
  actionParameter := fun _ => none
  decodeUri := fun text => text
  encodeUri := fun text => text
  renderPathTemplate := fun template _ => template
  render := fun _ template => template
  recordOf := fun _ => []
  trace := fun _ => ⟨"00-0af7651916cd43dd8448eb211c80319c-b7ad6b7169203331-01", false⟩
  traceState := fun _ => none

def gateway (route : ConfigRoute) : Gateway where
  routes := [route]
  byKeyHash := (∅ : Dict String ConfigSubscription).insert "sha256:k-1" ⟨"sub-1", ["sha256:k-1"], "gold"⟩
  references :=
    { issuers := (∅ : Dict String ConfigIssuer).insert "idp"
        ⟨"https://idp", some "https://idp/jwks", ["RS256"], none, none⟩
      secretHashes := ∅ }
  maxPrefixBytes := 8192
  maxElements := 100000
  artifacts := ∅
  maxBodyBytes := 4
  clientIp := "10.0.0.7"
  peerIp := none
  trustedPeer := false
  clientCertHeaders := ⟨"x-dn", "x-issuer", "x-verify", "x-fingerprint", "x-san"⟩
  requestId := "r-1"
  jwks := ⟨∅, ∅, 60000⟩
  breaker := ∅

def verdicts : Verdicts where
  now := 60000
  jwksAnswer := some [⟨some "k1", "RSA", none, some "sig", "n"⟩]
  introspection := none
  rateAllowed := fun _ _ _ => true
  quotaAllowed := fun _ _ _ _ _ => true
  budgetFree := true
  sampled := fun _ => true
  streams := .ok
  cursor := 0
  cacheHit := false

def getPets : ConfigOperation := { id := "listPets", method := "GET", template := "/pets" }

def route (policy : PolicyDocument) : ConfigRoute where
  resourceId := "pets"
  kind := .rest
  host := "*"
  basePath := "/"
  productIds := ["gold"]
  pool := [⟨"http://pets:8080", none⟩]
  rule := .roundRobin
  policy := policy
  operations := [getPets]
  artifact := none
  logBodiesUntil := none
  soap := none
  a2a := none

def request (method : String) (fields : List (String × String)) : Request where
  method := method
  protocol := "http"
  path := "/pets"
  search := []
  headers := fields.foldl (fun headers (name, value) => headers.set name value) .empty
  body := none

end Small

end Apim.DataPlane
