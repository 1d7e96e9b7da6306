import Apim.DataPlane.Forward

/-!
# What every forwarded request has passed

A request that `handleRequest` forwards has been let through by each of its checks: those of steps 1
to 10 (`Passed`), the resolution of its operation (`Found`), and the limits and scopes of that
operation. `Gated` is all of it. What it does not have is an operation on the stream of an `mcp`
route, which the pipeline forwards without one.
-/

namespace Apim.DataPlane

open Apim.Guard Apim.Overlay

variable {route : ConfigRoute} {resolved : Resolved} {identity : Identity}

section
variable (P : Platform) (gw : Gateway) (v : Verdicts) (req : Request)

/-! ### The operation -/

def OperationServes (route : ConfigRoute) (operation : ConfigOperation) : Prop :=
  let compiled := Opmatch.compileOperation ConfigOperation.method ConfigOperation.template upperCase
    operation
  let parts := Opmatch.segmentsOf (relativePath req route)
  compiled.serves (upperCase req.method) = true ∧ compiled.segments.length = parts.length ∧
    compiled.agrees parts = true

inductive Found (route : ConfigRoute) : Resolved → Prop
  | envelope {soap : ConfigSoap} {stream rest : Stream} {start : Bytes} {ceiling : Nat}
      {operation : ConfigSoapOperation} (hsoap : route.soap = some soap)
      (hbody : req.capped (routeMaxBody gw route) = .streamed stream)
      (hstart : stream.takePrefix gw.maxPrefixBytes = some (start, rest))
      (hchild : P.scanEnvelope start ceiling = .ok (some operation.element))
      (hmem : operation ∈ soap.operations)
      (haction : (declaredAction P soap.version (req.headers.get "soapaction")
        (req.headers.get "content-type")).getD "" = operation.soapAction) :
      Found route ⟨route.operations.find? (·.id == operation.operationId), ∅, .streamed rest⟩
  | call {bytes : Bytes} {json : Json} {request : RpcRequest} {operation : ConfigOperation}
      (hkind : route.kind = .mcp ∨ route.kind = .a2a) (hmethod : req.method = "POST")
      (hread : P.validators.readJson (jsonLimitsOf route.validate) bytes = .ok json)
      (hparsed : parseRpc json = .ok request) (hmem : operation ∈ route.operations)
      (hselector : operation.selector = some (rpcSelector route.kind request)) :
      Found route ⟨some operation, ∅, .buffered bytes⟩
  | mcpStream {body : Body} (hkind : route.kind = .mcp)
      (hmethod : req.method = "GET" ∨ req.method = "DELETE") (hsse : route.sse = true) :
      Found route ⟨none, ∅, body⟩
  | undeclared {body : Body} (hnone : route.operations = []) : Found route ⟨none, ∅, body⟩
  | matched {operation : ConfigOperation} {params : Dict String String} {body : Body}
      (hmem : operation ∈ route.operations) (hserves : OperationServes req route operation) :
      Found route ⟨some operation, params, body⟩

variable {P gw req}

theorem of_resolveSoap {soap : ConfigSoap} {stream : Stream} (hsoap : route.soap = some soap)
    (hbody : req.capped (routeMaxBody gw route) = .streamed stream)
    (h : resolveSoap P gw req route soap stream = .ok resolved) : Found P gw req route resolved := by
  simp only [resolveSoap, bind_eq_ok, demand_eq_ok, relabel_eq_ok, ensure_eq_ok, pure_eq_ok] at h
  obtain ⟨⟨start, rest⟩, hstart, scanned, hscanned, child, hchild, operation, hoperation, _, hagrees,
    rfl⟩ := h
  obtain ⟨rfl, _⟩ := Option.filter_eq_some_iff.mp hchild
  have helement := List.find?_some hoperation
  have hmem := List.mem_of_find?_eq_some hoperation
  exact .envelope hsoap hbody hstart (eq_of_beq helement ▸ hscanned) hmem (eq_of_beq hagrees)

theorem of_resolveRpc {body : Body} (hkind : route.kind = .mcp ∨ route.kind = .a2a)
    (h : resolveRpc P gw req route body = .ok resolved) : Found P gw req route resolved := by
  simp only [resolveRpc, bind_eq_ok, demand_eq_ok, relabel_eq_ok, ensure_eq_ok, pure_eq_ok] at h
  obtain ⟨_, hpost, bytes, _, json, hjson, request, hrequest, operation, hoperation, _, _, rfl⟩ := h
  have hselector := List.find?_some hoperation
  exact .call hkind (of_decide_eq_true hpost) hjson hrequest
    (List.mem_of_find?_eq_some hoperation) (eq_of_beq hselector)

theorem of_resolveRest {body : Body} (h : resolveRest P req route body = .ok resolved) :
    Found P gw req route resolved := by
  unfold resolveRest at h
  split at h
  · rename_i hnone
    cases h
    exact .undeclared hnone
  · simp only [bind_eq_ok, demand_eq_ok, pure_eq_ok] at h
    obtain ⟨⟨operation, params⟩, hmatched, rfl⟩ := h
    obtain ⟨candidate, hcandidate, rfl, hserves, hlength, hagrees⟩ :=
      Opmatch.of_matchCompiled hmatched
    obtain ⟨declared, hdeclared, rfl⟩ := List.mem_map.mp hcandidate
    exact .matched hdeclared ⟨hserves, hlength, hagrees⟩

theorem of_resolve (h : resolve P gw req route = .ok resolved) : Found P gw req route resolved := by
  unfold resolve at h
  dsimp only at h
  split at h
  · rename_i soap stream _ hsoap hbody
    exact of_resolveSoap hsoap hbody h
  · split at h
    · rename_i hkind
      split at h
      · rename_i hstream
        simp only [resolveMcpStream, bind_eq_ok, ensure_eq_ok, pure_eq_ok] at h
        obtain ⟨_, hsse, rfl⟩ := h
        obtain ⟨hmcp, hmethod⟩ : route.kind = .mcp ∧ (req.method = "GET" ∨ req.method = "DELETE") := by
          simpa [isMcpStream] using hstream
        exact .mcpStream hmcp hmethod hsse
      · exact of_resolveRpc hkind h
    · exact of_resolveRest h

/-! ### Its scopes -/

def scopeEntry (map : List (String × List String)) (operation : ConfigOperation) (method : String) :
    Option (List String) :=
  (map.lookup operation.id).or (map.lookup (upperCase method ++ " " ++ operation.template))

theorem scopeMapMisses_eq_nil {unit : JwtAuthUnit} {operation : ConfigOperation} {method : String}
    {map : List (String × List String)} {required : List String} (hmap : unit.scopeMap = some map)
    (htemplate : operation.template ≠ "") (hentry : scopeEntry map operation method = some required)
    (h : scopeMapMisses unit identity (some operation.id) method (some operation.template) = []) :
    ∀ scope ∈ required, scope ∈ identity.scopes := by
  have hfound : [operation.id, upperCase method ++ " " ++ operation.template].findSome?
      (fun key => map.lookup key) = some required := by
    rw [← hentry, scopeEntry, List.findSome?_cons, List.findSome?_cons, List.findSome?_nil]
    cases map.lookup operation.id with
    | some scopes => rfl
    | none => cases map.lookup (upperCase method ++ " " ++ operation.template) <;> rfl
  simp only [scopeMapMisses, hmap, Option.filter_some, htemplate, ne_eq, not_false_eq_true,
    decide_true, if_true, Option.map_some, Option.toList_some, List.singleton_append, hfound] at h
  intro scope hscope
  have hnot := List.filter_eq_nil_iff.mp h scope hscope
  simpa using hnot

theorem requiredScopes_of_verifyJwt {rt : Jwt.Runtime} {token : String} {unit : JwtAuthUnit}
    {issuer : ConfigIssuer} {jwks : Jwt.JwksCache} {nowMs askedAt : Nat}
    {answer : Option (List Jwt.JwkKey)}
    (h : verifyJwt rt token unit issuer jwks nowMs askedAt answer = .ok identity) :
    ∀ scope ∈ unit.requiredScopes.getD [], scope ∈ identity.scopes := by
  simp only [verifyJwt, bind_eq_ok, ensure_eq_ok, demand_eq_ok, pure_eq_ok, requireScopes_eq_ok] at h
  obtain ⟨_, _, _, _, _, _, _, _, _, _, _, _, _, _, _, hscopes, rfl⟩ := h
  exact hscopes

theorem requiredScopes_of_introspection {entry : Option IntrospectionEntry}
    {unit : IntrospectionAuthUnit} {issuer : ConfigIssuer} {nowMs : Nat}
    (h : checkIntrospection entry unit issuer nowMs = .ok identity) :
    ∀ scope ∈ unit.requiredScopes.getD [], scope ∈ identity.scopes := by
  simp only [checkIntrospection, bind_eq_ok, ensure_eq_ok, demand_eq_ok, pure_eq_ok,
    requireScopes_eq_ok] at h
  obtain ⟨_, _, _, _, _, _, _, _, _, hscopes, rfl⟩ := h
  exact hscopes

/-! ### Every gate -/

structure Gated (P : Platform) (gw : Gateway) (v : Verdicts) (req : Request) (j : Journey) : Prop where
  passed : Passed P gw v req j.admitted
  found : Found P gw req j.admitted.route j.resolved
  operationRate : checkOperationRate v j.admitted.route j.admitted.callers.subscription
    j.resolved.operation = .ok ()
  operationQuota : checkOperationQuota v j.admitted.route j.admitted.callers.subscription
    j.resolved.operation = .ok ()
  tokenScopes : ∀ unit identity, j.admitted.route.policy.jwt = some unit →
    j.admitted.callers.jwt = some identity →
    ∀ scope ∈ unit.requiredScopes.getD [], scope ∈ identity.scopes
  introspectionScopes : ∀ unit identity, j.admitted.route.policy.introspection = some unit →
    j.admitted.callers.introspection = some identity →
    ∀ scope ∈ unit.requiredScopes.getD [], scope ∈ identity.scopes
  operationScopes : ∀ unit map identity operation required, j.admitted.route.policy.jwt = some unit →
    unit.scopeMap = some map → j.admitted.callers.identity = some identity →
    j.resolved.operation = some operation → operation.template ≠ "" →
    scopeEntry map operation req.method = some required →
    ∀ scope ∈ required, scope ∈ identity.scopes

theorem checkScopes_eq_ok {identity : Option Identity} {operation : Option ConfigOperation}
    (h : checkScopes req route identity operation = .ok ()) :
    ∀ unit found, route.policy.jwt = some unit → identity = some found →
      scopeMapMisses unit found (operation.map (·.id)) req.method (operation.map (·.template)) = [] := by
  intro unit found hunit hfound
  unfold checkScopes at h
  rw [hunit, hfound] at h
  dsimp only at h
  split at h
  · assumption
  · cases h

theorem gated_of_handleRequest (P : Platform) (gw : Gateway) (v : Verdicts) (req : Request)
    (j : Journey) (h : handleRequest P gw v req = .ok j) : Gated P gw v req j := by
  simp only [handleRequest, bind_eq_ok, pure_eq_ok] at h
  obtain ⟨admitted, hadmitted, resolved, hresolved, _, hchecked, _, _, _, _, _, _, rfl⟩ := h
  have hpassed := of_admission P gw v req hadmitted
  simp only [checkOperation, bind_eq_ok] at hchecked
  obtain ⟨_, hscopes, _, hrate, hquota⟩ := hchecked
  refine
    { passed := hpassed
      found := of_resolve hresolved
      operationRate := hrate
      operationQuota := hquota
      tokenScopes := ?_
      introspectionScopes := ?_
      operationScopes := ?_ }
  · intro unit identity hunit hidentity
    obtain ⟨_, _, accepted, haccepted, _, _, hverified⟩ := hpassed.accepted.jwt unit hunit
    rw [haccepted] at hidentity
    cases hidentity
    exact requiredScopes_of_verifyJwt hverified
  · intro unit identity hunit hidentity
    obtain ⟨_, _, accepted, haccepted, _, _, hchecked⟩ := hpassed.accepted.introspection unit hunit
    rw [haccepted] at hidentity
    cases hidentity
    exact requiredScopes_of_introspection hchecked
  · intro unit map identity operation required hunit hmap hidentity hoperation htemplate hentry
    have hmisses := checkScopes_eq_ok hscopes unit identity hunit hidentity
    rw [hoperation] at hmisses
    exact scopeMapMisses_eq_nil hmap htemplate hentry hmisses

def keyedRoute : ConfigRoute :=
  Small.route
    { subscriptionKey := some ⟨.header, "x-api-key", none⟩
      ipAllow := some ["10.0.0.7/32"] }

theorem gated_of_small_request : ∃ j, Gated Small.platform (Small.gateway keyedRoute) Small.verdicts
    (Small.request "GET" [("x-api-key", "k-1")]) j := by
  have hsome : (handleRequest Small.platform (Small.gateway keyedRoute) Small.verdicts
      (Small.request "GET" [("x-api-key", "k-1")])).toOption.isSome = true := by
    decide +kernel
  cases hrun : handleRequest Small.platform (Small.gateway keyedRoute) Small.verdicts
      (Small.request "GET" [("x-api-key", "k-1")]) with
  | ok j => exact ⟨j, gated_of_handleRequest _ _ _ _ j hrun⟩
  | error stop =>
    rw [hrun] at hsome
    cases hsome

/-- The operation of a forwarded request is one of those the route declares, if it declares any. -/
def Declares (j : Journey) : Prop :=
  j.admitted.route.operations ≠ [] →
    ∃ operation ∈ j.admitted.route.operations, j.resolved.operation = some operation

def mcpRoute : ConfigRoute :=
  { Small.route { passthrough := some { sse := true } } with
    kind := .mcp
    operations := [⟨"tools/list", "POST", "/", some "tools/list", .noSchema⟩] }

theorem mcp_stream_without_operation :
    ¬ ∀ j, handleRequest Small.platform (Small.gateway mcpRoute) Small.verdicts
      (Small.request "GET" []) = .ok j → Declares j := by
  intro h
  have hrun : (handleRequest Small.platform (Small.gateway mcpRoute) Small.verdicts
      (Small.request "GET" [])).toOption.map (fun j => (j.admitted.route.operations.length,
        j.resolved.operation)) = some (1, none) := by
    decide +kernel
  cases hresult : handleRequest Small.platform (Small.gateway mcpRoute) Small.verdicts
      (Small.request "GET" []) with
  | error stop =>
    rw [hresult] at hrun
    cases hrun
  | ok j =>
    rw [hresult] at hrun
    obtain ⟨hlength, hnone⟩ := Prod.mk.inj (Option.some.inj hrun)
    obtain ⟨_, _, hsome⟩ := h j hresult (fun hnil => by rw [hnil] at hlength; cases hlength)
    rw [hnone] at hsome
    cases hsome

end

end Apim.DataPlane
