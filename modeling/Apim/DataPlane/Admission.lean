import Apim.DataPlane.Gateway

/-!
# Who is let in

Steps 1 to 10 of `handleRequest` (`data-plane/src/pipeline.ts:545-760`): the route, the limits, the
client address, the callers of its units, the counters and the preconditions. `Passed` says what a
request has met that gets to its body, and `of_admission` that every one has.
-/

namespace Apim.DataPlane

open Apim.Guard Apim.Overlay

section
variable (P : Platform) (gw : Gateway) (v : Verdicts) (req : Request)

/-! ### Steps 3 to 5 -/

def declaredLength : Option ℚ := P.numberOf ((req.headers.get "content-length").getD "0")

def ceilingName (route : ConfigRoute) : String :=
  if routeMaxBody gw route = gw.maxBodyBytes then "this gateway's ceiling"
  else "this route's validate.always ceiling"

def gotMedia (media : String) : String := if media = "" then "nothing" else media

def checkLimits (route : ConfigRoute) : Except Stop Unit := do
  ensure ((declaredLength P req).all fun length => length ≤ (routeMaxBody gw route : ℚ))
    (deny 413 s!"body larger than {routeMaxBody gw route} bytes ({ceilingName gw route})"
      .bodyTooLarge)
  let allowed := ((route.policy.validate.bind (·.always)).bind (·.contentType)).getD []
  let media := mediaTypeOf (req.headers.get "content-type")
  let types := " or ".intercalate allowed
  ensure (!req.hasBody || allowed.isEmpty || matchesMedia media allowed)
    (deny 415 s!"this route accepts only {types} (got \"{gotMedia media}\")"
      .contentType)

def ipAllowed (route : ConfigRoute) : Bool :=
  match route.policy.ipAllow with
  | none => true
  | some allowed => allowed.isEmpty || allowed.any (P.ipInCidr gw.clientIp)

def checkIp (route : ConfigRoute) : Except Stop Unit :=
  ensure (ipAllowed P gw route)
    (deny 403 "this client address is not allowed to call this API" .ipDenied)

def isPreflight (route : ConfigRoute) : Bool :=
  route.policy.cors && req.method = "OPTIONS" &&
    ((req.headers.get "access-control-request-method").getD "") ≠ ""

def asksCard (route : ConfigRoute) : Bool :=
  match route.a2a with
  | none => false
  | some a2a => req.path = a2a.cardPath && req.method = "GET"

def cardPublic (route : ConfigRoute) : Bool :=
  match route.a2a with
  | none => false
  | some a2a => a2a.cardPublic

/-! ### Steps 6 and 7 -/

def KeyLocation.text : KeyLocation → String
  | .header => "header"
  | .query => "query"

def presentedKey (unit : SubscriptionKeyUnit) : Option String :=
  match unit.location with
  | .header => req.headers.get unit.name
  | .query => req.search.get unit.name

def authenticateKey (route : ConfigRoute) (unit : SubscriptionKeyUnit) :
    Except Stop ConfigSubscription := do
  let presented ← demand ((presentedKey req unit).filter (· ≠ ""))
    (deny 401 s!"a subscription key is required in the {unit.name} {unit.location.text}" .noKey)
  let subscription ← demand (gw.byKeyHash.lookup (P.hashSubscriptionKey presented))
    (deny 401 "unknown or revoked subscription key" .badKey)
  ensure (route.productIds.contains subscription.productId)
    (deny 403 "this subscription's product does not contain this API" .notInProduct)
  pure subscription

def authenticateBasic (unit : BasicAuthUnit) : Except Stop Identity :=
  relabel Refusal.stop
    (verifyBasic P.crypto (req.headers.get "authorization") unit gw.references)

def presentedToken (headerName scheme : String) : Except Stop String :=
  demand ((bearerToken req.headers headerName scheme).filter (· ≠ ""))
    (deny 401 "a bearer token is required" .badCredential)

def issuerOf (ref : String) : Except Stop ConfigIssuer :=
  demand (gw.references.issuers.lookup ref)
    (deny 503 s!"the issuer \"{ref}\" is not configured on this gateway" .badCredential)

def authenticateJwt (unit : JwtAuthUnit) : Except Stop Identity := do
  let issuer ← issuerOf gw unit.issuerRef
  let token ← presentedToken req (unit.headerName.getD "authorization") (unit.scheme.getD "Bearer")
  relabel Refusal.stop (verifyJwt P.jwt token unit issuer gw.jwks v.now v.now v.jwksAnswer)

def authenticateIntrospection (unit : IntrospectionAuthUnit) : Except Stop Identity := do
  let issuer ← issuerOf gw unit.issuerRef
  let _ ← presentedToken req "authorization" "Bearer"
  relabel Refusal.stop (checkIntrospection v.introspection unit issuer v.now)

def clientCertificate : Option ClientCertificate :=
  if gw.trustedPeer then readCertificate P.cnOf req.headers gw.clientCertHeaders else none

def authenticateMtls (unit : MtlsAuthUnit) : Except Stop Identity :=
  relabel Refusal.stop (verifyMtls (clientCertificate P gw req) unit)

structure Callers where
  subscription : Option ConfigSubscription
  basic : Option Identity
  jwt : Option Identity
  introspection : Option Identity
  mtls : Option Identity

def Callers.identity (callers : Callers) : Option Identity :=
  callers.mtls.or (callers.introspection.or (callers.jwt.or callers.basic))

def authenticate (route : ConfigRoute) : Except Stop Callers := do
  let subscription ← given route.policy.subscriptionKey (authenticateKey P gw req route)
  let basic ← given route.policy.basic (authenticateBasic P gw req)
  let jwt ← given route.policy.jwt (authenticateJwt P gw v req)
  let introspection ← given route.policy.introspection (authenticateIntrospection gw v req)
  let mtls ← given route.policy.mtls (authenticateMtls P gw req)
  pure ⟨subscription, basic, jwt, introspection, mtls⟩

/-! ### Steps 8 to 10 -/

def RateScope.text : RateScope → String
  | .route => "route"
  | .product => "product"

def scopeId (route : ConfigRoute) (unit : CountUnit) (subscription : ConfigSubscription) : String :=
  match unit.scope with
  | .route => route.resourceId
  | .product => subscription.productId

def checkRate (route : ConfigRoute) (subscription : Option ConfigSubscription) : Except Stop Unit :=
  match route.policy.rateLimit, subscription with
  | some unit, some subscription =>
    ensure (v.rateAllowed
        (subscription.id ++ "|" ++ unit.scope.text ++ "|" ++ scopeId route unit subscription)
        unit.calls unit.periodSec)
      (deny 429 s!"rate limit of {unit.calls} calls per {unit.periodSec}s exceeded for this subscription"
        .rateLimited)
  | _, _ => .ok ()

def checkQuota (route : ConfigRoute) (subscription : Option ConfigSubscription) : Except Stop Unit :=
  match route.policy.quota, subscription with
  | some unit, some subscription =>
    ensure (v.quotaAllowed subscription.id unit.scope.text (scopeId route unit subscription)
        unit.periodSec unit.calls)
      (deny 403 (s!"the fleet quota of {unit.calls} calls per {unit.periodSec}s is exhausted " ++
        "for this subscription") .quotaExceeded)
  | _, _ => .ok ()

/-- `valueMatches` (`data-plane/src/pipeline.ts:139-159`). -/
def valueMatches (check : ValueCheck) (value : Option String) : Bool :=
  match value with
  | none => false
  | some value =>
    if check.present then true
    else
      match check.equals, check.credentialRef, check.pattern with
      | some expected, _, _ => value = expected
      | none, some ref, _ => secretMatches P.crypto value ref gw.references
      | none, none, some pattern => P.patternBounded value && P.patternTest pattern value
      | none, none, none => false

/-- `precondition` (`data-plane/src/pipeline.ts:2000-2027`): the first requirement of a rule. -/
def precondition (rule : PreconditionRule) : Bool :=
  match rule.requireHeader, rule.requireQuery, rule.requireOperation, rule.requireClientCert with
  | some check, _, _, _ => valueMatches P gw check (req.headers.get check.name)
  | none, some check, _, _ => valueMatches P gw check (req.search.get check.name)
  | none, none, some methods, _ => methods.any fun method => upperCase method = upperCase req.method
  | none, none, none, some check =>
    match clientCertificate P gw req with
    | none => false
    | some certificate =>
      certificate.verified && allowedBy check.issuers [certificate.issuer] &&
        allowedBy check.subjectCns [certificate.cn] && allowedBy check.sans certificate.sans
  | none, none, none, none => false

/-! ### The steps in order -/

structure Admitted where
  route : ConfigRoute
  callers : Callers

def admission : Except Stop Admitted := do
  let route ← demand (matchRoute gw.routes (req.headers.get "host") req.path)
    (deny 404 "no published route matches this host and path" .noRoute)
  checkLimits P gw req route
  checkIp P gw route
  ensure (!isPreflight req route) (.answered 204 .ok)
  ensure (!(asksCard req route && cardPublic route)) (.answered 200 .ok)
  let callers ← authenticate P gw v req route
  ensure (!asksCard req route) (.answered 200 .ok)
  checkRate v route callers.subscription
  checkQuota v route callers.subscription
  each route.policy.preconditions fun rule =>
    ensure (precondition P gw req rule) (.answered rule.denyStatus .precondition)
  pure ⟨route, callers⟩

/-! ### What a request has met -/

structure Accepted (route : ConfigRoute) (callers : Callers) : Prop where
  key : ∀ unit, route.policy.subscriptionKey = some unit → ∃ presented subscription,
    presentedKey req unit = some presented ∧
      gw.byKeyHash.lookup (P.hashSubscriptionKey presented) = some subscription ∧
      subscription.productId ∈ route.productIds ∧ callers.subscription = some subscription
  basic : ∀ unit, route.policy.basic = some unit → ∃ identity, callers.basic = some identity ∧
    verifyBasic P.crypto (req.headers.get "authorization") unit gw.references = .ok identity
  jwt : ∀ unit, route.policy.jwt = some unit → ∃ issuer token identity,
    callers.jwt = some identity ∧ gw.references.issuers.lookup unit.issuerRef = some issuer ∧
      bearerToken req.headers (unit.headerName.getD "authorization") (unit.scheme.getD "Bearer") =
        some token ∧
      verifyJwt P.jwt token unit issuer gw.jwks v.now v.now v.jwksAnswer = .ok identity
  introspection : ∀ unit, route.policy.introspection = some unit → ∃ issuer token identity,
    callers.introspection = some identity ∧
      gw.references.issuers.lookup unit.issuerRef = some issuer ∧
      bearerToken req.headers "authorization" "Bearer" = some token ∧
      checkIntrospection v.introspection unit issuer v.now = .ok identity
  mtls : ∀ unit, route.policy.mtls = some unit → ∃ identity, callers.mtls = some identity ∧
    verifyMtls (clientCertificate P gw req) unit = .ok identity

theorem presentedToken_eq_ok {headerName scheme token : String}
    (h : presentedToken req headerName scheme = .ok token) :
    bearerToken req.headers headerName scheme = some token := by
  obtain ⟨htoken, _⟩ := Option.filter_eq_some_iff.mp (demand_eq_ok.mp h)
  exact htoken

theorem of_authenticateKey {route : ConfigRoute} {unit : SubscriptionKeyUnit}
    {subscription : ConfigSubscription}
    (h : authenticateKey P gw req route unit = .ok subscription) :
    ∃ presented, presentedKey req unit = some presented ∧
      gw.byKeyHash.lookup (P.hashSubscriptionKey presented) = some subscription ∧
      subscription.productId ∈ route.productIds := by
  simp only [authenticateKey, bind_eq_ok, demand_eq_ok, ensure_eq_ok, pure_eq_ok] at h
  obtain ⟨presented, hpresented, found, hfound, _, hproduct, rfl⟩ := h
  exact ⟨presented, (Option.filter_eq_some_iff.mp hpresented).1, hfound,
    List.contains_iff_mem.mp hproduct⟩

theorem of_authenticateJwt {unit : JwtAuthUnit} {identity : Identity}
    (h : authenticateJwt P gw v req unit = .ok identity) :
    ∃ issuer token, gw.references.issuers.lookup unit.issuerRef = some issuer ∧
      bearerToken req.headers (unit.headerName.getD "authorization") (unit.scheme.getD "Bearer") =
        some token ∧
      verifyJwt P.jwt token unit issuer gw.jwks v.now v.now v.jwksAnswer = .ok identity := by
  simp only [authenticateJwt, bind_eq_ok, issuerOf, demand_eq_ok, relabel_eq_ok] at h
  obtain ⟨issuer, hissuer, token, htoken, hverified⟩ := h
  exact ⟨issuer, token, hissuer, presentedToken_eq_ok req htoken, hverified⟩

theorem of_authenticateIntrospection {unit : IntrospectionAuthUnit} {identity : Identity}
    (h : authenticateIntrospection gw v req unit = .ok identity) :
    ∃ issuer token, gw.references.issuers.lookup unit.issuerRef = some issuer ∧
      bearerToken req.headers "authorization" "Bearer" = some token ∧
      checkIntrospection v.introspection unit issuer v.now = .ok identity := by
  simp only [authenticateIntrospection, bind_eq_ok, issuerOf, demand_eq_ok, relabel_eq_ok] at h
  obtain ⟨issuer, hissuer, token, htoken, hverified⟩ := h
  exact ⟨issuer, token, hissuer, presentedToken_eq_ok req htoken, hverified⟩

theorem of_authenticate {route : ConfigRoute} {callers : Callers}
    (h : authenticate P gw v req route = .ok callers) : Accepted P gw v req route callers := by
  simp only [authenticate, bind_eq_ok, pure_eq_ok] at h
  obtain ⟨subscription, hkey, basic, hbasic, jwt, hjwt, introspection, hintrospection, mtls, hmtls,
    rfl⟩ := h
  constructor
  · intro unit hunit
    obtain ⟨found, rfl, hchecked⟩ := (of_given hkey).1 unit hunit
    obtain ⟨presented, hpresented, hlookup, hproduct⟩ := of_authenticateKey P gw req hchecked
    exact ⟨presented, found, hpresented, hlookup, hproduct, rfl⟩
  · intro unit hunit
    obtain ⟨identity, rfl, hchecked⟩ := (of_given hbasic).1 unit hunit
    exact ⟨identity, rfl, relabel_eq_ok.mp hchecked⟩
  · intro unit hunit
    obtain ⟨identity, rfl, hchecked⟩ := (of_given hjwt).1 unit hunit
    obtain ⟨issuer, token, hissuer, htoken, hverified⟩ := of_authenticateJwt P gw v req hchecked
    exact ⟨issuer, token, identity, rfl, hissuer, htoken, hverified⟩
  · intro unit hunit
    obtain ⟨identity, rfl, hchecked⟩ := (of_given hintrospection).1 unit hunit
    obtain ⟨issuer, token, hissuer, htoken, hverified⟩ :=
      of_authenticateIntrospection gw v req hchecked
    exact ⟨issuer, token, identity, rfl, hissuer, htoken, hverified⟩
  · intro unit hunit
    obtain ⟨identity, rfl, hchecked⟩ := (of_given hmtls).1 unit hunit
    exact ⟨identity, rfl, relabel_eq_ok.mp hchecked⟩

structure Passed (admitted : Admitted) : Prop where
  routed : matchRoute gw.routes (req.headers.get "host") req.path = some admitted.route
  address : ipAllowed P gw admitted.route = true
  accepted : Accepted P gw v req admitted.route admitted.callers
  rate : checkRate v admitted.route admitted.callers.subscription = .ok ()
  quota : checkQuota v admitted.route admitted.callers.subscription = .ok ()
  preconditions : ∀ rule ∈ admitted.route.policy.preconditions, precondition P gw req rule = true

theorem of_admission {admitted : Admitted} (h : admission P gw v req = .ok admitted) :
    Passed P gw v req admitted := by
  simp only [admission, bind_eq_ok, demand_eq_ok, ensure_eq_ok, each_eq_ok, pure_eq_ok] at h
  obtain ⟨route, hroute, _, _, _, hip, _, _, _, _, callers, hcallers, _, _, _, hrate, _, hquota, _,
    hpreconditions, rfl⟩ := h
  exact ⟨hroute, ensure_eq_ok.mp hip, of_authenticate P gw v req hcallers, hrate, hquota,
    hpreconditions⟩

end

end Apim.DataPlane
