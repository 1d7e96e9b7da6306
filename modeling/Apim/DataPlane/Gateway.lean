import Apim.DataPlane.Identity
import Apim.DataPlane.Validate
import Apim.Shared.Opmatch

/-!
# A request and the gateway it meets

What `handleRequest` is given (`PipelineDeps`, `data-plane/src/pipeline.ts:308-390`). `Platform` has
what does not change between requests and is computed elsewhere: hashes, patterns, address ranges,
schemas, documents and texts. `Gateway` has the active configuration and what surrounds it, and
`Verdicts` what the counters, caches and endpoints that requests share answer this one.
-/

namespace Apim.DataPlane

open Apim.Guard Apim.Overlay

structure Request where
  method : String
  protocol : String
  path : String
  search : Query
  headers : Headers
  body : Option Stream

/-- A body that is read: only another method than `GET` and `HEAD` has one. -/
def Request.hasBody (req : Request) : Bool :=
  req.method ≠ "GET" && req.method ≠ "HEAD" && req.body.isSome

structure TemplateContext where
  subscription : Option ConfigSubscription
  identity : Option Identity
  certificate : Option ClientCertificate
  operation : Option ConfigOperation
  pathParams : Dict String String

/-- The `traceparent` for the backend, and whether it continues the caller's trace. -/
structure TraceContext where
  header : String
  continued : Bool
  deriving DecidableEq, Repr

structure Platform where
  crypto : Crypto
  jwt : Jwt.Runtime
  validators : Validators
  hashSubscriptionKey : String → String
  cnOf : String → String
  ipInCidr : String → String → Bool
  /-- `new RegExp(pattern).test(value)`, and whether a value is short enough to be tested. -/
  patternTest : String → String → Bool
  patternBounded : String → Bool
  numberOf : String → Option ℚ
  /-- `scanEnvelope` of the decoded prefix under a ceiling of elements: the child of the body. -/
  scanEnvelope : Bytes → Nat → Except String (Option String)
  actionParameter : Option String → Option String
  decodeUri : String → String
  encodeUri : String → String
  renderPathTemplate : String → Dict String String → String
  render : TemplateContext → String → String
  recordOf : Json → Bytes
  trace : Option String → TraceContext
  traceState : String → Option String

structure Gateway where
  routes : List ConfigRoute
  byKeyHash : Dict String ConfigSubscription
  references : ConfigReferences
  maxPrefixBytes : Nat
  maxElements : Nat
  artifacts : Dict String ValidationArtifact
  maxBodyBytes : Nat
  clientIp : String
  peerIp : Option String
  trustedPeer : Bool
  clientCertHeaders : CertificateHeaders
  requestId : String
  jwks : Jwt.JwksCache
  breaker : Backend.Breaker

inductive StreamAdmission where
  | ok
  | routeFull
  | instanceFull
  deriving DecidableEq, Repr

structure Verdicts where
  now : Nat
  jwksAnswer : Option (List Jwt.JwkKey)
  introspection : Option IntrospectionEntry
  rateAllowed : String → Nat → Nat → Bool
  /-- `quota.check(keyFor(subscription, scope, scopeId, periodSec), calls).allowed`. -/
  quotaAllowed : String → String → String → Nat → Nat → Bool
  budgetFree : Bool
  sampled : ℚ → Bool
  streams : StreamAdmission
  cursor : Nat
  cacheHit : Bool

/-- How a request ends without a backend: refused, answered by the gateway, or with an exception. -/
inductive Stop where
  | denied (denial : Denial)
  | answered (status : Nat) (outcome : Outcome)
  | threw
  deriving DecidableEq, Repr

def deny (status : Nat) (detail : String) (outcome : Outcome) : Stop := .denied ⟨status, detail, outcome⟩

def Refusal.stop : Refusal → Stop
  | .refused status detail => deny status detail .badCredential
  | .threw => .threw

def routeMaxBody (gw : Gateway) (route : ConfigRoute) : Nat :=
  min (((route.policy.validate.bind (·.always)).bind (·.maxBodyBytes)).getD gw.maxBodyBytes)
    gw.maxBodyBytes

def bodyTooLarge (max : Nat) : Stop :=
  deny 413 s!"body larger than {max} bytes (enforced while streaming)" .bodyTooLarge

def Stop.status : Stop → Option Nat
  | .denied denial => some denial.status
  | .answered status _ => some status
  | .threw => none

@[simp]
theorem status_deny (status : Nat) (detail : String) (outcome : Outcome) :
    (deny status detail outcome).status = some status := rfl

@[simp]
theorem status_bodyTooLarge (max : Nat) : (bodyTooLarge max).status = some 413 := rfl

def Request.isJson (req : Request) : Bool :=
  matchesMedia (mediaTypeOf (req.headers.get "content-type")) JSON_MEDIA

end Apim.DataPlane
