import Apim.DataPlane.Resolve

/-!
# What the contract says of a request

Step 12 of `handleRequest` (`data-plane/src/pipeline.ts:972-1180`): the artifact of the route, the
parameters, and the body as the state of the validation has it read, checked or sampled. What goes on
is the body that later steps send.
-/

namespace Apim.DataPlane

open Apim.Guard Apim.Overlay

section
variable (P : Platform) (gw : Gateway) (v : Verdicts) (req : Request)

def artifactFor (route : ConfigRoute) : Option ValidationArtifact :=
  route.artifact.bind gw.artifacts.lookup

def hasSchemas (operation : Option ConfigOperation) : Bool :=
  operation.any (·.schemaState = .ok)

def requestState (route : ConfigRoute) (operation : Option ConfigOperation) : ValidationState :=
  (effectiveValidate route operation).request.getD .blocking

def checkArtifact (route : ConfigRoute) (operation : Option ConfigOperation) : Except Stop Unit :=
  ensure (!(hasSchemas operation && (artifactFor gw route).isNone))
    (deny 503 ("this route's compiled validator is not available on this gateway instance, so the " ++
      "request cannot be validated and is refused rather than passed through unchecked")
      .validationUnavailable)

def checkParameters (route : ConfigRoute) (resolved : Resolved) : Except Stop Unit :=
  match artifactFor gw route, resolved.operation with
  | some artifact, some operation =>
    if (effectiveValidate route resolved.operation).headers ≠ some false ∧
        requestState route resolved.operation = .blocking then
      let result := validateParameters P.validators artifact operation.id resolved.pathParams
        req.search req.headers
      ensure result.ok (deny 400 (validationDetail result) .validationRejected)
    else .ok ()
  | _, _ => .ok ()

def wantsBodyValidation (route : ConfigRoute) (operation : Option ConfigOperation) : Bool :=
  (artifactFor gw route).isSome && hasSchemas operation &&
    (effectiveValidate route operation).body ≠ some false &&
    requestState route operation ≠ .disabled

def ConfigRoute.scanned (route : ConfigRoute) : Bool := route.kind = .rest

/-- `needsAlwaysScan || kafkaNeedsBody || (wantsBodyValidation && requestState === "blocking")`. -/
def buffers (route : ConfigRoute) (operation : Option ConfigOperation) : Bool :=
  (route.scanned && req.isJson) || (route.policy.kafkaProduce.isSome && req.isJson) ||
    (wantsBodyValidation gw route operation && requestState route operation = .blocking)

def bufferBody (route : ConfigRoute) (operation : Option ConfigOperation) (body : Body) :
    Except Stop Body :=
  match body with
  | .streamed stream =>
    if buffers gw req route operation then do
      ensure v.budgetFree
        (deny 503 ("this gateway is at its body-buffer ceiling; the request was shed rather than " ++
          "passed through without the checks its route requires") .validateBudget)
      let bytes ← demand (stream.readWhole (routeMaxBody gw route))
        (bodyTooLarge (routeMaxBody gw route))
      pure (.buffered bytes)
    else .ok body
  | _ => .ok body

def rejected (outcome : ValidationOutcome) : Stop :=
  deny 400 (validationDetail outcome) .validationRejected

def alwaysScan (route : ConfigRoute) (operation : Option ConfigOperation) (body : Body) :
    Except Stop Unit :=
  match body with
  | .buffered bytes =>
    if route.scanned && req.isJson && bytes ≠ [] then do
      let _ ← relabel (fun issue => rejected ⟨false, [issue], false, false⟩)
        (P.validators.readJson (jsonLimitsOf (effectiveValidate route operation)) bytes)
      pure ()
    else .ok ()
  | _ => .ok ()

def blockingCheck (route : ConfigRoute) (resolved : Resolved) (body : Body) : Except Stop Unit :=
  match artifactFor gw route, resolved.operation, body with
  | some artifact, some operation, .buffered bytes =>
    if wantsBodyValidation gw route resolved.operation ∧
        requestState route resolved.operation = .blocking then
      let outcome := validateRequestBody P.validators operation.id artifact bytes
        (req.headers.get "content-type") (effectiveValidate route resolved.operation)
      ensure outcome.ok (rejected outcome)
    else .ok ()
  | _, _, _ => .ok ()

/-- `teeBody` of a streamed body (`data-plane/src/pipeline.ts:2498-2522`): what is forwarded of it. -/
def teeBody (stream : Stream) (max : Nat) : Body :=
  match stream.readWhole max with
  | some bytes => .streamed (.ofBytes bytes)
  | none => .absent

def samples (route : ConfigRoute) (operation : Option ConfigOperation) : Bool :=
  wantsBodyValidation gw route operation && requestState route operation = .warning &&
    v.sampled ((declaredLength P req).getD 0)

def sampleBody (route : ConfigRoute) (operation : Option ConfigOperation) (body : Body) : Body :=
  match body with
  | .streamed stream =>
    if samples P gw v req route operation then teeBody stream (routeMaxBody gw route)
    else .streamed stream
  | body => body

/-- `MAX_LOGGED_BODY_BYTES` (`shared/config-doc.ts:47`). -/
def MAX_LOGGED_BODY_BYTES : Nat := 8 * 1024

def capturesBodies (route : ConfigRoute) : Bool := route.logBodiesUntil.any (v.now < ·)

def captureBody (route : ConfigRoute) (body : Body) : Except Stop Body :=
  match body with
  | .streamed stream =>
    if capturesBodies v route then do
      let (_, rest) ← demand (stream.takePrefix (MAX_LOGGED_BODY_BYTES + 1))
        (bodyTooLarge (routeMaxBody gw route))
      pure (.streamed rest)
    else .ok body
  | _ => .ok body

def checkRequest (route : ConfigRoute) (resolved : Resolved) : Except Stop Body := do
  checkArtifact gw route resolved.operation
  checkParameters P gw req route resolved
  let body ← bufferBody gw v req route resolved.operation resolved.body
  alwaysScan P req route resolved.operation body
  blockingCheck P gw req route resolved body
  captureBody gw v route (sampleBody P gw v req route resolved.operation body)

end

end Apim.DataPlane
