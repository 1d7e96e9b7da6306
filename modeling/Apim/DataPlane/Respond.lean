/-!
# What the gateway answers by itself

The outcome a request is counted under (`shared/telemetry.ts:16-88`) and a refusal: the status, the
sentence of the body and the outcome that `deny` is given (`data-plane/src/pipeline.ts:510-543`).
-/

namespace Apim.DataPlane

inductive Outcome where
  | ok
  | upstreamError
  | noRoute
  | noConfig
  | decommissioned
  | noKey
  | badKey
  | notInProduct
  | rateLimited
  | precondition
  | contentType
  | soapMismatch
  | bodyTooLarge
  | backendTimeout
  | backendUnreachable
  | routeSaturated
  | instanceSaturated
  | clientGone
  | validationRejected
  | validationUnavailable
  | validateBudget
  | quotaExceeded
  | poolOpen
  | ipDenied
  | badCredential
  | rpcUnknownMethod
  | noOperation
  | rpcError
  | cacheHit
  | upgradeRejected
  | upgradeSaturated
  | streamClosed
  | routeMisconfigured
  deriving DecidableEq, Repr

structure Denial where
  status : Nat
  detail : String
  outcome : Outcome
  deriving DecidableEq, Repr

end Apim.DataPlane
