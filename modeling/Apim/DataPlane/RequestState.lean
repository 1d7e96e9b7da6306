import Apim.DataPlane.Forward

/-!
# One configuration under two request states

A gateway whose routes and operations all have the same `validate.request`, every other setting being
their own. Of the pipeline only step 12 reads the state, so each other step does under the new state
what it does under the configured one.
-/

namespace Apim.DataPlane

open Apim.Guard Apim.Overlay

/-! ### The configuration -/

def ValidateUnit.withRequest (unit : ValidateUnit) (state : ValidationState) : ValidateUnit :=
  { unit with request := some state }

def OperationUnits.withRequest (units : OperationUnits) (state : ValidationState) : OperationUnits :=
  { units with validate := units.validate.map (·.withRequest state) }

def PolicyDocument.withRequest (policy : PolicyDocument) (state : ValidationState) : PolicyDocument :=
  { policy with
    validate := some ((policy.validate.getD {}).withRequest state)
    operations := mapValues (·.withRequest state) policy.operations }

def ConfigRoute.withRequest (route : ConfigRoute) (state : ValidationState) : ConfigRoute :=
  { route with policy := route.policy.withRequest state }

def Gateway.withRequest (gw : Gateway) (state : ValidationState) : Gateway :=
  { gw with routes := gw.routes.map (·.withRequest state) }

def Admitted.withRequest (admitted : Admitted) (state : ValidationState) : Admitted :=
  { admitted with route := admitted.route.withRequest state }

section
variable (P : Platform) (gw : Gateway) (v : Verdicts) (req : Request) (route : ConfigRoute)
  (state : ValidationState)

/-! ### What the steps read of a route -/

theorem always_withRequest : (route.withRequest state).policy.validate.bind (·.always) =
    route.policy.validate.bind (·.always) := by
  have h : (route.withRequest state).policy.validate =
      some ((route.policy.validate.getD {}).withRequest state) := rfl
  rw [h]
  cases route.policy.validate <;> rfl

theorem routeMaxBody_withRequest :
    routeMaxBody (gw.withRequest state) (route.withRequest state) = routeMaxBody gw route := by
  unfold routeMaxBody
  rw [always_withRequest]
  rfl

theorem operationUnits_withRequest (operation : Option ConfigOperation) :
    operationUnits (route.withRequest state).policy operation =
      (operationUnits route.policy operation).withRequest state := by
  have hoperations : (route.withRequest state).policy.operations =
      mapValues (·.withRequest state) route.policy.operations := rfl
  unfold operationUnits
  cases operation with
  | none => rfl
  | some operation =>
    dsimp only
    rw [hoperations, lookup_mapValues]
    split
    · rfl
    · cases route.policy.operations.lookup operation.id <;> rfl

theorem effectiveValidate_withRequest (operation : Option ConfigOperation) :
    effectiveValidate (route.withRequest state) operation =
      (effectiveValidate route operation).withRequest state := by
  have hroute : (route.withRequest state).validate = route.validate.withRequest state := rfl
  unfold effectiveValidate
  rw [operationUnits_withRequest, hroute]
  unfold OperationUnits.withRequest
  cases (operationUnits route.policy operation).validate <;> rfl

theorem requestState_withRequest (operation : Option ConfigOperation) :
    requestState (route.withRequest state) operation = state := by
  unfold requestState
  rw [effectiveValidate_withRequest]
  rfl

theorem cacheUnit_withRequest (operation : Option ConfigOperation) :
    cacheUnit (route.withRequest state) operation = cacheUnit route operation := by
  unfold cacheUnit
  rw [operationUnits_withRequest]
  rfl

theorem passCompressed_withRequest (operation : Option ConfigOperation) :
    passCompressed v req (route.withRequest state) operation =
      passCompressed v req route operation := by
  unfold passCompressed
  rw [effectiveValidate_withRequest, cacheUnit_withRequest]
  rfl

theorem matchRoute_withRequest (routes : List ConfigRoute) (host : Option String) (path : String) :
    matchRoute (routes.map (·.withRequest state)) host path =
      (matchRoute routes host path).map (·.withRequest state) := by
  unfold matchRoute
  dsimp only
  rw [List.filter_map, List.find?_map, List.find?_map, ← Option.map_or]
  rfl

/-! ### Steps 1 to 11 -/

theorem checkLimits_withRequest :
    checkLimits P (gw.withRequest state) req (route.withRequest state) = checkLimits P gw req route := by
  have hceiling : ceilingName (gw.withRequest state) (route.withRequest state) =
      ceilingName gw route := by
    unfold ceilingName
    rw [routeMaxBody_withRequest]
    rfl
  unfold checkLimits
  rw [routeMaxBody_withRequest, always_withRequest, hceiling]

theorem admission_withRequest : admission P (gw.withRequest state) v req =
    (admission P gw v req).map (·.withRequest state) := by
  have hroutes : (gw.withRequest state).routes = gw.routes.map (·.withRequest state) := rfl
  unfold admission
  rw [hroutes, matchRoute_withRequest]
  cases matchRoute gw.routes (req.headers.get "host") req.path with
  | none => rfl
  | some route =>
    simp only [Option.map_some, demand_some, ok_bind, checkLimits_withRequest, map_bind]
    rfl

theorem resolveSoap_withRequest (soap : ConfigSoap) (stream : Stream) :
    resolveSoap P (gw.withRequest state) req (route.withRequest state) soap stream =
      resolveSoap P gw req route soap stream := by
  unfold resolveSoap
  rw [routeMaxBody_withRequest]
  rfl

theorem resolveRpc_withRequest (body : Body) :
    resolveRpc P (gw.withRequest state) req (route.withRequest state) body =
      resolveRpc P gw req route body := by
  have hread : readBody (gw.withRequest state) (route.withRequest state) body =
      readBody gw route body := by
    unfold readBody
    rw [routeMaxBody_withRequest]
  unfold resolveRpc
  rw [hread]
  rfl

theorem resolve_withRequest :
    resolve P (gw.withRequest state) req (route.withRequest state) = resolve P gw req route := by
  unfold resolve
  simp only [routeMaxBody_withRequest, resolveSoap_withRequest, resolveRpc_withRequest]
  rfl

theorem checkOperation_withRequest (admitted : Admitted) (operation : Option ConfigOperation) :
    checkOperation req v (admitted.withRequest state) operation =
      checkOperation req v admitted operation := by
  have hunits : operationUnits (admitted.withRequest state).route.policy operation =
      (operationUnits admitted.route.policy operation).withRequest state :=
    operationUnits_withRequest admitted.route state operation
  unfold checkOperation checkOperationRate checkOperationQuota
  rw [hunits]
  rfl

/-! ### Steps 13 to 16 -/

theorem prepare_withRequest (admitted : Admitted) (resolved : Resolved) (body : Body) :
    prepare P (gw.withRequest state) v req (admitted.withRequest state) resolved body =
      prepare P gw v req admitted resolved body := by
  have hlimits : jsonLimitsOf
      (effectiveValidate (admitted.route.withRequest state) resolved.operation) =
      jsonLimitsOf (effectiveValidate admitted.route resolved.operation) := by
    rw [effectiveValidate_withRequest]
    rfl
  have htarget : target P req (admitted.withRequest state).route resolved body =
      target P req admitted.route resolved body := by
    unfold target kafkaRecord Admitted.withRequest
    rw [hlimits]
    rfl
  have hcompressed : passCompressed v req (admitted.withRequest state).route resolved.operation =
      passCompressed v req admitted.route resolved.operation :=
    passCompressed_withRequest v req admitted.route state resolved.operation
  unfold prepare
  simp only [htarget, hcompressed]
  rfl

theorem handOver_withRequest (operation : Option ConfigOperation) (request : Upstream) :
    handOver (gw.withRequest state) v req (route.withRequest state) operation request =
      handOver gw v req route operation request := by
  have hcall : callOf (gw.withRequest state) (route.withRequest state) operation request =
      callOf gw route operation request := by
    unfold callOf
    rw [routeMaxBody_withRequest, operationUnits_withRequest]
    rfl
  unfold handOver
  rw [hcall, cacheUnit_withRequest]
  rfl

/-! ### Step 12, where nothing blocks -/

def beforeSample : Except Stop (Admitted × Resolved × Body) := do
  let admitted ← admission P gw v req
  let resolved ← resolve P gw req admitted.route
  checkOperation req v admitted resolved.operation
  checkArtifact gw admitted.route resolved.operation
  let body ← bufferBody (gw.withRequest .disabled) v req (admitted.route.withRequest .disabled)
    resolved.operation resolved.body
  alwaysScan P req admitted.route resolved.operation body
  pure (admitted, resolved, body)

def afterSample (admitted : Admitted) (resolved : Resolved) (body : Body) : Except Stop Sent := do
  let checked ← captureBody gw v admitted.route body
  let request ← prepare P gw v req admitted resolved checked
  handOver gw v req admitted.route resolved.operation request

def outcome : Except Stop Sent := (handleRequest P gw v req).map Journey.sent

theorem checkParameters_of_ne_blocking (hstate : state ≠ .blocking) (resolved : Resolved) :
    checkParameters P (gw.withRequest state) req (route.withRequest state) resolved = .ok () := by
  unfold checkParameters
  rw [requestState_withRequest]
  split
  · rw [if_neg fun h => hstate h.2]
  · rfl

theorem blockingCheck_of_ne_blocking (hstate : state ≠ .blocking) (resolved : Resolved)
    (body : Body) :
    blockingCheck P (gw.withRequest state) req (route.withRequest state) resolved body = .ok () := by
  unfold blockingCheck
  rw [requestState_withRequest]
  split
  · rw [if_neg fun h => hstate h.2]
  · rfl

theorem buffers_of_ne_blocking (hstate : state ≠ .blocking) (operation : Option ConfigOperation) :
    buffers (gw.withRequest state) req (route.withRequest state) operation =
      ((route.scanned && req.isJson) || (route.policy.kafkaProduce.isSome && req.isJson)) := by
  unfold buffers
  rw [requestState_withRequest, decide_eq_false hstate, Bool.and_false, Bool.or_false]
  rfl

theorem bufferBody_of_ne_blocking (hstate : state ≠ .blocking) (operation : Option ConfigOperation)
    (body : Body) :
    bufferBody (gw.withRequest state) v req (route.withRequest state) operation body =
      bufferBody (gw.withRequest .disabled) v req (route.withRequest .disabled) operation body := by
  have hdisabled : ValidationState.disabled ≠ .blocking := nofun
  unfold bufferBody
  rw [routeMaxBody_withRequest, routeMaxBody_withRequest, buffers_of_ne_blocking gw req route state hstate,
    buffers_of_ne_blocking gw req route .disabled hdisabled]

theorem alwaysScan_withRequest (operation : Option ConfigOperation) (body : Body) :
    alwaysScan P req (route.withRequest state) operation body =
      alwaysScan P req route operation body := by
  unfold alwaysScan
  rw [effectiveValidate_withRequest]
  rfl

theorem captureBody_withRequest (body : Body) :
    captureBody (gw.withRequest state) v (route.withRequest state) body =
      captureBody gw v route body := by
  unfold captureBody
  rw [routeMaxBody_withRequest]
  rfl

theorem checkRequest_withRequest (hstate : state ≠ .blocking) (resolved : Resolved) :
    checkRequest P (gw.withRequest state) v req (route.withRequest state) resolved = (do
      checkArtifact gw route resolved.operation
      let body ← bufferBody (gw.withRequest .disabled) v req (route.withRequest .disabled)
        resolved.operation resolved.body
      alwaysScan P req route resolved.operation body
      captureBody gw v route (sampleBody P (gw.withRequest state) v req (route.withRequest state)
        resolved.operation body)) := by
  have hartifact : checkArtifact (gw.withRequest state) (route.withRequest state) resolved.operation =
      checkArtifact gw route resolved.operation := rfl
  unfold checkRequest
  rw [hartifact, checkParameters_of_ne_blocking P gw req route state hstate,
    bufferBody_of_ne_blocking gw v req route state hstate]
  simp only [ok_bind, alwaysScan_withRequest, captureBody_withRequest,
    blockingCheck_of_ne_blocking P gw req route state hstate]

theorem outcome_withRequest (hstate : state ≠ .blocking) :
    outcome P (gw.withRequest state) v req = beforeSample P gw v req >>= fun found =>
      afterSample P gw v req found.1 found.2.1 (sampleBody P (gw.withRequest state) v req
        (found.1.route.withRequest state) found.2.1.operation found.2.2) := by
  unfold outcome handleRequest beforeSample
  rw [admission_withRequest]
  cases admission P gw v req with
  | error stop => rfl
  | ok admitted =>
    have hroute : (admitted.withRequest state).route = admitted.route.withRequest state := rfl
    simp only [Except.map, ok_bind, hroute, resolve_withRequest]
    cases resolve P gw req admitted.route with
    | error stop => rfl
    | ok resolved =>
      simp only [ok_bind, checkOperation_withRequest]
      cases checkOperation req v admitted resolved.operation with
      | error stop => rfl
      | ok =>
        rw [ok_bind, ok_bind, checkRequest_withRequest P gw v req admitted.route state hstate]
        simp only [prepare_withRequest, handOver_withRequest]
        cases checkArtifact gw admitted.route resolved.operation with
        | error stop => rfl
        | ok =>
          rw [ok_bind, ok_bind]
          cases bufferBody (gw.withRequest .disabled) v req (admitted.route.withRequest .disabled)
              resolved.operation resolved.body with
          | error stop => rfl
          | ok body =>
            rw [ok_bind, ok_bind]
            cases alwaysScan P req admitted.route resolved.operation body with
            | error stop => rfl
            | ok =>
              simp only [ok_bind, pure, Except.pure, afterSample]
              cases captureBody gw v admitted.route (sampleBody P (gw.withRequest state) v req
                  (admitted.route.withRequest state) resolved.operation body) with
              | error stop => rfl
              | ok checked =>
                rw [ok_bind, ok_bind]
                cases prepare P gw v req admitted resolved checked with
                | error stop => rfl
                | ok request =>
                  rw [ok_bind, ok_bind]
                  cases handOver gw v req admitted.route resolved.operation request <;> rfl

end

end Apim.DataPlane
