import Apim.DataPlane.BodyContract
import Apim.DataPlane.RequestState

/-!
# A request under `warning` and under `disabled`

Both runs of a request are the same but for the sample, which `teeBody` reads from a streamed body
whole. Of a body that goes over the cap or breaks off nothing is put back: the run under `warning`
then goes on without a body, where the one under `disabled` has the stream that fails.
-/

namespace Apim.DataPlane

open Apim.Guard Apim.Overlay

/-! ### What the backend and the caller see of a run -/

def Body.Same (b b' : Body) : Prop :=
  match b, b' with
  | .streamed s, .streamed t => s.Same t
  | b, b' => b = b'

structure Upstream.Same (r r' : Upstream) : Prop where
  method : r.method = r'.method
  path : r.path = r'.path
  query : r.query = r'.query
  headers : r.headers = r'.headers
  body : r.body.Same r'.body

def Sent.Same (s s' : Sent) : Prop :=
  match s, s' with
  | .upgrade backend request, .upgrade backend' request' =>
    backend = backend' ∧ request.path = request'.path ∧ request.query = request'.query ∧
      request.headers = request'.headers
  | .proxy call request, .proxy call' request' => call = call' ∧ request.Same request'
  | _, _ => False

def SameOutcome (x y : Except Stop Sent) : Prop :=
  match x, y with
  | .ok s, .ok s' => s.Same s'
  | .error stop, .error stop' => stop = stop'
  | _, _ => False

theorem Body.Same.rfl' {b : Body} : b.Same b := by
  cases b with
  | absent => rfl
  | buffered bytes => rfl
  | streamed s => exact ⟨rfl, rfl⟩

theorem SameOutcome.refl (x : Except Stop Sent) : SameOutcome x x := by
  cases x with
  | error stop => rfl
  | ok sent =>
    cases sent with
    | upgrade backend request => exact ⟨rfl, rfl, rfl, rfl⟩
    | proxy call request => exact ⟨rfl, rfl, rfl, rfl, rfl, .rfl'⟩

variable {route : ConfigRoute} {t stream : Stream} {admitted : Admitted} {resolved : Resolved}

section
variable {P : Platform} {gw : Gateway} {v : Verdicts} {req : Request}

/-! ### From the sample on -/

def proxied (v : Verdicts) (req : Request) (route : ConfigRoute)
    (operation : Option ConfigOperation) : Bool :=
  route.policy.kafkaProduce.isNone && !isUpgrade req route &&
    !(cacheUnit route operation && isCacheable req.method && v.cacheHit)

def send (P : Platform) (gw : Gateway) (v : Verdicts) (req : Request) (admitted : Admitted)
    (resolved : Resolved) (body : Body) : Except Stop Sent := do
  let request ← prepare P gw v req admitted resolved body
  handOver gw v req admitted.route resolved.operation request

theorem kafkaRecord_of_not_json (P : Platform) (route : ConfigRoute) (resolved : Resolved)
    (clusterId : String) (hjson : req.isJson = false) : ∃ stop, stop.status ≠ some 413 ∧
      ∀ body, kafkaRecord P req route resolved body clusterId = .error stop := by
  unfold kafkaRecord
  rw [hjson]
  cases (resolved.operation.bind fun _ => resolved.pathParams.lookup "topic").filter (· ≠ "") with
  | none => exact ⟨deny 500 _ .routeMisconfigured, by simp, fun _ => rfl⟩
  | some topic => exact ⟨deny 415 _ .contentType, by simp, fun _ => rfl⟩

theorem send_cases (admitted : Admitted) (resolved : Resolved)
    (hunread : (admitted.route.policy.kafkaProduce.isSome && req.isJson) = false) :
    (proxied v req admitted.route resolved.operation = false ∧ ∃ stop, stop.status ≠ some 413 ∧
      ∀ body, send P gw v req admitted resolved body = .error stop) ∨
    (proxied v req admitted.route resolved.operation = false ∧ ∃ backend, ∃ request : Upstream,
      ∀ body, send P gw v req admitted resolved body =
        .ok (.upgrade backend (Upstream.forUpgrade { request with body := body }))) ∨
    (proxied v req admitted.route resolved.operation = true ∧ ∃ request : Upstream, ∀ body,
      send P gw v req admitted resolved body =
        .ok (.proxy (callOf gw admitted.route resolved.operation { request with body := body })
          { request with body := body })) := by
  unfold send
  cases hkafka : admitted.route.policy.kafkaProduce with
  | some clusterId =>
    have hproxied : proxied v req admitted.route resolved.operation = false := by
      simp [proxied, hkafka]
    rw [hkafka, Option.isSome_some, Bool.true_and] at hunread
    refine .inl ⟨hproxied, ?_⟩
    obtain ⟨stop, hstatus, hstop⟩ :=
      kafkaRecord_of_not_json P admitted.route resolved clusterId hunread
    refine ⟨stop, hstatus, fun body => ?_⟩
    unfold prepare target
    simp only [hkafka, hstop, error_bind]
  | none =>
    have hrequest : ∃ request : Upstream, ∀ body,
        prepare P gw v req admitted resolved body = .ok { request with body := body } := by
      unfold prepare target
      simp only [hkafka]
      exact ⟨⟨_, _, _, _, .absent⟩, fun _ => rfl⟩
    obtain ⟨request, hrequest⟩ := hrequest
    simp only [hrequest, ok_bind]
    unfold handOver
    cases hupgrade : isUpgrade req admitted.route with
    | true =>
      have hproxied : proxied v req admitted.route resolved.operation = false := by
        simp [proxied, hupgrade]
      simp only [if_true]
      cases hstreams : checkStreams v with
      | error stop =>
        refine .inl ⟨hproxied, stop, ?_, fun _ => rfl⟩
        unfold checkStreams at hstreams
        cases hverdict : v.streams with
        | ok =>
          rw [hverdict] at hstreams
          cases hstreams
        | routeFull | instanceFull =>
          rw [hverdict] at hstreams
          cases hstreams
          simp
      | ok =>
        cases firstBackend gw v admitted.route with
        | none => exact .inl ⟨hproxied, deny 503 _ .poolOpen, by simp, fun _ => rfl⟩
        | some backend => exact .inr (.inl ⟨hproxied, backend, request, fun _ => rfl⟩)
    | false =>
      simp only [Bool.false_eq_true, if_false]
      cases hhit : cacheUnit admitted.route resolved.operation && isCacheable req.method &&
          v.cacheHit with
      | true =>
        have hproxied : proxied v req admitted.route resolved.operation = false := by
          simp [proxied, hhit]
        exact .inl ⟨hproxied, .answered 200 .cacheHit, by decide, fun _ => rfl⟩
      | false =>
        have hproxied : proxied v req admitted.route resolved.operation = true := by
          simp [proxied, hkafka, hupgrade, hhit]
        exact .inr (.inr ⟨hproxied, request, fun _ => rfl⟩)

def refusedByLog (v : Verdicts) (route : ConfigRoute) (s : Stream) : Prop :=
  capturesBodies v route = true ∧ s.ending ≠ .done ∧ s.bytes.length ≤ MAX_LOGGED_BODY_BYTES

theorem refusedByLog_congr {s : Stream} (h : s.Same t) :
    refusedByLog v route s ↔ refusedByLog v route t := by
  unfold refusedByLog
  rw [h.1, h.2]

theorem captureBody_cases (gw : Gateway) (v : Verdicts) (route : ConfigRoute) (s : Stream) :
    (refusedByLog v route s ∧
      captureBody gw v route (.streamed s) = .error (bodyTooLarge (routeMaxBody gw route))) ∨
    (¬ refusedByLog v route s ∧ ∃ t : Stream, t.Same s ∧
      captureBody gw v route (.streamed s) = .ok (.streamed t)) := by
  have hfails : s.takePrefix (MAX_LOGGED_BODY_BYTES + 1) = none ↔
      s.ending ≠ .done ∧ s.bytes.length ≤ MAX_LOGGED_BODY_BYTES := by
    rw [Stream.takePrefix_eq_none, Nat.lt_succ_iff]
  unfold captureBody
  cases hcaptures : capturesBodies v route with
  | false =>
    refine .inr ⟨fun h => ?_, s, ⟨rfl, rfl⟩, rfl⟩
    have hopen := h.1
    rw [hcaptures] at hopen
    cases hopen
  | true =>
    simp only [if_true]
    cases htaken : s.takePrefix (MAX_LOGGED_BODY_BYTES + 1) with
    | none => exact .inl ⟨⟨hcaptures, hfails.mp htaken⟩, rfl⟩
    | some taken =>
      refine .inr ⟨fun h => ?_, taken.2, Stream.same_of_takePrefix htaken, rfl⟩
      rw [hfails.mpr h.2] at htaken
      cases htaken

theorem afterSample_eq (admitted : Admitted) (resolved : Resolved) (body : Body) :
    afterSample P gw v req admitted resolved body =
      captureBody gw v admitted.route body >>= send P gw v req admitted resolved := rfl

theorem same_send (hunread : (admitted.route.policy.kafkaProduce.isSome && req.isJson) = false)
    {s : Stream} (h : s.Same t) : SameOutcome (send P gw v req admitted resolved (.streamed s))
      (send P gw v req admitted resolved (.streamed t)) := by
  rcases send_cases admitted resolved hunread with
    ⟨_, stop, _, hsend⟩ | ⟨_, backend, request, hsend⟩ | ⟨_, request, hsend⟩
  · rw [hsend, hsend]
    rfl
  · rw [hsend, hsend]
    exact ⟨rfl, rfl, rfl, rfl⟩
  · rw [hsend, hsend]
    exact ⟨rfl, rfl, rfl, rfl, rfl, h⟩

theorem same_afterSample
    (hunread : (admitted.route.policy.kafkaProduce.isSome && req.isJson) = false) {s : Stream}
    (h : s.Same t) : SameOutcome (afterSample P gw v req admitted resolved (.streamed s))
      (afterSample P gw v req admitted resolved (.streamed t)) := by
  rw [afterSample_eq, afterSample_eq]
  rcases captureBody_cases gw v admitted.route s with ⟨hrefused, hs⟩ | ⟨hpasses, s', hs', hs⟩
  · rcases captureBody_cases gw v admitted.route t with ⟨_, ht⟩ | ⟨hpasses, _⟩
    · rw [hs, ht]
      rfl
    · exact absurd ((refusedByLog_congr h).mp hrefused) hpasses
  · rcases captureBody_cases gw v admitted.route t with ⟨hrefused, _⟩ | ⟨_, t', ht', ht⟩
    · exact absurd ((refusedByLog_congr h).mpr hrefused) hpasses
    · rw [hs, ht]
      exact same_send hunread (hs'.trans (h.trans ht'.symm))

theorem same_afterSample_absent_iff
    (hunread : (admitted.route.policy.kafkaProduce.isSome && req.isJson) = false) (s : Stream) :
    SameOutcome (afterSample P gw v req admitted resolved .absent)
        (afterSample P gw v req admitted resolved (.streamed s)) ↔
      ¬ (refusedByLog v admitted.route s ∨
        proxied v req admitted.route resolved.operation = true) := by
  have habsent : captureBody gw v admitted.route .absent = .ok .absent := rfl
  rw [afterSample_eq, afterSample_eq, habsent, ok_bind]
  rcases captureBody_cases gw v admitted.route s with ⟨hrefused, hs⟩ | ⟨hpasses, t, _, hs⟩
  · rw [hs, error_bind]
    refine iff_of_false (fun hsame => ?_) (fun h => h (.inl hrefused))
    rcases send_cases admitted resolved hunread with
      ⟨_, stop, hstatus, hsend⟩ | ⟨_, backend, request, hsend⟩ | ⟨_, request, hsend⟩
    · rw [hsend] at hsame
      have hstop : stop = bodyTooLarge (routeMaxBody gw admitted.route) := hsame
      rw [hstop] at hstatus
      exact hstatus (status_bodyTooLarge _)
    · rw [hsend] at hsame
      exact hsame
    · rw [hsend] at hsame
      exact hsame
  · rw [hs, ok_bind]
    rcases send_cases admitted resolved hunread with
      ⟨hnot, stop, _, hsend⟩ | ⟨hnot, backend, request, hsend⟩ | ⟨hproxied, request, hsend⟩
    · rw [hsend, hsend]
      refine iff_of_true rfl ?_
      rintro (hrefused | hproxied)
      · exact hpasses hrefused
      · rw [hnot] at hproxied
        cases hproxied
    · rw [hsend, hsend]
      refine iff_of_true ⟨rfl, rfl, rfl, rfl⟩ ?_
      rintro (hrefused | hproxied)
      · exact hpasses hrefused
      · rw [hnot] at hproxied
        cases hproxied
    · rw [hsend, hsend]
      exact iff_of_false (fun hsame => nomatch hsame.2.body) (fun h => h (.inr hproxied))

/-! ### Up to the sample -/

def ConfigRoute.rpc (route : ConfigRoute) : Prop := route.kind = .mcp ∨ route.kind = .a2a

theorem resolved_of_body (h : resolve P gw req route = .ok resolved) (hhas : req.hasBody = true)
    (hbody : req.body = some stream) :
    (∃ t : Stream, resolved.body = .streamed t ∧ t.Same (stream.capped (routeMaxBody gw route)) ∧
      (route.rpc → resolved.operation = none)) ∨
    (∃ bytes, resolved.body = .buffered bytes ∧ route.rpc ∧
      (stream.capped (routeMaxBody gw route)).readWhole (routeMaxBody gw route) = some bytes) := by
  have hcapped : req.capped (routeMaxBody gw route) =
      .streamed (stream.capped (routeMaxBody gw route)) := by
    unfold Request.capped
    rw [hbody, hhas]
    rfl
  unfold resolve at h
  dsimp only at h
  rw [hcapped] at h
  split at h
  · rename_i soap stream' hkind _ hstream
    cases hstream
    simp only [resolveSoap, bind_eq_ok, demand_eq_ok, pure_eq_ok] at h
    obtain ⟨⟨_, rest⟩, hprefix, _, _, _, _, _, _, _, _, rfl⟩ := h
    refine .inl ⟨rest, rfl, Stream.same_of_takePrefix hprefix, fun hrpc => ?_⟩
    rcases hrpc with hmcp | ha2a
    · rw [hkind] at hmcp
      cases hmcp
    · rw [hkind] at ha2a
      cases ha2a
  · split at h
    · rename_i hrpc
      split at h
      · simp only [resolveMcpStream, bind_eq_ok, pure_eq_ok] at h
        obtain ⟨_, _, rfl⟩ := h
        exact .inl ⟨_, rfl, ⟨rfl, rfl⟩, fun _ => rfl⟩
      · simp only [resolveRpc, readBody, bind_eq_ok, demand_eq_ok, pure_eq_ok] at h
        obtain ⟨_, _, bytes, hread, _, _, _, _, _, _, _, _, rfl⟩ := h
        exact .inr ⟨bytes, rfl, hrpc, hread⟩
    · rename_i hrpc
      have hstays : resolved.body = .streamed (stream.capped (routeMaxBody gw route)) := by
        unfold resolveRest at h
        split at h
        · cases h
          rfl
        · simp only [bind_eq_ok, pure_eq_ok] at h
          obtain ⟨_, _, rfl⟩ := h
          rfl
      exact .inl ⟨_, hstays, ⟨rfl, rfl⟩, fun h => absurd h hrpc⟩

theorem hasBody_of_streamed (h : resolve P gw req route = .ok resolved)
    (hbody : resolved.body = .streamed t) : req.hasBody = true := by
  by_contra hhas
  have hcapped : req.capped (routeMaxBody gw route) = .absent :=
    capped_eq_absent.mpr (eq_false_of_ne_true hhas)
  unfold resolve at h
  dsimp only at h
  rw [hcapped] at h
  split at h
  · rename_i hstream
    cases hstream
  · split at h
    · split at h
      · simp only [resolveMcpStream, bind_eq_ok, pure_eq_ok] at h
        obtain ⟨_, _, rfl⟩ := h
        cases hbody
      · simp only [resolveRpc, bind_eq_ok, pure_eq_ok] at h
        obtain ⟨_, _, _, _, _, _, _, _, _, _, _, _, rfl⟩ := h
        cases hbody
    · unfold resolveRest at h
      split at h
      · cases h
        cases hbody
      · simp only [bind_eq_ok, pure_eq_ok] at h
        obtain ⟨_, _, rfl⟩ := h
        cases hbody

def unread (req : Request) (route : ConfigRoute) : Bool :=
  !((route.scanned && req.isJson) || (route.policy.kafkaProduce.isSome && req.isJson))

theorem kafka_of_unread (h : unread req route = true) :
    (route.policy.kafkaProduce.isSome && req.isJson) = false := by
  have hneither := eq_false_of_ne_true ((Bool.not_eq_true' _).mp h ▸ Bool.false_ne_true)
  exact (Bool.or_eq_false_iff.mp hneither).2

theorem bufferBody_disabled (route : ConfigRoute) (operation : Option ConfigOperation) (s : Stream) :
    bufferBody (gw.withRequest .disabled) v req (route.withRequest .disabled) operation (.streamed s) =
      if unread req route then .ok (.streamed s)
      else (do
        ensure v.budgetFree
          (deny 503 ("this gateway is at its body-buffer ceiling; the request was shed rather than " ++
            "passed through without the checks its route requires") .validateBudget)
        let bytes ← demand (s.readWhole (routeMaxBody gw route)) (bodyTooLarge (routeMaxBody gw route))
        pure (.buffered bytes)) := by
  have hdisabled : ValidationState.disabled ≠ .blocking := nofun
  unfold bufferBody unread
  dsimp only
  rw [buffers_of_ne_blocking gw req route .disabled hdisabled, routeMaxBody_withRequest]
  cases (route.scanned && req.isJson || route.policy.kafkaProduce.isSome && req.isJson) <;> rfl

theorem of_beforeSample {body : Body} (h : beforeSample P gw v req = .ok (admitted, resolved, body)) :
    admission P gw v req = .ok admitted ∧ resolve P gw req admitted.route = .ok resolved ∧
      checkOperation req v admitted resolved.operation = .ok () ∧
      bufferBody (gw.withRequest .disabled) v req (admitted.route.withRequest .disabled)
        resolved.operation resolved.body = .ok body := by
  simp only [beforeSample, bind_eq_ok, pure_eq_ok] at h
  obtain ⟨_, hadmitted, _, hresolved, _, hcounted, _, _, _, hbody, _, _, hfound⟩ := h
  cases hfound
  exact ⟨hadmitted, hresolved, hcounted, hbody⟩

theorem streamed_of_beforeSample
    (h : beforeSample P gw v req = .ok (admitted, resolved, .streamed t)) :
    unread req admitted.route = true ∧ ∃ stream, req.hasBody = true ∧ req.body = some stream ∧
      t.Same (stream.capped (routeMaxBody gw admitted.route)) ∧
      (admitted.route.rpc → resolved.operation = none) := by
  obtain ⟨_, hresolved, _, hbuffer⟩ := of_beforeSample h
  cases hresolvedBody : resolved.body with
  | absent | buffered bytes =>
    rw [hresolvedBody] at hbuffer
    cases hbuffer
  | streamed s =>
    rw [hresolvedBody, bufferBody_disabled] at hbuffer
    cases hunread : unread req admitted.route with
    | false =>
      simp only [hunread, Bool.false_eq_true, if_false, bind_eq_ok, pure_eq_ok] at hbuffer
      obtain ⟨_, _, _, _, hbuffered⟩ := hbuffer
      cases hbuffered
    | true =>
      rw [hunread, if_pos rfl] at hbuffer
      cases hbuffer
      have hhas := hasBody_of_streamed hresolved hresolvedBody
      obtain ⟨stream, hstream⟩ : ∃ stream, req.body = some stream := by
        have hsome : req.body.isSome = true := (Bool.and_eq_true_iff.mp hhas).2
        exact Option.isSome_iff_exists.mp hsome
      refine ⟨rfl, stream, hhas, hstream, ?_⟩
      rcases resolved_of_body hresolved hhas hstream with ⟨t', ht', hsame, hrpc⟩ | ⟨_, hbytes, _⟩
      · rw [hresolvedBody] at ht'
        cases ht'
        exact ⟨hsame, hrpc⟩
      · rw [hresolvedBody] at hbytes
        cases hbytes

theorem streamed_of_over {body : Body}
    (h : beforeSample P gw v req = .ok (admitted, resolved, body)) (hhas : req.hasBody = true)
    (hstream : req.body = some stream)
    (hover : routeMaxBody gw admitted.route < stream.bytes.length) :
    ∃ t, body = .streamed t ∧ t.ending = .overCap := by
  have hending := Stream.ending_capped_of_lt hover
  obtain ⟨_, hresolved, _, hbuffer⟩ := of_beforeSample h
  rcases resolved_of_body hresolved hhas hstream with ⟨t, ht, hsame, _⟩ | ⟨_, _, _, hread⟩
  · rw [ht, bufferBody_disabled] at hbuffer
    split at hbuffer
    · cases hbuffer
      exact ⟨t, rfl, hsame.2.trans hending⟩
    · simp only [bind_eq_ok, demand_eq_ok] at hbuffer
      obtain ⟨_, _, bytes, hread, _⟩ := hbuffer
      have hnone : t.readWhole (routeMaxBody gw admitted.route) = none :=
        Stream.readWhole_eq_none.mpr (.inl (by simp [hsame.2, hending]))
      rw [hnone] at hread
      cases hread
  · have hnone : (stream.capped (routeMaxBody gw admitted.route)).readWhole
        (routeMaxBody gw admitted.route) = none :=
      Stream.readWhole_eq_none.mpr (.inl (by simp [hending]))
    rw [hnone] at hread
    cases hread

/-! ### The two runs -/

def sampled (P : Platform) (gw : Gateway) (v : Verdicts) (req : Request) (route : ConfigRoute)
    (operation : Option ConfigOperation) : Bool :=
  (artifactFor gw route).isSome && hasSchemas operation &&
    (effectiveValidate route operation).body ≠ some false && v.sampled ((declaredLength P req).getD 0)

theorem sampleBody_disabled (route : ConfigRoute) (operation : Option ConfigOperation) (body : Body) :
    sampleBody P (gw.withRequest .disabled) v req (route.withRequest .disabled) operation body =
      body := by
  have hsamples : samples P (gw.withRequest .disabled) v req (route.withRequest .disabled) operation =
      false := by
    unfold samples
    rw [requestState_withRequest, decide_eq_false nofun, Bool.and_false, Bool.false_and]
  unfold sampleBody
  rw [hsamples]
  cases body <;> rfl

theorem sampleBody_warning (route : ConfigRoute) (operation : Option ConfigOperation) (body : Body) :
    sampleBody P (gw.withRequest .warning) v req (route.withRequest .warning) operation body =
      match body with
      | .streamed s =>
        if sampled P gw v req route operation then teeBody s (routeMaxBody gw route) else .streamed s
      | body => body := by
  have hartifact : artifactFor (gw.withRequest .warning) (route.withRequest .warning) =
      artifactFor gw route := rfl
  have hbody : (effectiveValidate (route.withRequest .warning) operation).body =
      (effectiveValidate route operation).body := by
    rw [effectiveValidate_withRequest]
    rfl
  have hsamples : samples P (gw.withRequest .warning) v req (route.withRequest .warning) operation =
      sampled P gw v req route operation := by
    simp [samples, wantsBodyValidation, sampled, requestState_withRequest, hartifact, hbody]
  cases body <;> simp only [sampleBody, hsamples, routeMaxBody_withRequest]

def NotTruncated (req : Request) (x : Except Stop Sent) : Prop :=
  ∀ stream call request, x = .ok (.proxy call request) → req.hasBody = true →
    req.body = some stream → call.routeMaxBody < stream.bytes.length →
    ∃ t, request.body = .streamed t ∧ t.ending = .overCap

/-- The backend and the caller see the same under both states, and no body over the cap is proxied. -/
structure Unchanged (P : Platform) (gw : Gateway) (v : Verdicts) (req : Request) : Prop where
  same : SameOutcome (outcome P (gw.withRequest .warning) v req)
    (outcome P (gw.withRequest .disabled) v req)
  warning : NotTruncated req (outcome P (gw.withRequest .warning) v req)
  disabled : NotTruncated req (outcome P (gw.withRequest .disabled) v req)

/-- The body of the request is over the cap or breaks off, a sample is taken of it before anything
has read it whole, and the request would not end in the same way without it. -/
structure SampleLost (P : Platform) (gw : Gateway) (v : Verdicts) (req : Request) (admitted : Admitted)
    (resolved : Resolved) (stream : Stream) : Prop where
  admits : admission P gw v req = .ok admitted
  resolves : resolve P gw req admitted.route = .ok resolved
  counts : checkOperation req v admitted resolved.operation = .ok ()
  hasBody : req.hasBody = true
  body : req.body = some stream
  notRpc : ¬ admitted.route.rpc
  unread : unread req admitted.route = true
  sampled : sampled P gw v req admitted.route resolved.operation = true
  cut : stream.ending ≠ .done ∨ routeMaxBody gw admitted.route < stream.bytes.length
  matters : refusedByLog v admitted.route (stream.capped (routeMaxBody gw admitted.route)) ∨
    proxied v req admitted.route resolved.operation = true

theorem readWhole_capped {max : Nat} (h : t.Same (stream.capped max)) :
    t.readWhole max = none ↔ stream.ending ≠ .done ∨ max < stream.bytes.length := by
  have hlength : ¬ max < t.bytes.length := by
    rw [h.1]
    exact Nat.not_lt.mpr (Stream.length_capped stream max)
  have hending : t.ending = .done ↔ stream.ending = .done ∧ stream.bytes.length ≤ max := by
    rw [h.2]
    exact Stream.ending_capped stream max
  rw [Stream.readWhole_eq_none, or_iff_left hlength, Ne, hending, not_and_or, Nat.not_le]

theorem beforeSample_of_lost (h : SampleLost P gw v req admitted resolved stream) :
    ∃ t, beforeSample P gw v req = .ok (admitted, resolved, .streamed t) ∧
      t.Same (stream.capped (routeMaxBody gw admitted.route)) := by
  rcases resolved_of_body h.resolves h.hasBody h.body with ⟨t, ht, hsame, _⟩ | ⟨_, _, hrpc, _⟩
  · have havailable : (artifactFor gw admitted.route).isSome = true := by
      have hall := h.sampled
      unfold Apim.DataPlane.sampled at hall
      simp only [Bool.and_eq_true] at hall
      exact hall.1.1.1
    have hartifact : checkArtifact gw admitted.route resolved.operation = .ok () := by
      obtain ⟨artifact, hartifact⟩ := Option.isSome_iff_exists.mp havailable
      simp [checkArtifact, ensure, hartifact]
    refine ⟨t, ?_, hsame⟩
    unfold beforeSample
    simp only [h.admits, h.resolves, h.counts, ok_bind, hartifact, ht, bufferBody_disabled, h.unread,
      if_true, alwaysScan]
    rfl
  · exact absurd hrpc h.notRpc

theorem lost_iff (h : beforeSample P gw v req = .ok (admitted, resolved, .streamed t)) :
    (∃ admitted resolved stream, SampleLost P gw v req admitted resolved stream) ↔
      sampled P gw v req admitted.route resolved.operation = true ∧
        t.readWhole (routeMaxBody gw admitted.route) = none ∧
        (refusedByLog v admitted.route t ∨
          proxied v req admitted.route resolved.operation = true) := by
  constructor
  · rintro ⟨admitted', resolved', stream, hlost⟩
    obtain ⟨t', ht', hsame⟩ := beforeSample_of_lost hlost
    rw [h] at ht'
    cases ht'
    refine ⟨hlost.sampled, (readWhole_capped hsame).mpr hlost.cut, ?_⟩
    rw [refusedByLog_congr hsame]
    exact hlost.matters
  · rintro ⟨hsampled, hread, hmatters⟩
    obtain ⟨hadmits, hresolves, hcounts, _⟩ := of_beforeSample h
    obtain ⟨hunread, stream, hhas, hstream, hsame, hrpc⟩ := streamed_of_beforeSample h
    refine ⟨admitted, resolved, stream, hadmits, hresolves, hcounts, hhas, hstream, ?_, hunread,
      hsampled, (readWhole_capped hsame).mp hread, ?_⟩
    · intro hkind
      unfold sampled at hsampled
      rw [hrpc hkind] at hsampled
      simp [hasSchemas] at hsampled
    · rw [← refusedByLog_congr hsame]
      exact hmatters

theorem same_iff : SameOutcome (outcome P (gw.withRequest .warning) v req)
    (outcome P (gw.withRequest .disabled) v req) ↔
    ¬ ∃ admitted resolved stream, SampleLost P gw v req admitted resolved stream := by
  rw [outcome_withRequest P gw v req .warning nofun, outcome_withRequest P gw v req .disabled nofun]
  cases hbefore : beforeSample P gw v req with
  | error stop =>
    refine iff_of_true rfl ?_
    rintro ⟨admitted, resolved, stream, hlost⟩
    obtain ⟨t, ht, _⟩ := beforeSample_of_lost hlost
    rw [hbefore] at ht
    cases ht
  | ok found =>
    obtain ⟨admitted, resolved, body⟩ := found
    simp only [ok_bind, sampleBody_disabled, sampleBody_warning]
    cases body with
    | absent | buffered bytes =>
      refine iff_of_true (.refl _) ?_
      rintro ⟨_, _, _, hlost⟩
      obtain ⟨t, ht, _⟩ := beforeSample_of_lost hlost
      rw [hbefore] at ht
      cases ht
    | streamed t =>
      have hunread := kafka_of_unread (streamed_of_beforeSample hbefore).1
      rw [lost_iff hbefore]
      cases hsampled : sampled P gw v req admitted.route resolved.operation with
      | false => exact iff_of_true (.refl _) fun h => Bool.false_ne_true h.1
      | true =>
        simp only [if_true, true_and, teeBody]
        cases hread : t.readWhole (routeMaxBody gw admitted.route) with
        | none =>
          rw [same_afterSample_absent_iff hunread]
          simp
        | some bytes =>
          exact iff_of_true (same_afterSample hunread (Stream.same_of_readWhole hread)) (by simp)

theorem routeMaxBody_of_afterSample {body : Body} {call : Call} {request : Upstream}
    (h : afterSample P gw v req admitted resolved body = .ok (.proxy call request)) :
    call.routeMaxBody = routeMaxBody gw admitted.route := by
  simp only [afterSample, bind_eq_ok] at h
  obtain ⟨_, _, _, _, hsent⟩ := h
  unfold handOver at hsent
  split at hsent
  · simp only [bind_eq_ok, pure_eq_ok] at hsent
    obtain ⟨_, _, _, _, hupgrade⟩ := hsent
    cases hupgrade
  · simp only [bind_eq_ok, pure_eq_ok] at hsent
    obtain ⟨_, _, hproxy⟩ := hsent
    cases hproxy
    rfl

theorem notTruncated_disabled : NotTruncated req (outcome P (gw.withRequest .disabled) v req) := by
  rw [outcome_withRequest P gw v req .disabled nofun]
  intro stream call request hsent hhas hstream hover
  rw [bind_eq_ok] at hsent
  obtain ⟨⟨admitted, resolved, body⟩, hbefore, hafter⟩ := hsent
  rw [sampleBody_disabled] at hafter
  dsimp only at hafter
  rw [routeMaxBody_of_afterSample hafter] at hover
  obtain ⟨t, rfl, hending⟩ := streamed_of_over hbefore hhas hstream hover
  have hunread := kafka_of_unread (streamed_of_beforeSample hbefore).1
  rw [afterSample_eq] at hafter
  rcases captureBody_cases gw v admitted.route t with ⟨_, hs⟩ | ⟨_, s, hs', hs⟩
  · rw [hs] at hafter
    cases hafter
  · rw [hs, ok_bind] at hafter
    rcases send_cases (P := P) admitted resolved hunread with
      ⟨_, _, _, hsend⟩ | ⟨_, _, _, hsend⟩ | ⟨_, _, hsend⟩
    · rw [hsend] at hafter
      cases hafter
    · rw [hsend] at hafter
      cases hafter
    · rw [hsend] at hafter
      cases hafter
      exact ⟨s, rfl, hs'.2.trans hending⟩

theorem NotTruncated.of_same {x y : Except Stop Sent} (h : SameOutcome x y)
    (hy : NotTruncated req y) : NotTruncated req x := by
  rintro stream call request rfl hhas hstream hover
  match y, h with
  | .ok (.proxy call' request'), hsame =>
    obtain ⟨hcall, hrequest⟩ := hsame
    rw [hcall] at hover
    obtain ⟨t, ht, hending⟩ := hy stream call' request' rfl hhas hstream hover
    have hbody := hrequest.body
    rw [ht] at hbody
    cases hs : request.body with
    | absent | buffered bytes =>
      rw [hs] at hbody
      cases hbody
    | streamed s =>
      rw [hs] at hbody
      exact ⟨s, rfl, hbody.2.trans hending⟩

/-- A request fares alike under `warning` and `disabled` exactly where no sample is lost. -/
theorem unchanged_iff (P : Platform) (gw : Gateway) (v : Verdicts) (req : Request) :
    Unchanged P gw v req ↔
      ¬ ∃ admitted resolved stream, SampleLost P gw v req admitted resolved stream := by
  constructor
  · intro h
    exact same_iff.mp h.same
  · intro h
    have hsame := same_iff.mpr h
    exact ⟨hsame, .of_same hsame notTruncated_disabled, notTruncated_disabled⟩

end

def overRequest : Request :=
  { Small.request "POST" [("content-type", "text/plain")] with
    body := some ⟨[[104, 101, 108, 108, 111]], .done⟩ }

def sendsNothing (sent : Sent) : Bool :=
  match sent with
  | .proxy call request => call.routeMaxBody = 4 && request.body = .absent
  | .upgrade _ _ => false

theorem over_run : (outcome Small.platform (petGateway.withRequest .warning) Small.verdicts
    overRequest).toOption.any sendsNothing = true := by
  decide +kernel

/-- Under `warning` a body over the cap is dropped and the request goes on. -/
theorem over_cap_forwarded_empty :
    ¬ Unchanged Small.platform petGateway Small.verdicts overRequest := by
  intro h
  have hrun := over_run
  cases hresult : outcome Small.platform (petGateway.withRequest .warning) Small.verdicts
      overRequest with
  | error stop =>
    rw [hresult] at hrun
    cases hrun
  | ok sent =>
    rw [hresult] at hrun
    cases sent with
    | upgrade backend request => cases hrun
    | proxy call request =>
      simp only [Except.toOption, Option.any_some, sendsNothing, Bool.and_eq_true,
        decide_eq_true_eq] at hrun
      obtain ⟨hcap, hbody⟩ := hrun
      have hover : call.routeMaxBody < 5 := by omega
      obtain ⟨t, ht, _⟩ := h.warning _ call request hresult (by decide) rfl hover
      rw [hbody] at ht
      cases ht

end Apim.DataPlane
