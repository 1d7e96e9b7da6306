import Apim.DataPlane.Gates

/-!
# Bodies under blocking validation

What is forwarded of a body whose operation has a schema for it, while the route blocks. The body is
read whole and put to the schema that the media type of the request leads to (`contentRefFor`). Where
it leads to none the check is skipped, and a request without a body is not checked at all.
-/

namespace Apim.DataPlane

open Apim.Guard Apim.Overlay

variable {route : ConfigRoute} {j : Journey} {operation : ConfigOperation}
  {artifact : ValidationArtifact} {schemas : OperationSchemas} {declared : RequestBody}

section
variable {P : Platform} {gw : Gateway} {v : Verdicts} {req : Request}

/-! ### The body that is checked -/

def bodyPresent (req : Request) (route : ConfigRoute) : Bool :=
  req.hasBody || ((route.kind = .mcp || route.kind = .a2a) && !isMcpStream req route)

theorem capped_eq_absent {max : Nat} : req.capped max = .absent ↔ req.hasBody = false := by
  unfold Request.capped
  cases hbody : req.body with
  | none => simp [Request.hasBody, hbody]
  | some stream =>
    cases hhas : req.hasBody <;> simp

theorem resolved_body {resolved : Resolved} (h : resolve P gw req route = .ok resolved) :
    resolved.body = .absent ↔ bodyPresent req route = false := by
  unfold resolve at h
  dsimp only at h
  split at h
  · rename_i soap stream hkind _ hbody
    simp only [resolveSoap, bind_eq_ok, pure_eq_ok] at h
    obtain ⟨_, _, _, _, _, _, _, _, _, _, rfl⟩ := h
    have hhas : req.hasBody ≠ false := fun hfalse => by
      rw [capped_eq_absent.mpr hfalse] at hbody
      cases hbody
    simp [bodyPresent, hhas]
  · split at h
    · rename_i hkind
      split at h
      · rename_i hstream
        simp only [resolveMcpStream, bind_eq_ok, pure_eq_ok] at h
        obtain ⟨_, _, rfl⟩ := h
        simp [bodyPresent, hstream, capped_eq_absent]
      · rename_i hstream
        simp only [resolveRpc, bind_eq_ok, pure_eq_ok] at h
        obtain ⟨_, _, _, _, _, _, _, _, _, _, _, _, rfl⟩ := h
        have hrpc : (route.kind = .mcp || route.kind = .a2a) = true := by simpa using hkind
        simp [bodyPresent, hrpc, hstream]
    · rename_i hkind
      have hrpc : (decide (route.kind = .mcp) || decide (route.kind = .a2a)) = false := by
        simpa using hkind
      have hpresent : bodyPresent req route = req.hasBody := by simp [bodyPresent, hrpc]
      rw [hpresent, ← capped_eq_absent]
      unfold resolveRest at h
      split at h
      · cases h
        rfl
      · simp only [bind_eq_ok, pure_eq_ok] at h
        obtain ⟨_, _, rfl⟩ := h
        rfl

structure UnderBlocking (gw : Gateway) (j : Journey) (operation : ConfigOperation)
    (artifact : ValidationArtifact) (schemas : OperationSchemas) (declared : RequestBody) : Prop where
  resolves : j.resolved.operation = some operation
  hasSchema : operation.schemaState = .ok
  available : artifactFor gw j.admitted.route = some artifact
  isJson : artifact.kind = .jsonSchema
  compiled : artifact.operations.lookup operation.id = some schemas
  state : schemas.state = .ok
  declares : schemas.request = some declared
  blocking : requestState j.admitted.route j.resolved.operation = .blocking
  checksBody : (effectiveValidate j.admitted.route j.resolved.operation).body ≠ some false

theorem UnderBlocking.wants (h : UnderBlocking gw j operation artifact schemas declared) :
    wantsBodyValidation gw j.admitted.route j.resolved.operation = true := by
  have hschemas : hasSchemas j.resolved.operation = true := by
    rw [h.resolves]
    simp [hasSchemas, h.hasSchema]
  simp [wantsBodyValidation, h.available, hschemas, h.checksBody, h.blocking]

theorem bufferBody_of_blocking {operation : Option ConfigOperation} {body buffered : Body}
    (hwants : wantsBodyValidation gw route operation = true)
    (hblocking : requestState route operation = .blocking)
    (h : bufferBody gw v req route operation body = .ok buffered) :
    (body = .absent ∧ buffered = .absent) ∨ (body ≠ .absent ∧ ∃ bytes, buffered = .buffered bytes) := by
  unfold bufferBody at h
  cases body with
  | absent =>
    cases h
    exact .inl ⟨rfl, rfl⟩
  | buffered bytes =>
    cases h
    exact .inr ⟨by simp, bytes, rfl⟩
  | streamed stream =>
    have hbuffers : buffers gw req route operation = true := by
      simp [buffers, hwants, hblocking]
    simp only [hbuffers, if_true, bind_eq_ok, pure_eq_ok] at h
    obtain ⟨_, _, bytes, _, rfl⟩ := h
    exact .inr ⟨by simp, bytes, rfl⟩

theorem checked_of_blocking (hunder : UnderBlocking gw j operation artifact schemas declared)
    (h : checkRequest P gw v req j.admitted.route j.resolved = .ok j.checked) :
    (j.resolved.body = .absent ∧ j.checked = .absent) ∨
      (j.resolved.body ≠ .absent ∧ ∃ bytes, j.checked = .buffered bytes ∧
        (validateRequestBody P.validators operation.id artifact bytes (req.headers.get "content-type")
          (effectiveValidate j.admitted.route j.resolved.operation)).ok = true) := by
  simp only [checkRequest, bind_eq_ok] at h
  obtain ⟨_, _, _, _, buffered, hbuffered, _, _, _, hcheck, hcapture⟩ := h
  rcases bufferBody_of_blocking hunder.wants hunder.blocking hbuffered with
    ⟨habsent, rfl⟩ | ⟨hpresent, bytes, rfl⟩
  · exact .inl ⟨habsent, (Except.ok.inj hcapture).symm⟩
  · have hok : (validateRequestBody P.validators operation.id artifact bytes
        (req.headers.get "content-type")
        (effectiveValidate j.admitted.route j.resolved.operation)).ok = true := by
      unfold blockingCheck at hcheck
      rw [hunder.available, hunder.resolves] at hcheck
      have hwants := hunder.wants
      have hblocking := hunder.blocking
      rw [hunder.resolves] at hwants hblocking
      simp only [hwants, hblocking, and_self, if_true, ensure_eq_ok] at hcheck
      rw [hunder.resolves]
      exact hcheck
    have hchecked : j.checked = .buffered bytes := (Except.ok.inj hcapture).symm
    exact .inr ⟨hpresent, bytes, hchecked, hok⟩

theorem kafkaRecord_eq_ok {resolved : Resolved} {bytes : Bytes} {clusterId path : String}
    {record : Body}
    (h : kafkaRecord P req route resolved (.buffered bytes) clusterId = .ok (path, record)) :
    ∃ value, P.validators.readJson (jsonLimitsOf (effectiveValidate route resolved.operation)) bytes =
        .ok value ∧ record = .buffered (P.recordOf value) := by
  unfold kafkaRecord at h
  rw [bind_eq_ok] at h
  obtain ⟨topic, _, h⟩ := h
  dsimp only at h
  rw [bind_eq_ok] at h
  obtain ⟨_, _, h⟩ := h
  rw [bind_eq_ok] at h
  obtain ⟨value, hvalue, h⟩ := h
  rw [pure_eq_ok] at h
  exact ⟨value, relabel_eq_ok.mp hvalue, (congrArg Prod.snd h).symm⟩

theorem sentBody_of_handleRequest (h : handleRequest P gw v req = .ok j) :
    (j.admitted.route.policy.kafkaProduce = none → j.sent.request.body = j.checked) ∧
      (j.admitted.route.policy.kafkaProduce ≠ none → ∀ bytes, j.checked = .buffered bytes →
        ∃ value, P.validators.readJson
            (jsonLimitsOf (effectiveValidate j.admitted.route j.resolved.operation)) bytes = .ok value ∧
          j.sent.request.body = .buffered (P.recordOf value)) := by
  simp only [handleRequest, bind_eq_ok, pure_eq_ok] at h
  obtain ⟨admitted, _, resolved, _, _, _, checked, _, request, hrequest, sent, hsent, rfl⟩ := h
  have hsame : sent.request.body = request.body := by
    unfold handOver at hsent
    split at hsent
    · simp only [bind_eq_ok, pure_eq_ok] at hsent
      obtain ⟨_, _, _, _, rfl⟩ := hsent
      rfl
    · simp only [bind_eq_ok, pure_eq_ok] at hsent
      obtain ⟨_, _, rfl⟩ := hsent
      rfl
  simp only [prepare, bind_eq_ok, pure_eq_ok] at hrequest
  obtain ⟨⟨method, path, body⟩, htarget, rfl⟩ := hrequest
  rw [hsame]
  unfold target at htarget
  constructor
  · intro hkafka
    dsimp only at hkafka
    rw [hkafka] at htarget
    exact (Prod.mk.inj (Prod.mk.inj (Except.ok.inj htarget)).2).2.symm
  · intro hkafka bytes hchecked
    dsimp only at hkafka hchecked
    obtain ⟨clusterId, hcluster⟩ := Option.ne_none_iff_exists'.mp hkafka
    rw [hcluster, hchecked] at htarget
    simp only [bind_eq_ok] at htarget
    obtain ⟨⟨recordPath, record⟩, hrecord, hbody⟩ := htarget
    obtain ⟨value, hvalue, hbytes⟩ := kafkaRecord_eq_ok hrecord
    have hsent : record = body := (Prod.mk.inj (Prod.mk.inj (Except.ok.inj hbody)).2).2
    exact ⟨value, hvalue, hsent ▸ hbytes⟩

/-- Of the body, only what a schema of a declared media type has accepted goes on; and where the
contract requires one, there is one. -/
structure OnlyChecked (P : Platform) (req : Request) (j : Journey) (operation : ConfigOperation)
    (artifact : ValidationArtifact) (declared : RequestBody) : Prop where
  body : j.checked ≠ .absent → ∃ bytes value media ref schema, j.checked = .buffered bytes ∧
    P.validators.readJson
      (jsonLimitsOf (effectiveValidate j.admitted.route j.resolved.operation)) bytes = .ok value ∧
    (media, ref) ∈ declared.content ∧ artifact.defs.lookup ref = some schema ∧
    validateRequestBody P.validators operation.id artifact bytes (req.headers.get "content-type")
        (effectiveValidate j.admitted.route j.resolved.operation) =
      (P.validators.validateJson value schema artifact.defs 20).outcome ∧
    (P.validators.validateJson value schema artifact.defs 20).ok = true ∧
    (j.admitted.route.policy.kafkaProduce = none → j.sent.request.body = .buffered bytes) ∧
    (j.admitted.route.policy.kafkaProduce ≠ none →
      j.sent.request.body = .buffered (P.recordOf value))
  required : declared.required = true → j.checked ≠ .absent

/-- The media type of a request that has a body leads to a schema of the artifact, and a request that
has to have a body has one. -/
structure Covered (req : Request) (route : ConfigRoute) (artifact : ValidationArtifact)
    (declared : RequestBody) : Prop where
  media : bodyPresent req route = true → ∃ ref schema,
    contentRefFor (some declared.content) (req.headers.get "content-type") = some (.declared ref) ∧
      artifact.defs.lookup ref = some schema
  required : declared.required = true → bodyPresent req route = true

theorem validateRequestBody_eq (hunder : UnderBlocking gw j operation artifact schemas declared)
    {bytes : Bytes} {value : Json} {validate : ValidateUnit} (contentType : Option String)
    (hvalue : P.validators.readJson (jsonLimitsOf validate) bytes = .ok value) :
    validateRequestBody P.validators operation.id artifact bytes contentType validate =
      match (contentRefFor (some declared.content) contentType).bind (schemaAt artifact.defs) with
      | none => SKIPPED
      | some schema => (P.validators.validateJson value schema artifact.defs 20).outcome := by
  unfold validateRequestBody
  rw [hunder.isJson]
  simp only [hvalue, validateJsonBody, hunder.compiled, hunder.state, if_true, hunder.declares,
    Option.map_some]
  cases contentRefFor (some declared.content) contentType with
  | none => rfl
  | some ref => cases hschema : schemaAt artifact.defs ref <;> simp [hschema]

theorem onlyChecked_iff (P : Platform) (gw : Gateway) (v : Verdicts) (req : Request) (j : Journey)
    (operation : ConfigOperation) (artifact : ValidationArtifact) (schemas : OperationSchemas)
    (declared : RequestBody) (h : handleRequest P gw v req = .ok j)
    (hunder : UnderBlocking gw j operation artifact schemas declared) :
    OnlyChecked P req j operation artifact declared ↔
      Covered req j.admitted.route artifact declared := by
  have hsent := sentBody_of_handleRequest h
  simp only [handleRequest, bind_eq_ok, pure_eq_ok] at h
  obtain ⟨admitted, _, resolved, hresolved, _, _, checked, hchecked, _, _, sent, _, rfl⟩ := h
  have hpresent := resolved_body hresolved
  have hbody := checked_of_blocking hunder hchecked
  dsimp only at hpresent hbody hsent ⊢
  constructor
  · intro honly
    constructor
    · intro hhas
      rcases hbody with ⟨habsent, _⟩ | ⟨_, bytes, hbuffered, _⟩
      · rw [hpresent.mp habsent] at hhas
        cases hhas
      · obtain ⟨bytes', value, _, _, _, hbytes, hvalue, _, _, hran, _⟩ :=
          honly.body (by simp [hbuffered])
        rw [validateRequestBody_eq hunder _ hvalue] at hran
        cases hfound : (contentRefFor (some declared.content) (req.headers.get "content-type")).bind
            (schemaAt artifact.defs) with
        | none =>
          rw [hfound] at hran
          exact absurd (congrArg ValidationOutcome.skipped hran).symm Bool.false_ne_true
        | some schema =>
          obtain ⟨ref, href, hschema⟩ := Option.bind_eq_some_iff.mp hfound
          cases ref with
          | inherited => cases hschema
          | declared ref => exact ⟨ref, schema, href, hschema⟩
    · intro hrequired
      rcases hbody with ⟨_, habsent⟩ | ⟨hnot, _⟩
      · exact absurd habsent (honly.required hrequired)
      · exact eq_true_of_ne_false fun hfalse => hnot (hpresent.mpr hfalse)
  · intro hcovered
    rcases hbody with ⟨habsent, hnone⟩ | ⟨hnot, bytes, hbuffered, hok⟩
    · have hwithout := hpresent.mp habsent
      constructor
      · intro hsome
        exact absurd hnone hsome
      · intro hrequired
        rw [hcovered.required hrequired] at hwithout
        cases hwithout
    · have hhas : bodyPresent req admitted.route = true :=
        eq_true_of_ne_false fun hfalse => hnot (hpresent.mpr hfalse)
      obtain ⟨ref, schema, href, hschema⟩ := hcovered.media hhas
      obtain ⟨media, hmedia⟩ := mem_of_contentRefFor href
      cases hread : P.validators.readJson
          (jsonLimitsOf (effectiveValidate admitted.route resolved.operation)) bytes with
      | error issue =>
        simp [validateRequestBody, hunder.isJson, hread] at hok
      | ok value =>
        have hran := validateRequestBody_eq hunder (req.headers.get "content-type") hread
        rw [href, Option.bind_some, schemaAt, hschema] at hran
        rw [hran] at hok
        constructor
        · intro _
          refine ⟨bytes, value, media, ref, schema, hbuffered, hread, hmedia, hschema, hran, hok, ?_, ?_⟩
          · intro hkafka
            rw [hsent.1 hkafka, hbuffered]
          · intro hkafka
            obtain ⟨value', hvalue', hrecord⟩ := hsent.2 hkafka bytes hbuffered
            rw [hread] at hvalue'
            cases hvalue'
            exact hrecord
        · intro _
          simp [hbuffered]

def addPet : ConfigOperation := ⟨"addPet", "POST", "/pets", none, .ok⟩

def petBody : RequestBody := ⟨true, [("application/json", "Pet")]⟩

def petSchemas : OperationSchemas := ⟨.ok, [], some petBody, none⟩

def petArtifact : ValidationArtifact where
  kind := .jsonSchema
  defs := (∅ : Dict String Json).insert "Pet" (.bool false)
  xsd := none
  operations := (∅ : Dict String OperationSchemas).insert "addPet" petSchemas

def petRoute : ConfigRoute :=
  { Small.route {} with
    operations := [addPet]
    artifact := some "d-1" }

def petGateway : Gateway :=
  { Small.gateway petRoute with
    artifacts := (∅ : Dict String ValidationArtifact).insert "d-1" petArtifact }

def textRequest : Request :=
  { Small.request "POST" [("content-type", "text/plain")] with
    body := some ⟨[Small.emptyObject], .done⟩ }

def skipsPet (j : Journey) : Bool :=
  j.resolved.operation = some addPet && j.admitted.route.artifact = some "d-1" &&
    requestState j.admitted.route j.resolved.operation = .blocking &&
    (effectiveValidate j.admitted.route j.resolved.operation).body = none &&
    j.checked = .buffered Small.emptyObject &&
    (validateRequestBody Small.platform.validators "addPet" petArtifact Small.emptyObject
      (textRequest.headers.get "content-type")
      (effectiveValidate j.admitted.route j.resolved.operation)).skipped

theorem text_run : (handleRequest Small.platform petGateway Small.verdicts
    textRequest).toOption.any skipsPet = true := by
  decide +kernel

theorem text_journey : ∃ j, handleRequest Small.platform petGateway Small.verdicts textRequest = .ok j ∧
    UnderBlocking petGateway j addPet petArtifact petSchemas petBody ∧
    j.checked = .buffered Small.emptyObject ∧
    (validateRequestBody Small.platform.validators "addPet" petArtifact Small.emptyObject
      (textRequest.headers.get "content-type")
      (effectiveValidate j.admitted.route j.resolved.operation)).skipped = true := by
  have hrun := text_run
  cases hresult : handleRequest Small.platform petGateway Small.verdicts textRequest with
  | error stop =>
    rw [hresult] at hrun
    cases hrun
  | ok j =>
    rw [hresult] at hrun
    simp only [Except.toOption, Option.any_some, skipsPet, Bool.and_eq_true, decide_eq_true_eq] at hrun
    obtain ⟨⟨⟨⟨⟨hoperation, hartifact⟩, hstate⟩, hbody⟩, hchecked⟩, hskipped⟩ := hrun
    refine ⟨j, rfl, ?_, hchecked, hskipped⟩
    exact
      { resolves := hoperation
        hasSchema := rfl
        available := by
          rw [artifactFor, hartifact]
          rfl
        isJson := rfl
        compiled := rfl
        state := rfl
        declares := rfl
        blocking := hstate
        checksBody := by
          rw [hbody]
          nofun }

theorem undeclared_media_forwarded : ¬ ∀ j, handleRequest Small.platform petGateway Small.verdicts
    textRequest = .ok j → UnderBlocking petGateway j addPet petArtifact petSchemas petBody →
    OnlyChecked Small.platform textRequest j addPet petArtifact petBody := by
  intro h
  obtain ⟨j, hrun, hunder, hchecked, hskipped⟩ := text_journey
  obtain ⟨bytes, value, _, _, schema, hbytes, _, _, _, hran, _⟩ :=
    (h j hrun hunder).body (by rw [hchecked]; nofun)
  rw [hchecked] at hbytes
  cases hbytes
  have hflag := congrArg ValidationOutcome.skipped hran
  exact absurd (hskipped.symm.trans hflag) nofun

theorem onlyChecked_iff_text : ∃ j, OnlyChecked Small.platform textRequest j addPet petArtifact petBody ↔
    Covered textRequest j.admitted.route petArtifact petBody := by
  obtain ⟨j, hrun, hunder, _⟩ := text_journey
  exact ⟨j, onlyChecked_iff _ _ _ _ j addPet petArtifact petSchemas petBody hrun hunder⟩

end

end Apim.DataPlane
