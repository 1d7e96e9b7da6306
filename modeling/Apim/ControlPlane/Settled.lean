import Apim.ControlPlane.Retention

/-!
# What a command settles

The parts of a snapshot that a body does not name come from the defaults: from the snapshot a
configure has read, or from what a promotion has read of both stages (`omitted_*`). What was settled
waits in the request and then, frozen, in the operation's row; nothing between the acceptance of an
operation and its application changes the row's input (`operation_input_run`).
-/

namespace Apim.ControlPlane
open Overlay Policy Trace Table Routing

/-! ### The parts of a snapshot -/

variable {app : App} {db : Database} {user : User} {body : PublishInput} {environment : Environment}
  {defaults : Option Defaults}

theorem settings_ok {kind : ResourceKind} {taxonomy : Taxonomy} {managed : Document}
    {config : Settings}
    (h : settings app db user body kind environment taxonomy defaults managed = .ok config) :
    ∃ address, settleAddress app body taxonomy defaults = .ok address ∧
      config.host = address.host ∧ config.basePath = address.basePath ∧
      settleBackend app db user body environment defaults = .ok config.backend ∧
      settlePolicy app db user body kind environment defaults managed = .ok config.policy ∧
      readGateways db environment (body.gateways.or (defaults.bind (·.gateways))) =
        .ok config.gateways := by
  simp only [settings, bind_ok] at h
  obtain ⟨address, haddress, backend, hbackend, policy, hpolicy, gateways, hgateways, hconfig⟩ := h
  obtain rfl := Except.ok.inj hconfig
  exact ⟨address, haddress, rfl, rfl, hbackend, hpolicy, hgateways⟩

theorem settleAddress_ok {taxonomy : Taxonomy} {address : Route}
    (h : settleAddress app body taxonomy defaults = .ok address) :
    address.host = (normalizeHost ((body.host.or (defaults.map (·.host))).getD "*")).1 ∧
      ∃ fallback, address.basePath = (normalizeBasePath
        ((body.basePath.or (defaults.map (·.basePath))).getD fallback)).1 := by
  cases hdomain : taxonomy.domain with
  | none =>
    simp only [settleAddress, hdomain, if_true] at h
    split at h
    · cases h
    · obtain rfl := Except.ok.inj h
      exact ⟨rfl, _, rfl⟩
  | some domain =>
    simp only [settleAddress, hdomain] at h
    split at h
    · cases h
    · split at h
      · obtain rfl := Except.ok.inj h
        exact ⟨rfl, _, rfl⟩
      · cases h

theorem settleBackend_ok {defaults : Defaults} {backend : Backend}
    (h : settleBackend app db user body environment (some defaults) = .ok backend)
    (hpool : body.pool = none) (hurl : body.backendUrl = none) (hcert : body.clientCertRef = none) :
    backend = defaults.backend := by
  simp only [settleBackend, hpool, hurl, hcert, bind_ok, require_ok, orRefuse_ok] at h
  obtain ⟨chosen, hchosen, -, -, hbackend⟩ := h
  obtain rfl := Option.some.inj hchosen
  exact (Except.ok.inj hbackend).symm

def settledPolicy (user : User) (asked : Document) (kept : Json) (managed : Document) : Document :=
  overlaid managed (if user.isAdmin then asked else asked.insert SUBSCRIPTION_KEY kept)

theorem settlePolicy_ok {kind : ResourceKind} {managed policy : Document}
    (h : settlePolicy app db user body kind environment defaults managed = .ok policy) :
    policy = settledPolicy user ((body.policy.or (defaults.map (·.policy))).getD DEFAULT_POLICY)
        (keptSubscriptionKey defaults) managed ∧
      Valid app.platform.validateUnit kind policy := by
  simp only [settlePolicy, bind_ok, require_ok] at h
  obtain ⟨-, -, -, -, -, -, -, -, -, hvalid, hpolicy⟩ := h
  obtain rfl := Except.ok.inj hpolicy
  exact ⟨rfl, List.isEmpty_iff.mp hvalid⟩

def namedGateways (requested : List String) : List String :=
  (requested.map fun n => String.ofList (trim n.toList)).filter fun n => !n.isEmpty

theorem readGateways_ok {requested : List String} {names : List String}
    (h : readGateways db environment (some requested) = .ok names) (name : String) :
    name ∈ names ↔ name ∈ namedGateways requested := by
  unfold readGateways at h
  dsimp only at h
  split at h
  · cases h
  · split at h
    · cases h
    split at h
    · cases h
    obtain rfl := Except.ok.inj h
    rw [List.mem_insertionSort, List.mem_dedup, namedGateways]

theorem mem_resolveGateways {names names' : List String}
    (hsame : ∀ name, name ∈ names ↔ name ∈ names') (id : TargetId) :
    id ∈ (resolveGateways db environment names).1 ↔
      id ∈ (resolveGateways db environment names').1 := by
  simp only [resolveGateways, List.mem_filterMap]
  exact exists_congr fun name => and_congr_left fun _ => hsame name

/-! ### What waits in a request -/

def Request.Settled (app : App) : Request → Prop
  | .publish user body environment config =>
    ∃ db, publishSettle app db user body environment = .ok config
  | .configure _ _ read => read.previous.gateways.isSome
  | .configureSettled user body read config => read.previous.gateways.isSome ∧
    ∃ db, configureSettle app db user body read = .ok config
  | .promote _ _ _ => True
  | .promoteSettled user body read config => ∃ db, promoteSettle app db user body read = .ok config

structure State.Waiting (app : App) (s : State) : Prop where
  operations : ∀ o ∈ s.db.ledger.operations, o.input.gateways.isSome
  requests : ∀ r ∈ s.requests, r.Settled app

theorem currentSnapshot_gateways {stage : Stage} {snapshot : Snapshot}
    (hoperations : ∀ o ∈ db.ledger.operations, o.input.gateways.isSome)
    (h : currentSnapshot db stage = some snapshot) : snapshot.gateways.isSome := by
  unfold currentSnapshot at h
  split at h
  next o ho =>
    obtain rfl := Option.some.inj h
    exact hoperations o (List.mem_of_mem_filter (List.mem_of_getLast? ho))
  next =>
    simp only [Option.bind_eq_bind, Option.bind_eq_some_iff] at h
    obtain ⟨release, -, route, -, backend, -, hsnapshot⟩ := h
    obtain rfl := Option.some.inj hsnapshot
    rfl

theorem configureRead_ok {id : ResourceId} {read : ConfigureRead}
    (h : configureRead app db user id body = .ok read) :
    resourceOf db id = some read.resource ∧
      currentSnapshot db (id, read.environment) = some read.previous := by
  simp only [configureRead, bind_ok, orRefuse_ok, require_ok] at h
  obtain ⟨resource, hresource, -, -, environment, -, -, -, -, -, -, -, previous, hprevious, hread⟩ :=
    h
  obtain rfl := Except.ok.inj hread
  exact ⟨hresource, hprevious⟩

def Request.accepted (next : ResourceId) : Request → Option (User × Stage × Settings)
  | .publish user _ environment config => some (user, (next, environment), config)
  | .configureSettled user _ read config =>
    some (user, (read.resource.id, read.environment), config)
  | .promoteSettled user _ read config =>
    some (user, (read.resource.id, read.environment), config)
  | _ => none

def Request.keptRevision : Request → Option RevisionId
  | .configureSettled _ body read _ => if body.source.isNone then some read.previous.revisionId else none
  | .promoteSettled _ _ read _ => some read.source.revisionId
  | _ => none

theorem LedgerWork.queued {s : State} {e : Event} {ms : List Move} (hwork : LedgerWork app s e ms)
    {row : Operation} (hm : .addOperation row ∈ ms) :
    ∃ index request config, e = .resume index ∧ s.requests[index]? = some request ∧
      request.accepted s.db.ledger.next =
        some (row.actor, (row.resourceId, row.environment), config) ∧
      ∃ rev parent source digest, row.input = config.snapshot rev parent source digest ∧
        ∀ kept, request.keptRevision = some kept → rev = kept := by
  have hwrite : ∀ {l : Ledger} {id : ResourceId} {definition : Definition} {at_ : Nat},
      .addOperation row ∉ l.writeMoves id definition at_ := by
    intro l id definition at_ hin
    unfold Ledger.writeMoves at hin
    dsimp only at hin
    split at hin
    · cases hin
    · rcases List.mem_pair.mp hin with hbad | hbad
      · cases hbad
      · cases hbad
  have hqueue : ∀ {l : Ledger} {new : OperationId → Operation} {at_ : Nat},
      .addOperation row ∈ queueMoves l new at_ → row = new l.next := by
    intro l new at_ hin
    rcases List.mem_pair.mp hin with hrow | hbad
    · exact Move.addOperation.inj hrow
    · cases hbad
  cases hwork with
  | @publish index user body environment config definition hrequest hcommit hsource =>
    rcases List.mem_cons.mp hm with hbad | hm
    · cases hbad
    · rcases List.mem_append.mp hm with hbad | hm
      · exact absurd hbad hwrite
      · obtain rfl := hqueue hm
        exact ⟨index, _, config, rfl, hrequest, rfl, _, _, _, _, rfl, nofun⟩
  | @configure index user body read config hrequest hcommit =>
    rcases List.mem_append.mp hm with hbad | hm
    · unfold configureMoves at hbad
      split at hbad
      · exact absurd hbad hwrite
      · cases hbad
    · obtain rfl := hqueue hm
      refine ⟨index, _, config, rfl, hrequest, rfl, _, _, _, _, rfl, fun kept hkept => ?_⟩
      cases hsource : body.source with
      | some definition =>
        simp only [Request.keptRevision, hsource, Option.isNone_some] at hkept
        cases hkept
      | none =>
        simp only [Request.keptRevision, hsource, Option.isNone_none, if_true] at hkept
        simp only [configureWritten, hsource]
        exact Option.some.inj hkept
  | @promote index user body read config hrequest hcommit =>
    obtain rfl := hqueue hm
    refine ⟨index, _, config, rfl, hrequest, rfl, _, _, _, _, rfl, fun kept hkept => ?_⟩
    exact Option.some.inj hkept
  | createRevision => exact absurd hm hwrite
  | release planId hrevision hplanned htarget =>
    rcases List.mem_append.mp hm with hm | hm
    · rcases hplanned with ⟨rfl, -⟩ | ⟨plan, rfl, -⟩
      · cases hm
      · cases List.mem_singleton.mp hm
    · simp at hm
  | announceDelete user id =>
    obtain ⟨target, -, hbad⟩ := List.mem_map.mp hm
    cases hbad
  | dismissed release state hbefore =>
    rcases List.mem_append.mp hm with hm | hm
    · rcases hbefore with rfl | ⟨f, rfl⟩
      · cases hm
      · cases List.mem_singleton.mp hm
    · cases List.mem_singleton.mp hm
  | correctRevision | createVersion =>
    rcases List.mem_pair.mp hm with hbad | hbad
    · cases hbad
    · cases hbad
  | nothing => cases hm
  | dryRun | withdraw | delete | applied | failed | complete | startJob | finishJob | requeueJobs
  | enqueuePrune | administer | prune | removed | converged | threw =>
    cases List.mem_singleton.mp hm

theorem moves_operation {l l' : Ledger} {ms : List Move} (hl : l.Sound)
    (h : moves l ms = some l') {o' : Operation} (ho' : o' ∈ l'.operations) :
    (∃ o ∈ l.operations, o.id = o'.id ∧ o.input = o'.input ∧ o.actor = o'.actor ∧
        o.resourceId = o'.resourceId ∧ o.environment = o'.environment ∧
        (o'.waits = true → o.waits = true)) ∨
      l.next ≤ o'.id ∧ ∃ row, .addOperation row ∈ ms ∧ row.input = o'.input ∧
        row.actor = o'.actor ∧ row.resourceId = o'.resourceId ∧
        row.environment = o'.environment := by
  induction ms generalizing l with
  | nil =>
    obtain rfl := Option.some.inj h
    exact .inl ⟨o', ho', rfl, rfl, rfl, rfl, rfl, id⟩
  | cons m ms ih =>
    obtain ⟨mid, hmid, hrest⟩ := exec_cons_eq_some h
    rcases ih (move_sound hl hmid) hrest with
      ⟨o, ho, hid, hinput, hactor, hresource, henvironment, hstill⟩ | ⟨hlate, row, hrow, hsame⟩
    · cases move_operation hl hmid ho with
      | kept ho => exact .inl ⟨o, ho, hid, hinput, hactor, hresource, henvironment, hstill⟩
      | retried was hwas hwaits at_ heq | applied was hwas hwaits revision at_ hm heq =>
        rw [heq] at hid hinput hactor hresource henvironment
        exact .inl ⟨was, hwas, hid, hinput, hactor, hresource, henvironment, fun _ => hwaits⟩
      | completed was hwas hstate heq =>
        rw [heq] at hid hinput hactor hresource henvironment hstill
        exact .inl ⟨was, hwas, hid, hinput, hactor, hresource, henvironment,
          fun hwaits => absurd (hstill hwaits) (by simp [Operation.waits])⟩
      | queued hm hnew hstate hrelease =>
        refine .inr ⟨(hnew.ge).trans hid.le, o, ?_, hinput, hactor, hresource, henvironment⟩
        rw [hm]
        exact List.mem_cons_self
    · exact .inr ⟨(move_grew hmid).next.trans hlate, row, List.mem_cons_of_mem _ hrow, hsame⟩

theorem waiting_requests {s s' : State} {e : Event} (hs : s.Waiting app)
    (h : step app s e = some s') : ∀ r ∈ s'.requests, r.Settled app := by
  intro r hr
  cases e with
  | publish user body environment =>
    obtain ⟨request, hrequest, rfl⟩ := State.waiting_eq_some h
    rcases List.mem_append.mp hr with hold | hnew
    · exact hs.requests r hold
    · obtain rfl := List.mem_singleton.mp hnew
      obtain ⟨config, hconfig, rfl⟩ := map_eq_ok hrequest
      exact ⟨s.db, hconfig⟩
  | configure user id body =>
    obtain ⟨request, hrequest, rfl⟩ := State.waiting_eq_some h
    rcases List.mem_append.mp hr with hold | hnew
    · exact hs.requests r hold
    · obtain rfl := List.mem_singleton.mp hnew
      obtain ⟨read, hread, rfl⟩ := map_eq_ok hrequest
      exact currentSnapshot_gateways hs.operations (configureRead_ok hread).2
  | promote user id body =>
    obtain ⟨request, hrequest, rfl⟩ := State.waiting_eq_some h
    rcases List.mem_append.mp hr with hold | hnew
    · exact hs.requests r hold
    · obtain rfl := List.mem_singleton.mp hnew
      obtain ⟨read, hread, rfl⟩ := map_eq_ok hrequest
      trivial
  | resume index =>
    obtain ⟨request, hrequest, ⟨next, hnext, rfl⟩ | ⟨db, hdb, rfl⟩⟩ := step_resume h
    · rcases List.mem_or_eq_of_mem_set hr with hold | rfl
      · exact hs.requests r hold
      · have hwas := hs.requests request (List.mem_of_getElem? hrequest)
        rcases resumeRequest_settled hnext with ⟨user, body, read, config, rfl, hsettle, rfl⟩ |
          ⟨user, body, read, config, rfl, hsettle, rfl⟩
        · exact ⟨hwas, s.db, hsettle⟩
        · exact ⟨s.db, hsettle⟩
    · exact hs.requests r (List.mem_of_mem_eraseIdx hr)
  | crash =>
    obtain rfl := Option.some.inj h
    cases hr
  | putUnit | deleteUnit | copyFrom | putGlobalUnit | deleteGlobalUnit | copyGlobals | putRoute
  | putBinding | createRevision | correctRevision | createVersion | dryRun | release | withdraw
  | announceDelete | delete =>
    obtain ⟨db, -, rfl⟩ := State.write_eq_some h
    exact hs.requests r hr
  | operation id =>
    obtain ⟨o, -, -, rfl⟩ := step_operation h
    exact hs.requests r hr
  | startJob id =>
    obtain ⟨j, -, -, rfl⟩ := step_startJob h
    exact hs.requests r hr
  | executeJob id leased =>
    obtain ⟨j, -, -, rfl⟩ := step_executeJob h
    exact hs.requests r hr
  | finishJob id =>
    obtain ⟨-, rfl⟩ := step_finishJob h
    exact hs.requests r hr
  | administer estate =>
    obtain ⟨-, rfl⟩ := step_administer h
    exact hs.requests r hr
  | complete | requeueJobs | enqueuePrune | wait =>
    obtain rfl := Option.some.inj h
    exact hs.requests r hr

theorem step_waiting {s s' : State} {e : Event} (hsound : s.Sound) (hs : s.Waiting app)
    (h : step app s e = some s') : s'.Waiting app := by
  refine ⟨fun o' ho' => ?_, waiting_requests hs h⟩
  obtain ⟨ms, hwork, hmoves⟩ := step_moves hsound h
  rcases moves_operation hsound.ledger hmoves ho' with
    ⟨o, ho, -, hinput, -⟩ | ⟨-, row, hrow, hinput, -⟩
  · rw [← hinput]
    exact hs.operations o ho
  · obtain ⟨index, request, config, -, -, -, rev, parent, source, digest, hsnapshot, -⟩ :=
      hwork.queued hrow
    rw [← hinput, hsnapshot]
    rfl

theorem run_waiting {s : State} {events : List Event} (h : run app State.initial events = some s) :
    s.Sound ∧ s.Waiting app := by
  have hinitial : State.initial.Waiting app :=
    ⟨fun o ho => absurd ho List.not_mem_nil, fun r hr => absurd hr List.not_mem_nil⟩
  exact exec_invariant (I := fun s => s.Sound ∧ s.Waiting app)
    (fun _ _ _ hs hstep => ⟨step_sound hs.1 hstep, step_waiting hs.1 hs.2 hstep⟩)
    ⟨State.initial_sound, hinitial⟩ h

theorem move_keeps_operations {l l' : Ledger} {m : Move} (h : l.move m = some l') :
    l.operations.map (·.id) <+: l'.operations.map (·.id) := by
  cases m with
  | addOperation row =>
    simp only [Ledger.move, Option.ite_none_right_eq_some, Option.some.injEq] at h
    obtain ⟨-, rfl⟩ := h
    exact ⟨[row.id], by simp [Ledger.addOperation]⟩
  | retry id at_ =>
    simp only [Ledger.move, Option.ite_none_right_eq_some, Option.some.injEq] at h
    obtain ⟨-, rfl⟩ := h
    have hids := updateOperation_ids l id (f := (·.failedOnce at_)) fun _ => rfl
    exact hids ▸ List.prefix_rfl
  | publish id revision at_ =>
    obtain ⟨o, -, -, -, -, rfl⟩ := move_publish h
    have hids := updateOperation_ids l id (f := (·.applied l.next)) fun _ => rfl
    exact hids ▸ List.prefix_rfl
  | complete environment =>
    obtain rfl := Option.some.inj h
    have hids : (l.completeOperations environment).operations.map (·.id) =
        l.operations.map (·.id) := by
      refine map_id_of_mapped fun o => ?_
      split <;> rfl
    exact hids ▸ List.prefix_rfl
  | storeArtifact digest =>
    obtain rfl := Option.some.inj h
    unfold Ledger.storeArtifact
    split <;> exact List.prefix_rfl
  | enqueueJob work key at_ =>
    simp only [Ledger.move, Option.ite_none_right_eq_some, Option.some.injEq] at h
    obtain ⟨-, rfl⟩ := h
    unfold Ledger.enqueueJob
    split <;> exact List.prefix_rfl
  | prune options at_ =>
    obtain rfl := Option.some.inj h
    unfold Ledger.pruneOldRows Ledger.pruneRevisions
    split <;> exact List.prefix_rfl
  | freeze | remove | addPlan | deleteResource =>
    obtain rfl := Option.some.inj h
    exact List.prefix_rfl
  | number | addRevision | correct | addRelease | dismiss | converge | updateJobs =>
    simp only [Ledger.move, Option.ite_none_right_eq_some, Option.some.injEq] at h
    obtain ⟨-, rfl⟩ := h
    exact List.prefix_rfl

theorem operation_stays {l l' : Ledger} {ms : List Move} (h : moves l ms = some l')
    {o : Operation} (ho : o ∈ l.operations) : ∃ kept ∈ l'.operations, kept.id = o.id := by
  have hids : l.operations.map (·.id) <+: l'.operations.map (·.id) := by
    refine exec_invariant (I := fun mid : Ledger =>
      l.operations.map (·.id) <+: mid.operations.map (·.id)) ?_ List.prefix_rfl h
    exact fun _ _ _ hprefix hmove => hprefix.trans (move_keeps_operations hmove)
  exact List.mem_map.mp (hids.subset (List.mem_map_of_mem ho))

theorem operation_input_run {s s' : State} {events : List Event} (hs : s.Sound)
    (h : run app s events = some s') {o o' : Operation} (ho : o ∈ s.db.ledger.operations)
    (ho' : o' ∈ s'.db.ledger.operations) (hid : o'.id = o.id) :
    o'.input = o.input ∧ o'.actor = o.actor ∧ o'.resourceId = o.resourceId ∧
      o'.environment = o.environment := by
  induction events generalizing s o with
  | nil =>
    cases h
    obtain rfl := hs.ledger.operations.key_injective ho' ho hid
    exact ⟨rfl, rfl, rfl, rfl⟩
  | cons e events ih =>
    obtain ⟨mid, hmid, hrest⟩ := exec_cons_eq_some h
    obtain ⟨ms, -, hmoves⟩ := step_moves hs hmid
    have hmidSound := step_sound hs hmid
    -- the row is still there, as operations are never deleted
    obtain ⟨kept, hkept, hkeptId⟩ : ∃ kept ∈ mid.db.ledger.operations, kept.id = o.id :=
      operation_stays hmoves ho
    obtain ⟨hinput, hactor, hresource, henvironment⟩ := ih hmidSound hrest hkept
      (hid.trans hkeptId.symm)
    rcases moves_operation hs.ledger hmoves hkept with
      ⟨was, hwas, hwasId, hsame, hsameActor, hsameResource, hsameEnvironment, -⟩ | ⟨hlate, -⟩
    · obtain rfl := hs.ledger.operations.key_injective hwas ho (hwasId.trans hkeptId)
      exact ⟨hinput.trans hsame.symm, hactor.trans hsameActor.symm,
        hresource.trans hsameResource.symm, henvironment.trans hsameEnvironment.symm⟩
    · have hlt := hs.ledger.operations.below _ (List.mem_map_of_mem ho)
      rw [hkeptId] at hlate
      exact absurd hlt (Nat.not_lt.mpr hlate)

/-! ### An operation that is carried out -/

/-- The command that waits as `request` is accepted in `s₁`, as the operation `id` of `s₂`; the run
goes on to `s₃`, and there the operation is due and its transaction commits `after`. -/
structure CarriedOut (app : App) (request : Request) (id : OperationId) (s₁ s₂ s₃ : State)
    (after : Database) : Prop where
  reachable : Reachable app s₁
  accepted : ∃ index, s₁.requests[index]? = some request ∧ step app s₁ (.resume index) = some s₂
  queued : operationOf s₁.db.ledger id = none ∧ (operationOf s₂.db.ledger id).isSome
  later : ∃ events, run app s₂ events = some s₃
  applied : ∃ o, operationOf s₃.db.ledger id = some o ∧ o.due s₃.db.clock = true ∧
    applyOperation app s₃.db o = .ok (some after)

variable {id : OperationId} {request : Request} {after : Database}

theorem CarriedOut.operation {s₁ s₂ s₃ : State} (h : CarriedOut app request id s₁ s₂ s₃ after) :
    ∃ (o : Operation) (config : Settings) (rev : RevisionId) (parent : Option OperationId)
      (source : Option Environment) (digest : String),
      request.accepted s₁.db.ledger.next =
        some (o.actor, (o.resourceId, o.environment), config) ∧
      o.input = config.snapshot rev parent source digest ∧
      (∀ kept, request.keptRevision = some kept → rev = kept) ∧
      applyOperation app s₃.db o = .ok (some after) := by
  obtain ⟨index, hrequest, haccept⟩ := h.accepted
  obtain ⟨middle, hmiddle⟩ := h.later
  obtain ⟨o, ho, -, happly⟩ := h.applied
  obtain ⟨hnew, hthere⟩ := h.queued
  have h₁ := h.reachable.sound
  have h₂ := step_sound h₁ haccept
  have h₃ := run_sound h₂ hmiddle
  obtain ⟨hoMem, hoId⟩ := (operationOf_eq_some h₃.ledger).mp ho
  obtain ⟨first, hfirst⟩ := Option.isSome_iff_exists.mp hthere
  obtain ⟨hfirstMem, hfirstId⟩ := (operationOf_eq_some h₂.ledger).mp hfirst
  obtain ⟨hinput, hactor, hresource, henvironment⟩ :=
    operation_input_run h₂ hmiddle hfirstMem hoMem (hoId.trans hfirstId.symm)
  obtain ⟨ms, hwork, hmoves⟩ := step_moves h₁ haccept
  rcases moves_operation h₁.ledger hmoves hfirstMem with
    ⟨was, hwas, hwasId, -⟩ | ⟨-, row, hrow, hrowInput, hrowActor, hrowResource, hrowEnvironment⟩
  · -- the number is new, so the row is not one of before
    rw [(operationOf_eq_some h₁.ledger).mpr ⟨hwas, hwasId.trans hfirstId⟩] at hnew
    cases hnew
  · obtain ⟨i, request', config, hevent, hrequest', haccepted, rev, parent, source, digest,
      hsnapshot, hkept⟩ := hwork.queued hrow
    obtain rfl := Event.resume.inj hevent
    obtain rfl : request = request' := Option.some.inj (hrequest.symm.trans hrequest')
    refine ⟨o, config, rev, parent, source, digest, ?_, ?_, hkept, happly⟩
    · rw [haccepted, hactor, hresource, henvironment, hrowActor, hrowResource, hrowEnvironment]
    · rw [hinput, ← hrowInput, hsnapshot]

theorem CarriedOut.settled {s₁ s₂ s₃ : State} (h : CarriedOut app request id s₁ s₂ s₃ after) :
    request.Settled app := by
  obtain ⟨index, hrequest, -⟩ := h.accepted
  obtain ⟨events, hevents⟩ := h.reachable
  exact (run_waiting hevents).2.requests request (List.mem_of_getElem? hrequest)

theorem convergedIn_published (l : Ledger) (o : Operation) (revision : Revision) (at_ : Nat) :
    convergedIn (l.publish o revision at_) (o.resourceId, o.environment) =
      some (o.published revision at_ l.next) := by
  have hold : (l.moveReleases (o.resourceId, o.environment) .converged
      .superseded).releases.find? (fun r => r.resourceId == o.resourceId &&
        r.environment == o.environment && r.state == .converged) = none := by
    refine List.find?_eq_none.mpr fun r hr hlive => ?_
    simp only [Bool.and_eq_true, beq_iff_eq] at hlive
    obtain ⟨⟨hresource, henvironment⟩, hstate⟩ := hlive
    rcases mem_moveReleases hr with ⟨-, hleft⟩ | ⟨was, -, -, -, -, rfl⟩
    · exact hleft ⟨hresource, henvironment, hstate⟩
    · cases hstate
  have hnew : [o.published revision at_ l.next].find? (fun r => r.resourceId == o.resourceId &&
      r.environment == o.environment && r.state == .converged) =
        some (o.published revision at_ l.next) := by
    simp [Operation.published]
  change ((l.moveReleases (o.resourceId, o.environment) .converged .superseded).releases ++
    [o.published revision at_ l.next]).find? _ = _
  rw [List.find?_append, hold, Option.none_or]
  exact hnew

theorem applied_rows {o : Operation} (h : applyOperation app db o = .ok (some after)) :
    (convergedIn after.ledger (o.resourceId, o.environment)).map (·.revisionId) =
        some o.input.revisionId ∧
      after.live.route (o.resourceId, o.environment) = some ⟨o.input.host, o.input.basePath⟩ ∧
      after.live.binding (o.resourceId, o.environment) = some o.input.backend ∧
      after.live.routeGateway (o.resourceId, o.environment) =
        (chosenGateways db o.environment o.input).1 ∧
      resourceUnits after.live (o.resourceId, o.environment) =
        departures o.input.policy (inheritedUnits db.live o.environment) ∧
      ∀ environment, inheritedUnits after.live environment =
        inheritedUnits db.live environment := by
  obtain ⟨revision, route, -, -, -, -, -, -, rfl⟩ := applyOperation_ok h
  refine ⟨?_, ?_, ?_, ?_, ?_, fun _ => rfl⟩
  · have hlive := convergedIn_published db.ledger o revision db.clock
    exact congrArg (Option.map (·.revisionId)) hlive
  · exact Function.update_self ..
  · exact Function.update_self ..
  · exact Function.update_self ..
  · exact Function.update_self ..

def carryOut (app : App) (front : List Event) (index : Nat) (middle : List Event)
    (id : OperationId) : Option (Request × State × State × State × Database) := do
  let s₁ ← run app State.initial front
  let request ← s₁.requests[index]?
  let s₂ ← step app s₁ (.resume index)
  let s₃ ← run app s₂ middle
  let o ← operationOf s₃.db.ledger id
  match applyOperation app s₃.db o with
  | .ok (some after) =>
    if (operationOf s₁.db.ledger id).isNone && (operationOf s₂.db.ledger id).isSome &&
        o.due s₃.db.clock then
      some (request, s₁, s₂, s₃, after)
    else none
  | _ => none

theorem carryOut_accepted {front middle : List Event} {index : Nat} {s₁ s₂ s₃ : State}
    (h : carryOut app front index middle id = some (request, s₁, s₂, s₃, after)) :
    run app State.initial front = some s₁ ∧ s₁.requests[index]? = some request := by
  simp only [carryOut, Option.bind_eq_bind, Option.bind_eq_some_iff] at h
  obtain ⟨a, hfront, r, hrequest, b, -, c, -, o, -, h⟩ := h
  split at h
  · split at h
    · cases h
      exact ⟨hfront, hrequest⟩
    · cases h
  · cases h

theorem carriedOut_of_carryOut {front middle : List Event} {index : Nat} {s₁ s₂ s₃ : State}
    (h : carryOut app front index middle id = some (request, s₁, s₂, s₃, after)) :
    CarriedOut app request id s₁ s₂ s₃ after := by
  simp only [carryOut, Option.bind_eq_bind, Option.bind_eq_some_iff] at h
  obtain ⟨a, hfront, r, hrequest, b, haccept, c, hmiddle, o, ho, h⟩ := h
  split at h
  next db happly =>
    split at h
    next hguard =>
      cases h
      simp only [Bool.and_eq_true, Option.isNone_iff_eq_none] at hguard
      obtain ⟨⟨hnew, hthere⟩, hdue⟩ := hguard
      exact ⟨⟨front, hfront⟩, ⟨index, hrequest, haccept⟩, ⟨hnew, hthere⟩, ⟨middle, hmiddle⟩,
        ⟨o, ho, hdue, happly⟩⟩
    next => cases h
  next => cases h

def polledGateways : Estate :=
  { twoGateways with instances := [⟨3, 1, some "sha256:2048", some 0, none⟩] }

def publishedPets : List Event :=
  [.administer polledGateways, .publish developer publishPets "dev", .resume 0, .operation 5,
    .complete "dev"]

end Apim.ControlPlane
