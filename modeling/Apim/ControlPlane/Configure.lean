import Apim.ControlPlane.Settled

/-!
# What a configure leaves alone

A configure that does not name a part of an API should leave that part as it is. It is queued with a
whole snapshot, and the parts its body does not name are the ones of the snapshot it has read, which
is the input of the newest operation wherever there is one. So the parts are left alone exactly when
that snapshot is still the live state at the moment the configure is applied
(`keepsOmitted_iff`).
-/

namespace Apim.ControlPlane
open Overlay Policy Trace Routing

theorem configureSettle_ok {app : App} {db : Database} {user : User} {body : PublishInput}
    {read : ConfigureRead} {config : Settings}
    (h : configureSettle app db user body read = .ok config) :
    (body.host = none → config.host = (normalizeHost read.previous.host).1) ∧
      (body.basePath = none → config.basePath = (normalizeBasePath read.previous.basePath).1) ∧
      (body.pool = none → body.backendUrl = none → body.clientCertRef = none →
        config.backend = read.previous.backend) ∧
      (body.policy = none → config.policy = settledPolicy user read.previous.policy
        (keptSubscriptionKey (some read.previous.defaults)) (managedUnitsFor read.resource)) ∧
      (body.gateways = none → ∀ names, read.previous.gateways = some names →
        ∀ name, name ∈ config.gateways ↔ name ∈ namedGateways names) := by
  simp only [configureSettle, bind_ok] at h
  obtain ⟨taxonomy, -, hconfig⟩ := h
  obtain ⟨address, haddress, hhost, hbase, hbackend, hpolicy, hgateways⟩ := settings_ok hconfig
  obtain ⟨haddressHost, fallback, haddressBase⟩ := settleAddress_ok haddress
  refine ⟨fun hnone => ?_, fun hnone => ?_, fun hpool hurl hcert => ?_, fun hnone => ?_,
    fun hnone names hnames name => ?_⟩
  · have hbody : (body.ofResource read.resource).host = none := hnone
    rw [hhost, haddressHost, hbody]
    rfl
  · have hbody : (body.ofResource read.resource).basePath = none := hnone
    rw [hbase, haddressBase, hbody]
    rfl
  · exact settleBackend_ok hbackend hpool hurl hcert
  · have hbody : (body.ofResource read.resource).policy = none := hnone
    rw [(settlePolicy_ok hpolicy).1, hbody]
    rfl
  · have hbody : (body.ofResource read.resource).gateways = none := hnone
    have hdefaults : (some read.previous.defaults).bind (·.gateways) = some names := hnames
    rw [hbody, Option.none_or, hdefaults] at hgateways
    exact readGateways_ok hgateways name

/-- The parts of a stage that the body of a configure does not name are the same in both databases:
the revision of the live release, the address, the backend, the gateways, and for each unit whether
the API inherits it and the value it has. -/
structure KeepsOmitted (body : PublishInput) (stage : Stage) (before after : Database) : Prop where
  revision : body.source = none → (convergedIn after.ledger stage).map (·.revisionId) =
    (convergedIn before.ledger stage).map (·.revisionId)
  host : body.host = none →
    (after.live.route stage).map (·.host) = (before.live.route stage).map (·.host)
  basePath : body.basePath = none →
    (after.live.route stage).map (·.basePath) = (before.live.route stage).map (·.basePath)
  backend : body.pool = none → body.backendUrl = none → body.clientCertRef = none →
    after.live.binding stage = before.live.binding stage
  gateways : body.gateways = none →
    ∀ id, id ∈ after.live.routeGateway stage ↔ id ∈ before.live.routeGateway stage
  policy : body.policy = none → ∀ unit,
    (Inherited after.live stage unit ↔ Inherited before.live stage unit) ∧
      (effectiveDocument after.live stage).lookup unit =
        (effectiveDocument before.live stage).lookup unit

/-- The parts of the snapshot a configure has read that its body does not name are those of the
database: the policy is compared as it is settled, unit by unit, with the rows of the stage and
the tier over which they lie. -/
structure SnapshotIsLive (user : User) (body : PublishInput) (read : ConfigureRead)
    (db : Database) : Prop where
  revision : body.source = none →
    (convergedIn db.ledger (read.resource.id, read.environment)).map (·.revisionId) =
      some read.previous.revisionId
  host : body.host = none →
    (db.live.route (read.resource.id, read.environment)).map (·.host) =
      some (normalizeHost read.previous.host).1
  basePath : body.basePath = none →
    (db.live.route (read.resource.id, read.environment)).map (·.basePath) =
      some (normalizeBasePath read.previous.basePath).1
  backend : body.pool = none → body.backendUrl = none → body.clientCertRef = none →
    db.live.binding (read.resource.id, read.environment) = some read.previous.backend
  gateways : body.gateways = none → ∀ names, read.previous.gateways = some names →
    ∀ id, id ∈ db.live.routeGateway (read.resource.id, read.environment) ↔
      id ∈ (resolveGateways db read.environment (namedGateways names)).1
  policy : body.policy = none → ∀ unit,
    Restates (resourceUnits db.live (read.resource.id, read.environment))
      (settledPolicy user read.previous.policy (keptSubscriptionKey (some read.previous.defaults))
        (managedUnitsFor read.resource))
      (inheritedUnits db.live read.environment) unit

theorem keepsOmitted_iff {app : App} {user : User} {body : PublishInput} {read : ConfigureRead}
    {config : Settings} {id : OperationId} {s₁ s₂ s₃ : State} {after : Database}
    (h : CarriedOut app (.configureSettled user body read config) id s₁ s₂ s₃ after) :
    KeepsOmitted body (read.resource.id, read.environment) s₃.db after ↔
      SnapshotIsLive user body read s₃.db := by
  obtain ⟨hnamed, settledAt, hsettle⟩ := h.settled
  obtain ⟨names, hnames⟩ := Option.isSome_iff_exists.mp hnamed
  obtain ⟨o, config', rev, parent, source, digest, haccepted, hinput, hrev, happly⟩ := h.operation
  simp only [Request.accepted, Option.some.injEq, Prod.mk.injEq] at haccepted
  obtain ⟨rfl, ⟨hresource, henvironment⟩, rfl⟩ := haccepted
  obtain ⟨hhost, hbase, hbackend, hpolicy, hgateways⟩ := configureSettle_ok hsettle
  obtain ⟨hrevision, hroute, hbinding, hselected, hrows, htier⟩ := applied_rows happly
  rw [← hresource, ← henvironment] at hrevision hroute hbinding hselected hrows
  rw [hinput] at hrevision hroute hbinding hselected hrows
  -- the gateways of the snapshot are looked up by name, in whatever order they are listed
  have hchosen : body.gateways = none → ∀ target,
      target ∈ after.live.routeGateway (read.resource.id, read.environment) ↔
        target ∈ (resolveGateways s₃.db read.environment (namedGateways names)).1 := by
    intro hnone target
    rw [hselected]
    exact mem_resolveGateways (hgateways hnone names hnames) target
  have hunits : body.policy = none → ∀ unit,
      Restates (resourceUnits s₃.db.live (read.resource.id, read.environment))
          (settledPolicy o.actor read.previous.policy
            (keptSubscriptionKey (some read.previous.defaults)) (managedUnitsFor read.resource))
          (inheritedUnits s₃.db.live read.environment) unit ↔
        (Inherited after.live (read.resource.id, read.environment) unit ↔
            Inherited s₃.db.live (read.resource.id, read.environment) unit) ∧
          (effectiveDocument after.live (read.resource.id, read.environment)).lookup unit =
            (effectiveDocument s₃.db.live (read.resource.id, read.environment)).lookup unit := by
    intro hnone unit
    rw [restates_iff, ← hpolicy hnone]
    simp only [Inherited, AttachedGlobally, effectiveDocument, hrows, htier]
    exact Iff.rfl
  constructor
  · intro hkeeps
    refine ⟨fun hnone => ?_, fun hnone => ?_, fun hnone => ?_, fun hpool hurl hcert => ?_,
      fun hnone names' hnames' target => ?_, fun hnone unit => ?_⟩
    · have hkept : rev = read.previous.revisionId := hrev _ (by simp [Request.keptRevision, hnone])
      rw [← hkeeps.revision hnone, hrevision, ← hkept]
      rfl
    · rw [← hkeeps.host hnone, hroute, ← hhost hnone]
      rfl
    · rw [← hkeeps.basePath hnone, hroute, ← hbase hnone]
      rfl
    · rw [← hkeeps.backend hpool hurl hcert, hbinding, ← hbackend hpool hurl hcert]
      rfl
    · obtain rfl : names = names' := Option.some.inj (hnames.symm.trans hnames')
      exact (hkeeps.gateways hnone target).symm.trans (hchosen hnone target)
    · exact (hunits hnone unit).mpr (hkeeps.policy hnone unit)
  · intro hlive
    refine ⟨fun hnone => ?_, fun hnone => ?_, fun hnone => ?_, fun hpool hurl hcert => ?_,
      fun hnone target => ?_, fun hnone unit => ?_⟩
    · have hkept : rev = read.previous.revisionId := hrev _ (by simp [Request.keptRevision, hnone])
      rw [hlive.revision hnone, hrevision, ← hkept]
      rfl
    · rw [hlive.host hnone, hroute, ← hhost hnone]
      rfl
    · rw [hlive.basePath hnone, hroute, ← hbase hnone]
      rfl
    · rw [hlive.backend hpool hurl hcert, hbinding, ← hbackend hpool hurl hcert]
      rfl
    · exact (hchosen hnone target).trans (hlive.gateways hnone names hnames target).symm
    · exact (hunits hnone unit).mp (hlive.policy hnone unit)

def observedLive (request : Request) (db : Database) : Bool :=
  match request with
  | .configureSettled user _ read _ =>
    let stage := (read.resource.id, read.environment)
    (convergedIn db.ledger stage).map (·.revisionId) == some read.previous.revisionId &&
      (db.live.route stage).map (·.host) == some (normalizeHost read.previous.host).1 &&
      (db.live.route stage).map (·.basePath) ==
        some (normalizeBasePath read.previous.basePath).1 &&
      db.live.binding stage == some read.previous.backend &&
      (read.previous.gateways.all fun names => db.live.routeGateway stage ==
        (resolveGateways db read.environment (namedGateways names)).1) &&
      (inheritedUnits db.live read.environment).entries.isEmpty &&
      decide ((resourceUnits db.live stage).entries = (settledPolicy user read.previous.policy
        (keptSubscriptionKey (some read.previous.defaults))
        (managedUnitsFor read.resource)).entries)
  | _ => false

theorem snapshotIsLive_of_observed {user : User} {body : PublishInput} {read : ConfigureRead}
    {config : Settings} {db : Database}
    (h : observedLive (.configureSettled user body read config) db = true) :
    SnapshotIsLive user body read db := by
  simp only [observedLive, Bool.and_eq_true, beq_iff_eq, decide_eq_true_eq,
    List.isEmpty_iff] at h
  obtain ⟨⟨⟨⟨⟨⟨hrevision, hhost⟩, hbase⟩, hbinding⟩, hgateways⟩, htier⟩, hrows⟩ := h
  refine ⟨fun _ => hrevision, fun _ => hhost, fun _ => hbase, fun _ _ _ => hbinding,
    fun _ names hnames id => ?_, fun _ unit => ?_⟩
  · rw [hnames] at hgateways
    have hids := beq_iff_eq.mp hgateways
    rw [hids]
  · have hempty : (inheritedUnits db.live read.environment).lookup unit = none := by
      rw [AList.lookup_eq_none]
      exact fun hin => by simpa [AList.mem_keys, AList.keys, htier] using hin
    rw [Restates, AList.ext hrows]
    split
    next value hvalue => exact ⟨hvalue, by rw [hempty]; nofun⟩
    next hnone => exact .inl hnone

def configuresPets : List Event :=
  [.configure developer 3 (configurePets "dev" "configure"), .resume 0]

theorem configure_keeps : ∃ user body read config s₁ s₂ s₃ after,
    CarriedOut twoStages (.configureSettled user body read config) 7 s₁ s₂ s₃ after ∧
      KeepsOmitted body (read.resource.id, read.environment) s₃.db after := by
  have hseen : ((carryOut twoStages (publishedPets ++ configuresPets) 0 [.wait 60000] 7).map
      fun r => observedLive r.1 r.2.2.2.1.db) = some true := by decide +kernel
  obtain ⟨⟨request, s₁, s₂, s₃, after⟩, hrun, hlive⟩ := Option.map_eq_some_iff.mp hseen
  cases request with
  | configureSettled user body read config =>
    have hcarried := carriedOut_of_carryOut hrun
    exact ⟨user, body, read, config, s₁, s₂, s₃, after, hcarried,
      (keepsOmitted_iff hcarried).mpr (snapshotIsLive_of_observed hlive)⟩
  | publish | configure | promote | promoteSettled => cases hlive

theorem backend_moved_back : ∃ user body read config s₁ s₂ s₃ after,
    CarriedOut twoStages (.configureSettled user body read config) 7 s₁ s₂ s₃ after ∧
      ¬ KeepsOmitted body (read.resource.id, read.environment) s₃.db after := by
  have hseen : ((carryOut twoStages (publishedPets ++
      [.putBinding developer 3 "dev" ⟨[⟨"https://pets-2", none⟩], .failover, none⟩] ++
        configuresPets) 0 [] 7).map fun r =>
      match r.1 with
      | .configureSettled _ body read _ =>
        body.pool.isNone && body.backendUrl.isNone && body.clientCertRef.isNone &&
          r.2.2.2.2.live.binding (read.resource.id, read.environment) !=
            r.2.2.2.1.db.live.binding (read.resource.id, read.environment)
      | _ => false) = some true := by decide +kernel
  obtain ⟨⟨request, s₁, s₂, s₃, after⟩, hrun, hmoved⟩ := Option.map_eq_some_iff.mp hseen
  cases request with
  | configureSettled user body read config =>
    simp only [Bool.and_eq_true, Option.isNone_iff_eq_none, bne_iff_ne] at hmoved
    obtain ⟨⟨⟨hpool, hurl⟩, hcert⟩, hmoved⟩ := hmoved
    refine ⟨user, body, read, config, s₁, s₂, s₃, after, carriedOut_of_carryOut hrun, ?_⟩
    exact fun hkeeps => hmoved (hkeeps.backend hpool hurl hcert)
  | publish | configure | promote | promoteSettled => cases hmoved

end Apim.ControlPlane
