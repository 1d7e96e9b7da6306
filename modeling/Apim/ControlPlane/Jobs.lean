import Apim.ControlPlane.Apply

/-!
# Reconcile jobs

The job that applies a pending release or takes an API out of an environment
(`control-plane/src/jobs.ts:107-367`), and how jobs are taken, run and retried (`jobs.ts:370-453`).
A job is at least once: it is marked done only after its transaction, and one left running for a
minute is queued again.
-/

namespace Apim.ControlPlane
open Overlay Policy

inductive ReconcileFailure where
  | unrecoverable
  | noGateway
  | paused (names : List String)
  | leased
  | planMissing
  | gone
  | blocked (blockers : List BlockerCode)
  | noRoute

def ReconcileFailure.final : ReconcileFailure → Bool
  | .unrecoverable => true
  | _ => false

/-! ### Where a job writes -/

/-- The environment of a job: its gateway's, else the one it carries, else its release's
(`jobs.ts:117-135`). -/
def jobEnvironment (db : Database) (payload : ReconcilePayload) : Option Environment :=
  let handle := db.estate.targets.find? fun t => t.id == payload.targetId
  let release := payload.releaseId.bind (releaseOf db.ledger)
  ((handle.map (·.environment)).or payload.environment).or (release.map (·.environment))

/-- The gateways a job needs (`jobs.ts:142-156`). -/
def affectedGateways (db : Database) (payload : ReconcilePayload) (environment : Environment) :
    List Target :=
  let bound := db.live.routeGateway (payload.resourceId, environment)
  (gatewaysIn db environment).filter fun t =>
    payload.intent == .remove || bound.isEmpty || bound.contains t.id

/-! ### The two transactions -/

/-- The `remove` branch (`jobs.ts:174-210`): the live release is withdrawn, every pending one is
stale, and nothing of the API stays applied in the environment. -/
def removeStage (db : Database) (stage : Stage) : Database :=
  { db with
    ledger := (db.ledger.moveReleases stage .converged .withdrawn).moveReleases stage .pending .stale
    live := { db.live with
      routeGateway := Function.update db.live.routeGateway stage []
      applied := db.live.applied.filter fun a => !(a.resourceId == stage.1 &&
        db.estate.targets.any fun t => t.id == a.targetId && t.environment == stage.2) } }

/-- A release of the stage inserted after this one has reached the fleet (`jobs.ts:246-262`). -/
def overtaken (l : Ledger) (stage : Stage) (id : ReleaseId) : Bool :=
  l.releases.any fun r => r.resourceId == stage.1 && r.environment == stage.2 &&
    r.state.reachedFleet && id < r.id

/-- The release is live, and every other live one of the stage is superseded (`jobs.ts:306-311`). -/
def Ledger.converge (l : Ledger) (stage : Stage) (id : ReleaseId) : Ledger :=
  { l with releases := l.releases.map fun r =>
      if r.id = id then { r with state := .converged }
      else if r.resourceId = stage.1 ∧ r.environment = stage.2 ∧ r.state = .converged then
        { r with state := .superseded }
      else r }

/-- The plan of a release computed again, with the policy it seeds (`jobs.ts:275-304`); without a
plan nothing is seeded. -/
def seedPlan (app : App) (db : Database) (payload : ReconcilePayload) (environment : Environment)
    (release : Release) : Except ReconcileFailure Live :=
  match payload.planId with
  | none => .ok db.live
  | some planId =>
    match planOf db.ledger planId with
    | none => .error .planMissing
    | some stored =>
      match resourceOf db payload.resourceId, revisionOf db.ledger release.revisionId with
      | some resource, some revision =>
        let plan := computePlan app db resource revision environment stored.plan.skipChain
        if plan.blockers.isEmpty then .ok (applySeededUnits db.live plan)
        else .error (.blocked plan.blockers)
      | _, _ => .error .gone

/-- The gateways a converging release goes on: those it is bound to, or all of the environment's
(`jobs.ts:327-347`). -/
def releaseGateways (db : Database) (stage : Stage) : List TargetId :=
  let bound := db.live.routeGateway stage
  if bound.isEmpty then
    (db.estate.targets.filter fun t => t.environment == stage.2).map (·.id)
  else bound

/-- The `apply` branch (`jobs.ts:212-364`); `none` when there is nothing to apply. -/
def applyRelease (app : App) (db : Database) (payload : ReconcilePayload)
    (environment : Environment) : Except ReconcileFailure (Option Database) :=
  let stage := (payload.resourceId, environment)
  match payload.releaseId.bind (releaseOf db.ledger) with
  | none => .ok none
  | some release =>
    if release.state ≠ .pending then .ok none
    else if overtaken db.ledger stage release.id then
      .ok (some { db with ledger := db.ledger.setRelease release.id .stale })
    else
      match seedPlan app db payload environment release with
      | .error failure => .error failure
      | .ok live =>
        let written : Database := { db with
          live := live, ledger := db.ledger.converge stage release.id }
        match (buildRoutes app.platform written environment none).1.find? fun r =>
            r.resourceId == payload.resourceId with
        | none => .error .noRoute
        | some route =>
          let ids := releaseGateways db stage
          .ok (some { written with live := { live with
            routeGateway := Function.update live.routeGateway stage ids
            applied := (live.applied.filter fun a =>
              !(a.resourceId == stage.1 && ids.contains a.targetId)) ++ ids.map fun id =>
                ⟨id, stage.1, release.revisionId, app.platform.appliedDigest route⟩ } })

variable {payload : ReconcilePayload}

theorem applyRelease_ok {app : App} {db db' : Database} {environment : Environment}
    (h : applyRelease app db payload environment = .ok (some db')) :
    ∃ release, payload.releaseId.bind (releaseOf db.ledger) = some release ∧
      release.state = .pending ∧
      ((overtaken db.ledger (payload.resourceId, environment) release.id = true ∧
          db' = { db with ledger := db.ledger.setRelease release.id .stale }) ∨
        overtaken db.ledger (payload.resourceId, environment) release.id = false ∧
        ∃ live route, seedPlan app db payload environment release = .ok live ∧
          route ∈ (buildRoutes app.platform { db with
              live := live
              ledger := db.ledger.converge (payload.resourceId, environment) release.id }
            environment none).1 ∧
          route.resourceId = payload.resourceId ∧
          db' = { db with
            ledger := db.ledger.converge (payload.resourceId, environment) release.id
            live := { live with
              routeGateway := Function.update live.routeGateway (payload.resourceId, environment)
                (releaseGateways db (payload.resourceId, environment))
              applied := (live.applied.filter fun a => !(a.resourceId == payload.resourceId &&
                  (releaseGateways db (payload.resourceId, environment)).contains a.targetId)) ++
                (releaseGateways db (payload.resourceId, environment)).map fun id =>
                  ⟨id, payload.resourceId, release.revisionId,
                    app.platform.appliedDigest route⟩ } }) := by
  unfold applyRelease at h
  dsimp only at h
  split at h
  · cases h
  next release hrelease =>
    refine ⟨release, hrelease, ?_⟩
    split at h
    · cases h
    next hpending =>
      refine ⟨by simpa using hpending, ?_⟩
      split at h
      next hover => exact .inl ⟨hover, (Option.some.inj (Except.ok.inj h)).symm⟩
      next hover =>
        refine .inr ⟨by simpa using hover, ?_⟩
        split at h
        · cases h
        next live hlive =>
          split at h
          · cases h
          next route hroute =>
            obtain rfl := Option.some.inj (Except.ok.inj h)
            exact ⟨live, route, hlive, List.mem_of_find?_eq_some hroute,
              by simpa using List.find?_some hroute, rfl⟩

/-- `reconcile` (`jobs.ts:107-367`); `leased` when another process holds the target. `none` when
there is nothing to do. -/
def reconcile (app : App) (db : Database) (payload : ReconcilePayload) (leased : Bool) :
    Except ReconcileFailure (Option Database) :=
  if payload.releaseId.any fun id => (releaseOf db.ledger id).isNone then .ok none
  else
    match jobEnvironment db payload with
    | none => .error .unrecoverable
    | some environment =>
      let affected := affectedGateways db payload environment
      let paused := affected.filter (·.paused)
      let handle := db.estate.targets.find? fun t => t.id == payload.targetId
      if payload.intent = .apply ∧ affected.isEmpty then .error .noGateway
      else if !paused.isEmpty then .error (.paused (paused.map (·.name)))
      else if leased || (handle.isNone && affected.isEmpty) then .error .leased
      else
        match payload.intent with
        | .remove => .ok (some (removeStage db (payload.resourceId, environment)))
        | .apply => applyRelease app db payload environment

theorem reconcile_ok {app : App} {db db' : Database} {leased : Bool}
    (h : reconcile app db payload leased = .ok (some db')) :
    ∃ environment, jobEnvironment db payload = some environment ∧
      ((payload.intent = .remove ∧ db' = removeStage db (payload.resourceId, environment)) ∨
        payload.intent = .apply ∧ applyRelease app db payload environment = .ok (some db')) := by
  unfold reconcile at h
  split at h
  · cases h
  split at h
  · cases h
  next environment henvironment =>
    refine ⟨environment, henvironment, ?_⟩
    dsimp only at h
    split at h
    · cases h
    split at h
    · cases h
    split at h
    · cases h
    split at h
    next hintent => exact .inl ⟨hintent, (Option.some.inj (Except.ok.inj h)).symm⟩
    next hintent => exact .inr ⟨hintent, h⟩

theorem seedPlan_ok {app : App} {db : Database} {environment : Environment} {release : Release}
    {live : Live} (h : seedPlan app db payload environment release = .ok live) :
    (payload.planId = none ∧ live = db.live) ∨
      ∃ planId resource revision skipChain, payload.planId = some planId ∧
        resourceOf db payload.resourceId = some resource ∧
        revisionOf db.ledger release.revisionId = some revision ∧
        (computePlan app db resource revision environment skipChain).blockers = [] ∧
        live = applySeededUnits db.live
          (computePlan app db resource revision environment skipChain) := by
  unfold seedPlan at h
  split at h
  next hplan => exact .inl ⟨hplan, (Except.ok.inj h).symm⟩
  next planId hplan =>
    split at h
    · cases h
    next stored hstored =>
      split at h
      next resource revision hresource hrevision =>
        dsimp only at h
        split at h
        next hblockers =>
          exact .inr ⟨planId, resource, revision, stored.plan.skipChain, hplan, hresource,
            hrevision, List.isEmpty_iff.mp hblockers, (Except.ok.inj h).symm⟩
        · cases h
      · cases h

/-! ### Taking, running and retrying a job -/

def Job.due (j : Job) (now : Nat) : Bool := j.state == .queued && j.nextAttemptAt.all (· ≤ now)

def Job.started (j : Job) (now : Nat) : Job :=
  { j with state := .running, attempts := j.attempts + 1, updatedAt := now }

/-- `MAX_ATTEMPTS` (`jobs.ts:21`). -/
def MAX_ATTEMPTS : Nat := 3

/-- A job that threw (`jobs.ts:412-430`): a reconcile is retried however often it fails. -/
def Job.threw (j : Job) (finished : Bool) (now : Nat) : Job :=
  { j with
    state := if finished then .failed else .queued
    nextAttemptAt := some (now + backoff j.attempts)
    updatedAt := now }

/-- A release whose job can never succeed fails, if it still waits (`jobs.ts:431-441`). -/
def failPending (l : Ledger) (releaseId : Option ReleaseId) : Ledger :=
  match releaseId.bind (releaseOf l) with
  | some release => if release.state = .pending then l.setRelease release.id .failed else l
  | none => l

/-- The options of a retention pass now (`retention.ts:44-46`, `telemetry.ts:246`). -/
def retentionOptions (config : Config) (now : Nat) : RetentionOptions :=
  { keepCount := config.revisionKeepCount
    ageCutoff := now - config.revisionKeepDays * 86400000
    planCutoff := now - config.jobRetentionHours * 3600000 }

/-- What a running job does to the database, and whether it finished without throwing. -/
def executeJob (app : App) (db : Database) (j : Job) (leased : Bool) : Database × Bool :=
  match j.work with
  | .prune =>
    ({ db with ledger := db.ledger.pruneOldRows (retentionOptions app.config db.clock) db.clock },
      true)
  | .reconcile payload =>
    match reconcile app db payload leased with
    | .ok none => (db, true)
    | .ok (some after) => (after, true)
    | .error failure =>
      let ledger := db.ledger.updateJob j.id (·.threw failure.final db.clock)
      ({ db with
        ledger := if failure.final then failPending ledger payload.releaseId else ledger }, false)

theorem executeJob_prune {app : App} {db : Database} {j : Job} {leased : Bool}
    (hwork : j.work = .prune) :
    executeJob app db j leased = ({ db with
      ledger := db.ledger.pruneOldRows (retentionOptions app.config db.clock) db.clock }, true) := by
  simp only [executeJob, hwork]

theorem executeJob_reconcile (app : App) (db : Database) {j : Job} (leased : Bool)
    (hwork : j.work = .reconcile payload) :
    (reconcile app db payload leased = .ok none ∧ executeJob app db j leased = (db, true)) ∨
      (∃ after, reconcile app db payload leased = .ok (some after) ∧
        executeJob app db j leased = (after, true)) ∨
      ∃ failure, reconcile app db payload leased = .error failure ∧
        executeJob app db j leased = ({ db with
          ledger := if failure.final then
              failPending (db.ledger.updateJob j.id (·.threw failure.final db.clock))
                payload.releaseId
            else db.ledger.updateJob j.id (·.threw failure.final db.clock) }, false) := by
  cases hrun : reconcile app db payload leased with
  | error failure =>
    exact .inr (.inr ⟨failure, rfl, by simp only [executeJob, hwork, hrun]⟩)
  | ok result =>
    cases result with
    | none => exact .inl ⟨rfl, by simp only [executeJob, hwork, hrun]⟩
    | some after => exact .inr (.inl ⟨after, rfl, by simp only [executeJob, hwork, hrun]⟩)

/-- `UPDATE job SET state = 'queued' WHERE state = 'running' AND updated_at < now - 60 s`. -/
def Ledger.requeueStale (l : Ledger) (now : Nat) : Ledger :=
  { l with jobs := l.jobs.map fun j =>
      if j.state = .running ∧ j.updatedAt + 60000 < now then { j with state := .queued } else j }

def dueJobs (db : Database) : List Job :=
  (db.ledger.jobs.filter fun j => j.due db.clock).take 20

def runJob (app : App) (db : Database) (j : Job) : Database :=
  let started := j.started db.clock
  let claimed := { db with ledger := db.ledger.updateJob j.id fun _ => started }
  let ran := executeJob app claimed started false
  if ran.2 then
    { ran.1 with ledger := ran.1.ledger.updateJob j.id fun j =>
        { j with state := .done, updatedAt := db.clock } }
  else ran.1

/-- `runDueJobs` (`jobs.ts:370-447`), less the notifications and the key expiry it starts with. -/
def runDueJobs (app : App) (db : Database) : Database :=
  let db := runOperations app db
  let db := { db with ledger := db.ledger.requeueStale db.clock }
  (dueJobs db).foldl (runJob app) db

end Apim.ControlPlane
