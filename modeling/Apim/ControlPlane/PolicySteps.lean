import Apim.ControlPlane.System

/-!
# Which steps write policy

Policy rows are written in three places: at once by the requests of `PolicyWrites` and by a new
version that copies them, when an operation is applied, and when a release is applied that seeds
units. `policyWrite` reads from the state before a step what the step writes, and for whom;
`step_policy` says that nothing else touches a row of an API that stays, or the tier.
-/

namespace Apim.ControlPlane
open Overlay Policy Trace

structure PolicyWrite where
  user : User
  stage : Stage
  asked : Document
  rows : Document

def directWrite (s : State) : Event → Option PolicyWrite
  | .putUnit user id environment unit value =>
    let rows := (resourceUnits s.db.live (id, environment)).insert unit value
    some ⟨user, (id, environment), rows, rows⟩
  | .deleteUnit user id environment unit =>
    let rows := (resourceUnits s.db.live (id, environment)).erase unit
    some ⟨user, (id, environment), rows, rows⟩
  | .copyFrom user id source environment units =>
    let rows := units.foldl (copyUnit (effectiveDocument s.db.live (id, source)))
      (resourceUnits s.db.live (id, environment))
    some ⟨user, (id, environment), rows, rows⟩
  | _ => none

def operationWrite (app : App) (db : Database) (o : Operation) : Option PolicyWrite :=
  match applyOperation app db o with
  | .ok (some _) => some ⟨o.actor, (o.resourceId, o.environment), o.input.policy,
      departures o.input.policy (inheritedUnits db.live o.environment)⟩
  | _ => none

def seedWrite (app : App) (db : Database) (payload : ReconcilePayload) (leased : Bool) :
    Option PolicyWrite :=
  match reconcile app db payload leased with
  | .ok (some _) => do
    let release ← payload.releaseId.bind (releaseOf db.ledger)
    let environment ← jobEnvironment db payload
    if payload.intent = .remove ∨ payload.planId = none ∨
        overtaken db.ledger (payload.resourceId, environment) release.id then none
    else
      let merged := mergedUnits db payload.resourceId
        (predecessorOf app.config.promotionChain environment) environment
      some ⟨release.releasedBy, (payload.resourceId, environment), merged, merged⟩
  | _ => none

def carriedWrite (app : App) (s : State) : Event → Option PolicyWrite
  | .operation id => (operationOf s.db.ledger id).bind (operationWrite app s.db)
  | .executeJob id leased => (jobOf s.db.ledger id).bind fun j =>
    match j.work with
    | .prune => none
    | .reconcile payload => seedWrite app s.db payload leased
  | .createVersion user id _ (some environment) _ =>
    let rows := resourceUnits s.db.live (id, environment)
    some ⟨user, (s.db.ledger.next, environment), rows, rows⟩
  | _ => none

def policyWrite (app : App) (s : State) (e : Event) : Option PolicyWrite :=
  (directWrite s e).or (carriedWrite app s e)

def rowsAfter (app : App) (s : State) (e : Event) (stage : Stage) : Document :=
  match policyWrite app s e with
  | some w => if stage = w.stage then w.rows else resourceUnits s.db.live stage
  | none => resourceUnits s.db.live stage

def tierAfter (s : State) : Event → Environment → Document
  | .putGlobalUnit _ environment unit value =>
    Function.update s.db.live.globalPolicy environment
      ((s.db.live.globalPolicy environment).insert unit value)
  | .deleteGlobalUnit _ environment unit =>
    Function.update s.db.live.globalPolicy environment
      ((s.db.live.globalPolicy environment).erase unit)
  | .copyGlobals _ source environment =>
    Function.update s.db.live.globalPolicy environment
      (overlaid (s.db.live.globalPolicy source) (s.db.live.globalPolicy environment))
  | _ => s.db.live.globalPolicy

/-! ### Work that writes no policy -/

theorem touch_live (db : Database) (id : ResourceId) : (touch db id).live = db.live := rfl

theorem writeRevision_live (db : Database) (id : ResourceId) (definition : Definition) :
    (writeRevision db id definition).1.live = db.live := by
  rcases writeRevision_cases db id definition with ⟨same, -, -, h⟩ | ⟨rev, h⟩
  · rw [h]
  · rw [h, touch_live]

theorem queue_live {db db' : Database} {user : User} {body : PublishInput} {applicationId : String}
    {stage : Stage} {kind : OperationKind} {snapshot : Snapshot}
    (h : queue db user body applicationId stage kind snapshot = .ok db') : db'.live = db.live := by
  obtain ⟨-, rfl⟩ := queue_ok h
  rfl

theorem configureRevision_live (db : Database) (id : ResourceId) (body : PublishInput)
    (previous : Snapshot) : (configureRevision db id body previous).1.live = db.live := by
  unfold configureRevision
  split
  · exact writeRevision_live db id _
  · rfl

theorem overrideNamed_policy (app : App) (live : Live) (stage : Stage) (body : PublishInput) :
    (overrideNamed app live stage body).policyEntry = live.policyEntry ∧
      (overrideNamed app live stage body).globalPolicy = live.globalPolicy := by
  unfold overrideNamed
  split
  · split
    · exact ⟨rfl, rfl⟩
    · exact ⟨rfl, rfl⟩
  · exact ⟨rfl, rfl⟩

theorem resumeRequest_policy {app : App} {db db' : Database} {request : Request}
    (h : resumeRequest app db request = .ok (.inr db')) :
    db'.live.policyEntry = db.live.policyEntry ∧ db'.live.globalPolicy = db.live.globalPolicy := by
  rcases resumeRequest_committed h with ⟨user, body, environment, config, -, hcommit⟩ |
    ⟨user, body, read, config, -, hcommit⟩ | ⟨user, body, read, config, -, hcommit⟩
  · obtain ⟨definition, taxonomy, -, -, hqueue⟩ := publishCommit_ok hcommit
    rw [queue_live hqueue, writeRevision_live]
    exact ⟨rfl, rfl⟩
  · obtain ⟨taxonomy, -, -, hqueue⟩ := configureCommit_ok hcommit
    have hlive := configureRevision_live db read.resource.id body read.previous
    rw [queue_live hqueue]
    dsimp only [reclassify]
    rw [hlive]
    exact overrideNamed_policy app db.live _ body
  · obtain ⟨-, hqueue⟩ := promoteCommit_ok hcommit
    rw [queue_live hqueue]
    exact ⟨rfl, rfl⟩

/-! ### Work that carries a write out -/

theorem runOperation_policy (app : App) (db : Database) (o : Operation) (stage : Stage) :
    (runOperation app db o).live.policyEntry stage =
        (match operationWrite app db o with
          | some w => if stage = w.stage then w.rows else db.live.policyEntry stage
          | none => db.live.policyEntry stage) ∧
      (runOperation app db o).live.globalPolicy = db.live.globalPolicy := by
  cases happlied : applyOperation app db o with
  | error failure => simp [runOperation, operationWrite, happlied]
  | ok result =>
    cases result with
    | none => simp [runOperation, operationWrite, happlied]
    | some db' =>
      obtain ⟨revision, route, -, -, -, -, -, -, hdb⟩ := applyOperation_ok happlied
      simp only [runOperation, operationWrite, happlied, hdb, Live.publish]
      refine ⟨?_, trivial⟩
      by_cases hstage : stage = (o.resourceId, o.environment)
      · rw [if_pos hstage, hstage, Function.update_self]
      · rw [if_neg hstage, Function.update_of_ne hstage]

theorem executeJob_policy (app : App) (db : Database) (j : Job) (leased : Bool)
    (payload : ReconcilePayload) (hwork : j.work = .reconcile payload) (stage : Stage)
    (unit : UnitKey) :
    ((executeJob app db j leased).1.live.policyEntry stage).lookup unit =
        (match seedWrite app db payload leased with
          | some w => if stage = w.stage then w.rows.lookup unit
              else (db.live.policyEntry stage).lookup unit
          | none => (db.live.policyEntry stage).lookup unit) ∧
      (executeJob app db j leased).1.live.globalPolicy = db.live.globalPolicy := by
  rcases executeJob_reconcile app db leased hwork with
    ⟨hrun, hdone⟩ | ⟨after, hrun, hdone⟩ | ⟨failure, hrun, hdone⟩
  · have hseed : seedWrite app db payload leased = none := by simp [seedWrite, hrun]
    rw [hdone, hseed]
    exact ⟨rfl, rfl⟩
  · rw [hdone]
    obtain ⟨environment, henvironment, hkind⟩ := reconcile_ok hrun
    rcases hkind with ⟨hintent, rfl⟩ | ⟨hintent, happly⟩
    · have hseed : seedWrite app db payload leased = none := by
        simp [seedWrite, hrun, hintent, henvironment]
      rw [hseed]
      exact ⟨rfl, rfl⟩
    · obtain ⟨release, hrelease, -, hcase⟩ := applyRelease_ok happly
      rcases hcase with ⟨hover, rfl⟩ | ⟨hover, live, route, hlive, -, -, rfl⟩
      · have hseed : seedWrite app db payload leased = none := by
          simp [seedWrite, hrun, hrelease, henvironment, hover]
        rw [hseed]
        exact ⟨rfl, rfl⟩
      · rcases seedPlan_ok hlive with ⟨hplan, rfl⟩ |
          ⟨planId, resource, revision, skipChain, hplan, hresource, hrevision, -, rfl⟩
        · have hseed : seedWrite app db payload leased = none := by
            simp [seedWrite, hrun, hrelease, henvironment, hplan]
          rw [hseed]
          exact ⟨rfl, rfl⟩
        · have hseed : seedWrite app db payload leased =
              some ⟨release.releasedBy, (payload.resourceId, environment),
                mergedUnits db payload.resourceId
                  (predecessorOf app.config.promotionChain environment) environment,
                mergedUnits db payload.resourceId
                  (predecessorOf app.config.promotionChain environment) environment⟩ := by
            simp [seedWrite, hrun, hintent, hrelease, henvironment, hplan, hover]
          have hid : resource.id = payload.resourceId := by
            simpa using List.find?_some hresource
          rw [hseed]
          dsimp only
          refine ⟨?_, rfl⟩
          by_cases hstage : stage = (payload.resourceId, environment)
          · rw [if_pos hstage, hstage, ← hid]
            exact lookup_applySeededUnits app db resource revision environment skipChain unit
          · rw [if_neg hstage, applySeededUnits, Live.setPolicy_other]
            simpa [computePlan, hid] using hstage
  · have hseed : seedWrite app db payload leased = none := by simp [seedWrite, hrun]
    rw [hdone, hseed]
    exact ⟨rfl, rfl⟩

/-! ### What a step leaves of the rows and of the tier -/

theorem rowsAfter_of_setPolicy {app : App} {s : State} {e : Event} {user : User}
    {written stage : Stage} {asked rows : Document} {unit : UnitKey}
    (hw : policyWrite app s e = some ⟨user, written, asked, rows⟩) :
    (resourceUnits (s.db.live.setPolicy written rows) stage).lookup unit =
      (rowsAfter app s e stage).lookup unit := by
  rw [rowsAfter, hw]
  dsimp only
  by_cases hstage : stage = written
  · rw [if_pos hstage, hstage, resourceUnits, Live.setPolicy_policyEntry]
  · rw [if_neg hstage, resourceUnits, Live.setPolicy_other _ _ hstage, resourceUnits]

theorem rowsAfter_of_same {app : App} {s : State} {e : Event} {live : Live} {stage : Stage}
    {unit : UnitKey} (hw : policyWrite app s e = none)
    (hlive : live.policyEntry = s.db.live.policyEntry) :
    (resourceUnits live stage).lookup unit = (rowsAfter app s e stage).lookup unit := by
  rw [rowsAfter, hw, resourceUnits, hlive, resourceUnits]

theorem step_policy {app : App} {s s' : State} {e : Event} (h : step app s e = some s') :
    (∀ stage unit, (∀ user, e ≠ .delete user stage.1) →
        (resourceUnits s'.db.live stage).lookup unit = (rowsAfter app s e stage).lookup unit) ∧
      s'.db.live.globalPolicy = tierAfter s e := by
  cases e with
  | publish | configure | promote =>
    obtain ⟨request, -, rfl⟩ := State.waiting_eq_some h
    exact ⟨fun _ _ _ => rowsAfter_of_same rfl rfl, rfl⟩
  | resume index =>
    obtain ⟨request, -, ⟨next, -, rfl⟩ | ⟨db, hdb, rfl⟩⟩ := step_resume h
    · exact ⟨fun _ _ _ => rowsAfter_of_same rfl rfl, rfl⟩
    · exact ⟨fun _ _ _ => rowsAfter_of_same rfl (resumeRequest_policy hdb).1,
        (resumeRequest_policy hdb).2⟩
  | putUnit user id environment unit value =>
    obtain ⟨db, hdb, rfl⟩ := State.write_eq_some h
    obtain ⟨-, rfl⟩ := putUnit_ok hdb
    exact ⟨fun _ _ _ => rowsAfter_of_setPolicy rfl, rfl⟩
  | deleteUnit user id environment unit =>
    obtain ⟨db, hdb, rfl⟩ := State.write_eq_some h
    obtain ⟨-, rfl⟩ := deleteUnit_ok hdb
    exact ⟨fun _ _ _ => rowsAfter_of_setPolicy rfl, rfl⟩
  | copyFrom user id source environment units =>
    obtain ⟨db, hdb, rfl⟩ := State.write_eq_some h
    obtain ⟨-, -, rfl⟩ := copyFrom_ok hdb
    exact ⟨fun _ _ _ => rowsAfter_of_setPolicy rfl, rfl⟩
  | putGlobalUnit user environment unit value =>
    obtain ⟨db, hdb, rfl⟩ := State.write_eq_some h
    obtain ⟨-, -, -, rfl⟩ := putGlobalUnit_ok hdb
    exact ⟨fun _ _ _ => rowsAfter_of_same rfl rfl, rfl⟩
  | deleteGlobalUnit user environment unit =>
    obtain ⟨db, hdb, rfl⟩ := State.write_eq_some h
    obtain ⟨-, -, rfl⟩ := deleteGlobalUnit_ok hdb
    exact ⟨fun _ _ _ => rowsAfter_of_same rfl rfl, rfl⟩
  | copyGlobals user source environment =>
    obtain ⟨db, hdb, rfl⟩ := State.write_eq_some h
    obtain ⟨-, -, rfl⟩ := copyGlobals_ok hdb
    exact ⟨fun _ _ _ => rowsAfter_of_same rfl rfl, rfl⟩
  | putRoute user id environment host basePath =>
    obtain ⟨db, hdb, rfl⟩ := State.write_eq_some h
    obtain ⟨address, resource, -, rfl⟩ := putRoute_ok hdb
    exact ⟨fun _ _ _ => rowsAfter_of_same rfl rfl, rfl⟩
  | putBinding user id environment backend =>
    obtain ⟨db, hdb, rfl⟩ := State.write_eq_some h
    obtain ⟨resource, rfl⟩ := putBinding_ok hdb
    exact ⟨fun _ _ _ => rowsAfter_of_same rfl rfl, rfl⟩
  | createRevision user id definition =>
    obtain ⟨db, hdb, rfl⟩ := State.write_eq_some h
    obtain ⟨written, hwritten, rfl⟩ := map_eq_ok hdb
    obtain ⟨-, rfl⟩ := createRevision_ok hwritten
    have hlive := writeRevision_live s.db id definition
    exact ⟨fun _ _ _ => rowsAfter_of_same rfl (by rw [hlive]), by rw [hlive]; rfl⟩
  | correctRevision user id readDigest definition =>
    obtain ⟨db, hdb, rfl⟩ := State.write_eq_some h
    obtain ⟨resource, rfl⟩ := correctRevision_ok hdb
    exact ⟨fun _ _ _ => rowsAfter_of_same rfl rfl, rfl⟩
  | createVersion user id apiVersion copyPolicyFrom createRoutes =>
    obtain ⟨db, hdb, rfl⟩ := State.write_eq_some h
    obtain ⟨resource, source, hresource, -, -, hlive, -⟩ := createVersion_ok hdb
    have hid : resource.id = id := by simpa using List.find?_some hresource
    refine ⟨fun stage unit _ => ?_, ?_⟩
    · cases copyPolicyFrom with
      | none =>
        refine rowsAfter_of_same rfl ?_
        rw [hlive, versionLive]
        split <;> rfl
      | some environment =>
        have hset : db.live.policyEntry = (s.db.live.setPolicy (s.db.ledger.next, environment)
            (resourceUnits s.db.live (id, environment))).policyEntry := by
          rw [hlive, versionLive, hid]
          split <;> rfl
        rw [resourceUnits, hset]
        exact rowsAfter_of_setPolicy rfl
    · dsimp only [tierAfter]
      rw [hlive]
      cases copyPolicyFrom <;> cases createRoutes <;> rfl
  | dryRun user id body =>
    obtain ⟨db, hdb, rfl⟩ := State.write_eq_some h
    obtain ⟨plan, rfl⟩ := dryRunRelease_ok hdb
    exact ⟨fun _ _ _ => rowsAfter_of_same rfl rfl, rfl⟩
  | release user id body =>
    obtain ⟨db, hdb, rfl⟩ := State.write_eq_some h
    obtain ⟨revision, target, -, confirmed, plan, -, -, rfl⟩ := requestRelease_ok hdb
    exact ⟨fun _ _ _ => rowsAfter_of_same rfl rfl, rfl⟩
  | withdraw user id environment =>
    obtain ⟨db, hdb, rfl⟩ := State.write_eq_some h
    obtain ⟨target, -, rfl⟩ := withdraw_ok hdb
    exact ⟨fun _ _ _ => rowsAfter_of_same rfl rfl, rfl⟩
  | announceDelete user id =>
    obtain ⟨db, hdb, rfl⟩ := State.write_eq_some h
    obtain rfl := announceDelete_ok hdb
    exact ⟨fun _ _ _ => rowsAfter_of_same rfl rfl, rfl⟩
  | delete user id =>
    obtain ⟨db, hdb, rfl⟩ := State.write_eq_some h
    obtain rfl := deleteApi_ok hdb
    refine ⟨fun stage unit hstays => ?_, rfl⟩
    have hne : stage.1 ≠ id := fun heq => hstays user (heq ▸ rfl)
    simp [resourceUnits, deleteResource, hne, rowsAfter, policyWrite, directWrite, carriedWrite]
  | operation id =>
    obtain ⟨o, ho, -, rfl⟩ := step_operation h
    refine ⟨fun stage unit _ => ?_, (runOperation_policy app s.db o (0, "")).2⟩
    rw [resourceUnits, (runOperation_policy app s.db o stage).1]
    simp only [rowsAfter, policyWrite, directWrite, carriedWrite, ho, Option.none_or,
      Option.bind_some, resourceUnits]
  | complete environment =>
    obtain rfl := Option.some.inj h
    have hlive : (completeEnvironment app s.db environment).live = s.db.live := by
      unfold completeEnvironment
      split <;> rfl
    exact ⟨fun _ _ _ => rowsAfter_of_same rfl (by rw [hlive]), by rw [hlive]; rfl⟩
  | startJob id =>
    obtain ⟨j, -, -, rfl⟩ := step_startJob h
    exact ⟨fun _ _ _ => rowsAfter_of_same rfl rfl, rfl⟩
  | executeJob id leased =>
    obtain ⟨j, hj, -, rfl⟩ := step_executeJob h
    cases hwork : j.work with
    | prune =>
      refine ⟨fun _ _ _ => rowsAfter_of_same ?_ ?_, ?_⟩
      · simp [policyWrite, directWrite, carriedWrite, hj, hwork]
      · simp only [executeJob_prune hwork]
      · simp only [executeJob_prune hwork, tierAfter]
    | reconcile payload =>
      refine ⟨fun stage unit _ => ?_, (executeJob_policy app s.db j leased payload hwork (0, "") "").2⟩
      rw [resourceUnits, (executeJob_policy app s.db j leased payload hwork stage unit).1]
      simp only [rowsAfter, policyWrite, directWrite, carriedWrite, hj, hwork, Option.none_or,
        Option.bind_some, resourceUnits]
      split
      · split <;> rfl
      · rfl
  | finishJob id =>
    obtain ⟨-, rfl⟩ := step_finishJob h
    exact ⟨fun _ _ _ => rowsAfter_of_same rfl rfl, rfl⟩
  | administer estate =>
    obtain ⟨-, rfl⟩ := step_administer h
    exact ⟨fun _ _ _ => rowsAfter_of_same rfl rfl, rfl⟩
  | requeueJobs | crash | enqueuePrune | wait =>
    obtain rfl := Option.some.inj h
    exact ⟨fun _ _ _ => rowsAfter_of_same rfl rfl, rfl⟩

end Apim.ControlPlane
