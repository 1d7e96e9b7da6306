import Apim.Lib.Holding
import Apim.ControlPlane.Resources
import Apim.ControlPlane.Settled

/-!
# One address, one API

An address is taken by the API whose row has it, and by the API of an operation that waits to be
applied there (`Takes`). The three commands look at both before they queue (`assertRouteFree`,
`operations.ts:556-583`), so that what they reserve stays theirs. PUT of an address
(`api/resources.ts:1584-1633`) and the addresses a new version is proposed
(`api/resources.ts:1222-1240`) look at the rows alone, and take what a waiting operation has asked
for.
-/

namespace Apim.ControlPlane
open Overlay Policy Trace Table Routing Holding

def Operation.address (o : Operation) : Route := ⟨o.input.host, o.input.basePath⟩

def Takes (db : Database) (id : ResourceId) (place : Environment × Route) : Prop :=
  db.live.route (id, place.1) = some place.2 ∨
    ∃ o ∈ db.ledger.operations, o.waits = true ∧ o.resourceId = id ∧ o.environment = place.1 ∧
      o.address = place.2

def directAddresses (app : App) (s : State) :
    Event → Option (ResourceId × (Environment → Option Route))
  | .putRoute _ id environment host basePath =>
    some (id, fun env => if env = environment then
      some ⟨(normalizeHost host).1, (normalizeBasePath basePath).1⟩ else none)
  | .createVersion _ id apiVersion _ true =>
    (resourceOf s.db id).map fun resource => (s.db.ledger.next, fun env =>
      if app.config.promotionChain.contains env then
        proposeRoutes app s.db id s.db.ledger.next (versionBasePath app resource apiVersion)
          (s.db.ledger.next, env)
      else none)
  | _ => none

/-- No address is written directly that a waiting operation of another API has asked for. -/
def SparesReserved (app : App) (s : State) (e : Event) : Prop :=
  ∀ id rows, directAddresses app s e = some (id, rows) →
    ∀ o ∈ s.db.ledger.operations, o.waits = true → o.resourceId ≠ id →
      rows o.environment ≠ some o.address

def Unobstructed (s : State) (e : Event) : Prop :=
  ∀ id o, e = .operation id → operationOf s.db.ledger id = some o →
    addressHeld s.db (o.resourceId, o.environment) o.address = false

/-! ### Rows of APIs that are there -/

def Homed (db : Database) : Prop :=
  ∀ stage address, db.live.route stage = some address → ∃ r ∈ db.resources, r.id = stage.1

variable {db : Database}

theorem addressHeld_eq_false (hdb : Homed db) {stage : Stage} {address : Route} :
    addressHeld db stage address = false ↔
      ∀ id, db.live.route (id, stage.2) = some address → id = stage.1 := by
  constructor
  · intro h id hrow
    obtain ⟨r, hr, hid⟩ := hdb _ _ hrow
    have hr' := List.any_eq_false.mp h r hr
    by_contra hne
    obtain rfl : r.id = id := hid
    simp [hne, hrow] at hr'
  · intro h
    refine List.any_eq_false.mpr fun r _ => ?_
    simp only [Bool.and_eq_true, bne_iff_ne, ne_eq, beq_iff_eq, not_and]
    exact fun hne hrow => hne (h r.id hrow)

/-! ### What a step does to the rows -/

structure DirectStep (s s' : State) (id : ResourceId) (rows : Environment → Option Route) : Prop where
  there : ∃ r ∈ s'.db.resources, r.id = id
  operations : s'.db.ledger.operations = s.db.ledger.operations
  wrote : ∀ env address, rows env = some address →
    s'.db.live.route (id, env) = some address ∧ addressHeld s.db (id, env) address = false
  others : ∀ stage address, s'.db.live.route stage = some address →
    s.db.live.route stage = some address ∨ (stage.1 = id ∧ rows stage.2 = some address)

inductive AddressStep (app : App) (s : State) (e : Event) (s' : State) : Prop where
  | kept (hstays : ∀ user id, e ≠ .delete user id) (hroute : s'.db.live.route = s.db.live.route)
  | direct (id : ResourceId) (rows : Environment → Option Route)
      (he : directAddresses app s e = some (id, rows)) (hdirect : DirectStep s s' id rows)
  | applied (id : OperationId) (o : Operation) (he : e = .operation id)
      (ho : o ∈ s.db.ledger.operations) (hwaits : o.waits = true)
      (hthere : ∃ r ∈ s'.db.resources, r.id = o.resourceId)
      (hothers : ∀ stage address, s'.db.live.route stage = some address →
        s.db.live.route stage = some address ∨
          (stage = (o.resourceId, o.environment) ∧ address = o.address))
  | deleted (user : User) (id : ResourceId) (he : e = .delete user id)
      (hroute : ∀ stage, s'.db.live.route stage =
        if stage.1 = id then none else s.db.live.route stage)

variable {app : App}

theorem settleAddress_named {body : PublishInput} {taxonomy : Taxonomy} {host basePath : String}
    {address : Route} (hhost : body.host = some host) (hpath : body.basePath = some basePath)
    (h : settleAddress app body taxonomy none = .ok address) :
    address = ⟨(normalizeHost host).1, (normalizeBasePath basePath).1⟩ := by
  obtain ⟨hsettled, fallback, hsettledPath⟩ := settleAddress_ok h
  simp only [hhost, Option.some_or, Option.getD_some] at hsettled
  simp only [hpath, Option.some_or, Option.getD_some] at hsettledPath
  rw [← hsettled, ← hsettledPath]

variable {s : State} {db' : Database} {user : User} {id : ResourceId}

theorem putRoute_direct {environment : Environment} {host basePath : String}
    (h : putRoute app s.db user id environment host basePath = .ok db') :
    DirectStep s { s with db := db' } id fun env => if env = environment then
      some ⟨(normalizeHost host).1, (normalizeBasePath basePath).1⟩ else none := by
  simp only [putRoute, bind_ok, orRefuse_ok, require_ok] at h
  obtain ⟨resource, hresource, -, -, -, -, domain, -, address, haddress, -, hheld, hdb⟩ := h
  have hnamed := settleAddress_named rfl rfl haddress
  obtain rfl := (Except.ok.inj hdb).symm
  have hin : resource ∈ s.db.resources := List.mem_of_find?_eq_some hresource
  have hid : resource.id = id := by simpa using List.find?_some hresource
  refine ⟨⟨_, List.mem_map_of_mem hin, ?_⟩, rfl, ?_, ?_⟩
  · exact (stampRow_spec id s.db.clock resource).1.trans hid
  · intro env a ha
    split at ha
    next henv =>
      rw [henv, ← Option.some.inj ha, ← hnamed]
      exact ⟨Function.update_self .., by simpa using hheld⟩
    next => cases ha
  · intro stage a hrow
    have hwritten : Function.update s.db.live.route (id, environment) (some address) stage =
        some a := hrow
    by_cases hstage : stage = (id, environment)
    · rw [hstage, Function.update_self] at hwritten
      rw [hstage, if_pos rfl, ← hnamed, hwritten]
      exact .inr ⟨rfl, rfl⟩
    · rw [Function.update_of_ne hstage] at hwritten
      exact .inl hwritten

theorem proposeRoutes_free {source target : ResourceId} {basePath : String} {stage : Stage}
    {address : Route} (htarget : stage.1 = target)
    (hchain : app.config.promotionChain.contains stage.2 = true)
    (h : proposeRoutes app db source target basePath stage = some address) :
    addressHeld db stage address = false := by
  simp only [proposeRoutes, htarget, hchain, and_self, if_true] at h
  split at h
  next route _ =>
    split at h
    · cases h
    next hfree =>
      obtain rfl := Option.some.inj h
      refine List.any_eq_false.mpr fun r hr => ?_
      have hr' := List.any_eq_false.mp (Bool.eq_false_iff.mpr hfree) r hr
      simp only [Bool.and_eq_true, not_and]
      exact fun _ => hr'
  next => cases h

theorem createVersion_direct {apiVersion : String} {copyPolicyFrom : Option Environment}
    (h : createVersion app s.db user id apiVersion copyPolicyFrom true = .ok db') :
    ∃ rows, directAddresses app s (.createVersion user id apiVersion copyPolicyFrom true) =
        some (s.db.ledger.next, rows) ∧
      DirectStep s { s with db := db' } s.db.ledger.next rows := by
  simp only [createVersion, bind_ok, orRefuse_ok, require_ok] at h
  obtain ⟨resource, hresource, -, -, -, -, source, -, -, -, -, -, hdb⟩ := h
  obtain rfl := (Except.ok.inj hdb).symm
  have hid : resource.id = id := by simpa using List.find?_some hresource
  refine ⟨fun env =>
    if app.config.promotionChain.contains env then
      proposeRoutes app s.db id s.db.ledger.next (versionBasePath app resource apiVersion)
        (s.db.ledger.next, env)
    else none, by simp only [directAddresses, hresource, Option.map_some], ?_⟩
  refine ⟨⟨_, List.mem_append_right _ List.mem_cons_self, rfl⟩, rfl, ?_, ?_⟩
  · intro env a ha
    split at ha
    next hchain =>
      refine ⟨?_, proposeRoutes_free rfl hchain ha⟩
      rw [← hid] at ha
      exact ha
    next => cases ha
  · intro stage a hrow
    have hwritten : proposeRoutes app s.db resource.id s.db.ledger.next
        (versionBasePath app resource apiVersion) stage = some a := hrow
    by_cases hnew : stage.1 = s.db.ledger.next ∧ app.config.promotionChain.contains stage.2 = true
    · obtain ⟨hnext, hchain⟩ := hnew
      refine .inr ⟨hnext, ?_⟩
      rw [if_pos hchain, ← hid, ← hnext]
      rw [← hnext] at hwritten
      exact hwritten
    · rw [proposeRoutes, if_neg hnew] at hwritten
      exact .inl hwritten

theorem createVersion_address {apiVersion : String} {copyPolicyFrom : Option Environment}
    {createRoutes : Bool}
    (h : createVersion app s.db user id apiVersion copyPolicyFrom createRoutes = .ok db') :
    AddressStep app s (.createVersion user id apiVersion copyPolicyFrom createRoutes)
      { s with db := db' } := by
  cases createRoutes with
  | true =>
    obtain ⟨rows, he, hdirect⟩ := createVersion_direct h
    exact .direct _ rows he hdirect
  | false =>
    simp only [createVersion, bind_ok, orRefuse_ok, require_ok] at h
    obtain ⟨resource, -, -, -, -, -, source, -, -, -, -, -, hdb⟩ := h
    obtain rfl := (Except.ok.inj hdb).symm
    cases copyPolicyFrom with
    | none => exact .kept (by simp) rfl
    | some source => exact .kept (by simp) rfl

theorem applyOperation_there {o : Operation} (h : applyOperation app db o = .ok (some db')) :
    (resourceOf db o.resourceId).isSome := by
  by_contra hgone
  have hconstraint : ((resourceOf db o.resourceId).isNone ||
      addressHeld db (o.resourceId, o.environment) ⟨o.input.host, o.input.basePath⟩) = true := by
    rw [Bool.or_eq_true]
    exact .inl (by simpa using hgone)
  simp only [applyOperation, hconstraint, if_true] at h
  split at h
  · cases h
  · split at h
    · cases h
    · split at h
      · cases h
      · split at h <;> cases h

theorem runOperation_address {id : OperationId} {o : Operation} (hs : s.Sound)
    (ho : operationOf s.db.ledger id = some o) (hdue : o.due s.db.clock = true) :
    AddressStep app s (.operation id) { s with db := runOperation app s.db o } := by
  cases hrun : applyOperation app s.db o with
  | error failure =>
    exact .kept nofun (by simp only [runOperation, hrun])
  | ok result =>
    cases result with
    | none =>
      exact .kept nofun (by simp only [runOperation, hrun])
    | some db' =>
      obtain ⟨r, hr⟩ := Option.isSome_iff_exists.mp (applyOperation_there hrun)
      have hin : r ∈ s.db.resources := List.mem_of_find?_eq_some hr
      have hid : r.id = o.resourceId := by simpa using List.find?_some hr
      obtain ⟨revision, route, -, -, -, -, -, -, hdb⟩ := applyOperation_ok hrun
      have hafter : runOperation app s.db o = db' := by simp only [runOperation, hrun]
      rw [hafter, hdb]
      refine .applied id o rfl ((operationOf_eq_some hs.ledger).mp ho).1 (Operation.waits_of_due hdue)
        ⟨r, hin, hid⟩ fun stage a hrow => ?_
      have hwritten : Function.update s.db.live.route (o.resourceId, o.environment)
          (some o.address) stage = some a := hrow
      by_cases hstage : stage = (o.resourceId, o.environment)
      · rw [hstage, Function.update_self] at hwritten
        exact .inr ⟨hstage, (Option.some.inj hwritten).symm⟩
      · rw [Function.update_of_ne hstage] at hwritten
        exact .inl hwritten

theorem resumeRequest_address {request : Request}
    (h : resumeRequest app db request = .ok (.inr db')) : db'.live.route = db.live.route := by
  rcases resumeRequest_committed h with ⟨user, body, environment, config, -, hcommit⟩ |
    ⟨user, body, read, config, -, hcommit⟩ | ⟨user, body, read, config, -, hcommit⟩
  · obtain ⟨definition, taxonomy, -, -, hqueue⟩ := publishCommit_ok hcommit
    rw [queue_live hqueue, writeRevision_live]
  · obtain ⟨taxonomy, -, -, hqueue⟩ := configureCommit_ok hcommit
    have hlive := configureRevision_live db read.resource.id body read.previous
    have hoverride : ∀ live : Live, (overrideNamed app live (read.resource.id, read.environment)
        body).route = live.route := by
      intro live
      unfold overrideNamed
      split
      · split <;> rfl
      · rfl
    rw [queue_live hqueue]
    dsimp only [reclassify]
    rw [hlive]
    exact hoverride db.live
  · obtain ⟨-, hqueue⟩ := promoteCommit_ok hcommit
    rw [queue_live hqueue]

theorem executeJob_address (app : App) (db : Database) (j : Job) (leased : Bool) :
    (executeJob app db j leased).1.live.route = db.live.route := by
  cases hwork : j.work with
  | prune => simp only [executeJob_prune hwork]
  | reconcile payload =>
    rcases executeJob_reconcile app db leased hwork with
      ⟨hrun, hdone⟩ | ⟨after, hrun, hdone⟩ | ⟨failure, hrun, hdone⟩
    · rw [hdone]
    · rw [hdone]
      obtain ⟨environment, -, ⟨-, rfl⟩ | ⟨-, happly⟩⟩ := reconcile_ok hrun
      · rfl
      · obtain ⟨release, -, -, ⟨-, rfl⟩ | ⟨-, live, route, hlive, -, -, rfl⟩⟩ :=
          applyRelease_ok happly
        · rfl
        · rcases seedPlan_ok hlive with ⟨-, rfl⟩ |
            ⟨planId, resource, revision, skipChain, -, -, -, -, rfl⟩
          · rfl
          · rfl
    · rw [hdone]

variable {e : Event}

theorem step_address {s' : State} (hs : s.Sound) (h : step app s e = some s') :
    AddressStep app s e s' := by
  cases e with
  | publish | configure | promote =>
    obtain ⟨request, -, rfl⟩ := State.waiting_eq_some h
    exact .kept nofun rfl
  | resume index =>
    obtain ⟨request, -, ⟨next, -, rfl⟩ | ⟨db, hdb, rfl⟩⟩ := step_resume h
    · exact .kept nofun rfl
    · exact .kept nofun (resumeRequest_address hdb)
  | putUnit user id environment unit value =>
    obtain ⟨db, hdb, rfl⟩ := State.write_eq_some h
    obtain ⟨-, rfl⟩ := putUnit_ok hdb
    exact .kept nofun rfl
  | deleteUnit user id environment unit =>
    obtain ⟨db, hdb, rfl⟩ := State.write_eq_some h
    obtain ⟨-, rfl⟩ := deleteUnit_ok hdb
    exact .kept nofun rfl
  | copyFrom user id source environment units =>
    obtain ⟨db, hdb, rfl⟩ := State.write_eq_some h
    obtain ⟨-, -, rfl⟩ := copyFrom_ok hdb
    exact .kept nofun rfl
  | putGlobalUnit user environment unit value =>
    obtain ⟨db, hdb, rfl⟩ := State.write_eq_some h
    obtain ⟨-, -, -, rfl⟩ := putGlobalUnit_ok hdb
    exact .kept nofun rfl
  | deleteGlobalUnit user environment unit =>
    obtain ⟨db, hdb, rfl⟩ := State.write_eq_some h
    obtain ⟨-, -, rfl⟩ := deleteGlobalUnit_ok hdb
    exact .kept nofun rfl
  | copyGlobals user source environment =>
    obtain ⟨db, hdb, rfl⟩ := State.write_eq_some h
    obtain ⟨-, -, rfl⟩ := copyGlobals_ok hdb
    exact .kept nofun rfl
  | putRoute user id environment host basePath =>
    obtain ⟨db, hdb, rfl⟩ := State.write_eq_some h
    exact .direct id _ rfl (putRoute_direct hdb)
  | putBinding user id environment backend =>
    obtain ⟨db, hdb, rfl⟩ := State.write_eq_some h
    obtain ⟨resource, rfl⟩ := putBinding_ok hdb
    exact .kept nofun rfl
  | createRevision user id definition =>
    obtain ⟨db, hdb, rfl⟩ := State.write_eq_some h
    obtain ⟨written, hwritten, rfl⟩ := map_eq_ok hdb
    obtain ⟨-, rfl⟩ := createRevision_ok hwritten
    have hlive := writeRevision_live s.db id definition
    exact .kept nofun (by rw [hlive])
  | correctRevision user id readDigest definition =>
    obtain ⟨db, hdb, rfl⟩ := State.write_eq_some h
    obtain ⟨resource, rfl⟩ := correctRevision_ok hdb
    exact .kept nofun rfl
  | createVersion user id apiVersion copyPolicyFrom createRoutes =>
    obtain ⟨db, hdb, rfl⟩ := State.write_eq_some h
    exact createVersion_address hdb
  | dryRun user id body =>
    obtain ⟨db, hdb, rfl⟩ := State.write_eq_some h
    obtain ⟨plan, rfl⟩ := dryRunRelease_ok hdb
    exact .kept nofun rfl
  | release user id body =>
    obtain ⟨db, hdb, rfl⟩ := State.write_eq_some h
    obtain ⟨revision, target, -, confirmed, plan, -, -, rfl⟩ := requestRelease_ok hdb
    exact .kept nofun rfl
  | withdraw user id environment =>
    obtain ⟨db, hdb, rfl⟩ := State.write_eq_some h
    obtain ⟨target, -, rfl⟩ := withdraw_ok hdb
    exact .kept nofun rfl
  | announceDelete user id =>
    obtain ⟨db, hdb, rfl⟩ := State.write_eq_some h
    obtain rfl := announceDelete_ok hdb
    exact .kept nofun rfl
  | delete user id =>
    obtain ⟨db, hdb, rfl⟩ := State.write_eq_some h
    obtain rfl := deleteApi_ok hdb
    exact .deleted user id rfl fun _ => rfl
  | operation id =>
    obtain ⟨o, ho, hdue, rfl⟩ := step_operation h
    exact runOperation_address hs ho hdue
  | complete environment =>
    obtain rfl := Option.some.inj h
    dsimp only [completeEnvironment]
    split <;> exact .kept nofun rfl
  | startJob id =>
    obtain ⟨j, -, -, rfl⟩ := step_startJob h
    exact .kept nofun rfl
  | executeJob id leased =>
    obtain ⟨j, -, -, rfl⟩ := step_executeJob h
    exact .kept nofun (executeJob_address app s.db j leased)
  | finishJob id =>
    obtain ⟨-, rfl⟩ := step_finishJob h
    exact .kept nofun rfl
  | administer estate =>
    obtain ⟨-, rfl⟩ := step_administer h
    exact .kept nofun rfl
  | requeueJobs | crash | enqueuePrune | wait =>
    obtain rfl := Option.some.inj h
    exact .kept nofun rfl

/-! ### What a step does to what is asked for -/

theorem routeFree_freeFor (hdb : Homed db) {environment : Environment} {config : Settings}
    (h : routeFree db id environment config = true) :
    FreeFor (Takes db) id (environment, ⟨config.host, config.basePath⟩) := by
  simp only [routeFree, Bool.and_eq_true, Bool.not_eq_true'] at h
  obtain ⟨hrows, hasked⟩ := h
  have hheld : addressHeld db (id, environment) ⟨config.host, config.basePath⟩ = false := hrows
  rintro id' (hrow | ⟨o, ho, hwaits, rfl, henvironment, haddress⟩)
  · exact (addressHeld_eq_false hdb).mp hheld id' hrow
  · have hother := List.any_eq_false.mp hasked o ho
    obtain ⟨hhost, hpath⟩ := Route.mk.inj haddress
    have hstate : (o.state == .queued || o.state == .retrying || o.state == .blocked) = true :=
      hwaits
    by_contra hne
    simp [hstate, henvironment, hhost, hpath, hne] at hother

theorem commit_routeFree {request : Request} {stage : Stage} {config : Settings}
    (h : resumeRequest app db request = .ok (.inr db'))
    (haccepted : request.accepted db.ledger.next = some (user, stage, config)) :
    routeFree db stage.1 stage.2 config = true := by
  rcases resumeRequest_committed h with ⟨user, body, environment, config, rfl, hcommit⟩ |
    ⟨user, body, read, config, rfl, hcommit⟩ | ⟨user, body, read, config, rfl, hcommit⟩
  · obtain ⟨definition, taxonomy, -, hfree, -⟩ := publishCommit_ok hcommit
    cases haccepted
    exact hfree
  · obtain ⟨taxonomy, -, hfree, -⟩ := configureCommit_ok hcommit
    cases haccepted
    exact hfree
  · obtain ⟨hfree, -⟩ := promoteCommit_ok hcommit
    cases haccepted
    exact hfree

inductive Claims (app : App) (s : State) : Event → ResourceId → Prop where
  | direct {e : Event} {id : ResourceId} {rows : Environment → Option Route}
      (h : directAddresses app s e = some (id, rows)) : Claims app s e id
  | accepted {index : Nat} {request : Request} {user : User} {stage : Stage} {config : Settings}
      (hrequest : s.requests[index]? = some request)
      (h : request.accepted s.db.ledger.next = some (user, stage, config)) :
      Claims app s (.resume index) stage.1

theorem Claims.unique {id' : ResourceId} (h : Claims app s e id) (h' : Claims app s e id') :
    id = id' := by
  cases h with
  | direct h =>
    cases h' with
    | direct h' => exact (Prod.mk.inj (Option.some.inj (h.symm.trans h'))).1
    | accepted => cases h
  | accepted hrequest h =>
    cases h' with
    | direct h' => cases h'
    | accepted hrequest' h' =>
      obtain rfl := Option.some.inj (hrequest.symm.trans hrequest')
      obtain ⟨-, hrest⟩ := Prod.mk.inj (Option.some.inj (h.symm.trans h'))
      rw [(Prod.mk.inj hrest).1]

theorem step_asks {s' : State} (hs : s.Sound) (hhomed : Homed s.db) (h : step app s e = some s')
    {o' : Operation} (ho' : o' ∈ s'.db.ledger.operations) (hwaits : o'.waits = true) :
    Takes s.db o'.resourceId (o'.environment, o'.address) ∨
      (Claims app s e o'.resourceId ∧
        FreeFor (Takes s.db) o'.resourceId (o'.environment, o'.address)) := by
  obtain ⟨ms, hwork, hmoves⟩ := step_moves hs h
  rcases moves_operation hs.ledger hmoves ho' with
    ⟨o, ho, -, hinput, -, hresource, henvironment, hstill⟩ |
    ⟨-, row, hrow, hinput, -, hresource, henvironment⟩
  · refine .inl (.inr ⟨o, ho, hstill hwaits, hresource, henvironment, ?_⟩)
    rw [Operation.address, hinput, Operation.address]
  · obtain ⟨index, request, config, rfl, hrequest, haccepted, rev, parent, source, digest,
      hsnapshot, -⟩ := hwork.queued hrow
    obtain ⟨waiting, hwaiting, hstage⟩ := step_resume h
    obtain rfl : waiting = request := Option.some.inj (hwaiting.symm.trans hrequest)
    have haddress : o'.address = ⟨config.host, config.basePath⟩ := by
      rw [Operation.address, ← hinput, hsnapshot]
      rfl
    rw [haddress, ← hresource, ← henvironment]
    rcases hstage with ⟨next, hnext, -⟩ | ⟨db, hdb, -⟩
    · -- a command that goes on waiting is not in its last stage
      rcases resumeRequest_settled hnext with ⟨user, body, read, config, rfl, -⟩ |
        ⟨user, body, read, config, rfl, -⟩
      · cases haccepted
      · cases haccepted
    · exact .inr ⟨.accepted hrequest haccepted,
        routeFree_freeFor hhomed (commit_routeFree hdb haccepted)⟩

/-! ### One step -/

theorem AddressStep.homed {s' : State} (h : AddressStep app s e s') (hrows : ResourceStep s e s')
    (hs : Homed s.db) : Homed s'.db := by
  have hold {stage : Stage} {address : Route} (hrow : s.db.live.route stage = some address)
      (hkept : ∀ user, e ≠ .delete user stage.1) : ∃ r ∈ s'.db.resources, r.id = stage.1 := by
    obtain ⟨r, hr, hid⟩ := hs stage address hrow
    obtain ⟨r', hr', hid'⟩ := hrows.stays hr fun user => hid ▸ hkept user
    exact ⟨r', hr', hid'.trans hid⟩
  intro stage address hrow
  cases h with
  | kept hstays hroute =>
    rw [hroute] at hrow
    exact hold hrow fun user => hstays user stage.1
  | direct id rows he hdirect =>
    rcases hdirect.others stage address hrow with hrow | ⟨hid, -⟩
    · refine hold hrow fun user heq => ?_
      rw [heq] at he
      cases he
    · rw [hid]
      exact hdirect.there
  | applied id o he ho hwaits hthere hothers =>
    rcases hothers stage address hrow with hrow | ⟨hstage, -⟩
    · refine hold hrow fun user heq => ?_
      rw [heq] at he
      cases he
    · rw [hstage]
      exact hthere
  | deleted user id he hroute =>
    rw [hroute] at hrow
    split at hrow
    · cases hrow
    next hne =>
      refine hold hrow fun user' heq => hne ?_
      exact (Event.delete.inj (heq.symm.trans he)).2

theorem step_takes {s' : State} (hs : s.Sound) (hhomed : Homed s.db) (h : step app s e = some s')
    {place : Environment × Route} (htakes : Takes s'.db id place) :
    Takes s.db id place ∨ (Claims app s e id ∧ FreeFor (Takes s.db) id place) ∨
      ∃ rows, directAddresses app s e = some (id, rows) ∧ rows place.1 = some place.2 ∧
        addressHeld s.db (id, place.1) place.2 = false := by
  obtain ⟨environment, address⟩ := place
  rcases htakes with hrow | ⟨o', ho', hwaits, rfl, rfl, rfl⟩
  · dsimp only at hrow ⊢
    cases step_address hs h with
    | kept hstays hroute =>
      rw [hroute] at hrow
      exact .inl (.inl hrow)
    | direct written rows he hdirect =>
      rcases hdirect.others (id, environment) address hrow with hrow | ⟨rfl, hasked⟩
      · exact .inl (.inl hrow)
      · exact .inr (.inr ⟨rows, he, hasked, (hdirect.wrote environment address hasked).2⟩)
    | applied number o he ho hwaits hthere hothers =>
      rcases hothers (id, environment) address hrow with hrow | ⟨hstage, haddress⟩
      · exact .inl (.inl hrow)
      · -- the row is the one its operation has asked for
        obtain ⟨hid, henvironment⟩ := Prod.mk.inj hstage
        exact .inl (.inr ⟨o, ho, hwaits, hid.symm, henvironment.symm, haddress.symm⟩)
    | deleted user gone he hroute =>
      rw [hroute] at hrow
      split at hrow
      · cases hrow
      · exact .inl (.inl hrow)
  · rcases step_asks hs hhomed h ho' hwaits with hold | hnew
    · exact .inl hold
    · exact .inr (.inl hnew)

structure Addressed (s : State) : Prop where
  stamped : Stamped s
  homed : Homed s.db
  exclusive : Exclusive (Takes s.db)

theorem SparesReserved.freeFor (h : SparesReserved app s e) (hhomed : Homed s.db)
    {rows : Environment → Option Route} (he : directAddresses app s e = some (id, rows))
    {place : Environment × Route} (hrow : rows place.1 = some place.2)
    (hheld : addressHeld s.db (id, place.1) place.2 = false) : FreeFor (Takes s.db) id place := by
  rintro id' (hother | ⟨o, ho, hwaits, rfl, henvironment, haddress⟩)
  · exact (addressHeld_eq_false hhomed).mp hheld id' hother
  · by_contra hne
    refine h id rows he o ho hwaits hne ?_
    rw [henvironment, hrow, haddress]

theorem step_direct {s' : State} {rows : Environment → Option Route} (h : step app s e = some s')
    (he : directAddresses app s e = some (id, rows)) : DirectStep s s' id rows := by
  cases e with
  | putRoute user resource environment host basePath =>
    obtain ⟨db, hdb, rfl⟩ := State.write_eq_some h
    cases he
    exact putRoute_direct hdb
  | createVersion user source apiVersion copyPolicyFrom createRoutes =>
    cases createRoutes with
    | true =>
      obtain ⟨db, hdb, rfl⟩ := State.write_eq_some h
      obtain ⟨rows', he', hdirect⟩ := createVersion_direct hdb
      obtain ⟨rfl, rfl⟩ := Prod.mk.inj (Option.some.inj (he.symm.trans he'))
      exact hdirect
    | false => cases he
  | _ => cases he

theorem exclusive_step_iff {s' : State} (hs : Addressed s) (h : step app s e = some s') :
    Exclusive (Takes s'.db) ↔ SparesReserved app s e := by
  constructor
  · intro hexclusive id rows he o ho hwaits hne hasked
    have hdirect := step_direct h he
    have hwritten : Takes s'.db id (o.environment, o.address) :=
      .inl (hdirect.wrote o.environment o.address hasked).1
    have hstill : Takes s'.db o.resourceId (o.environment, o.address) :=
      .inr ⟨o, hdirect.operations ▸ ho, hwaits, rfl, rfl, rfl⟩
    exact hne (hexclusive (o.environment, o.address) o.resourceId id hstill hwritten)
  · intro hspares
    refine hs.exclusive.grant (Claims app s e) (fun _ _ => Claims.unique) ?_
    intro id place htakes
    rcases step_takes hs.stamped.sound hs.homed h htakes with hold | hnew | ⟨rows, he, hrow, hheld⟩
    · exact .inl hold
    · exact .inr hnew
    · exact .inr ⟨.direct he, hspares.freeFor hs.homed he hrow hheld⟩

theorem Addressed.unobstructed {s' : State} (hs : Addressed s) (h : step app s e = some s') :
    Unobstructed s e := by
  rintro id o rfl ho
  obtain ⟨found, hfound, hdue, -⟩ := step_operation h
  obtain rfl : found = o := Option.some.inj (hfound.symm.trans ho)
  have hin := ((operationOf_eq_some hs.stamped.sound.ledger).mp ho).1
  have htakes : Takes s.db found.resourceId (found.environment, found.address) :=
    .inr ⟨found, hin, Operation.waits_of_due hdue, rfl, rfl, rfl⟩
  have hfree := hs.exclusive.freeFor htakes
  exact (addressHeld_eq_false hs.homed).mpr fun id' hrow => hfree id' (.inl hrow)

theorem State.initial_addressed : Addressed State.initial := by
  refine ⟨State.initial_stamped, ?_, ?_⟩
  · intro stage address hrow
    cases hrow
  · rintro place id id' (hrow | ⟨o, ho, -⟩) -
    · cases hrow
    · cases ho

/-! ### Runs -/

/-- No two APIs take one address, and no operation finds its address taken. -/
def OneAddressOneApi (s : State) (e : Event) (s' : State) : Prop :=
  Exclusive (Takes s'.db) ∧ Unobstructed s e

theorem oneAddress_iff (app : App) (events : List Event) :
    EveryStep (step app) OneAddressOneApi State.initial events ↔
      EveryStep (step app) (fun s e _ => SparesReserved app s e) State.initial events := by
  refine everyStep_congr_of_kept ?_ ?_ State.initial_addressed events
  · intro s e next hs h hone
    have hrows := step_resources hs.stamped.ids h
    exact ⟨step_stamped hs.stamped h,
      (step_address hs.stamped.sound h).homed hrows hs.homed, hone.1⟩
  · intro s e next hs h
    constructor
    · exact fun hone => (exclusive_step_iff hs h).mp hone.1
    · exact fun hspares => ⟨(exclusive_step_iff hs h).mpr hspares, hs.unobstructed h⟩

/-- Two APIs are published to the first environment, and wait to be applied there. -/
def publishedTwice : List Event :=
  [.administer twoGateways, .publish developer publishPets "dev", .resume 0,
    .publish developer { publishPets with
      name := "cats", idempotencyKey := "cats", requestDigest := "cats" } "dev", .resume 0]

theorem address_taken_while_queued :
    ¬ EveryStep (step twoStages) OneAddressOneApi State.initial
      ((publishedTwice ++ [.putRoute developer 6 "dev" "*" "/shop/pets/v1"]) ++
        [.operation 5]) := by
  refine not_everyStep_of_observed (fun s _ => (operationOf s.db.ledger 5).any fun o =>
    addressHeld s.db (o.resourceId, o.environment) o.address) ?_ (by decide +kernel)
  intro s s' hseen hone
  obtain ⟨o, ho, hheld⟩ := (Option.any_eq_true _ _).mp hseen
  have hfree := hone.2 5 o rfl ho
  rw [hfree] at hheld
  cases hheld

end Apim.ControlPlane
