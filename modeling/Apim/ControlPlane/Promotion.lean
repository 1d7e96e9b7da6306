import Apim.ControlPlane.Revisions

/-!
# Promotion by release plans

The gate, the plan and the per-unit merge of `control-plane/src/promotion.ts`, and the request that
asks for a release under a plan (`control-plane/src/api/promotion.ts:132-285`). A plan lists the
units the predecessor's rows would add; they are written only when the release is applied, by the
reconcile job, from a plan computed again.
-/

namespace Apim.ControlPlane
open Overlay Policy

/-- `predecessorOf` (`promotion.ts:46-50`). -/
def predecessorOf (chain : List Environment) (environment : Environment) : Option Environment :=
  match chain.idxOf? environment with
  | some (index + 1) => chain[index]?
  | _ => none

/-- `reachedFleet` (`promotion.ts:59-68`). -/
def reachedFleet (l : Ledger) (revisionId : RevisionId) (environment : Environment) : Bool :=
  l.releases.any fun r =>
    r.revisionId == revisionId && r.environment == environment && r.state.reachedFleet

/-! ### The plan -/

def sourceUnits (db : Database) (id : ResourceId) (source : Option Environment) : Document :=
  match source with
  | some environment => resourceUnits db.live (id, environment)
  | none => ∅

/-- The merge a plan validates: the target's rows, and the predecessor's where the target has none
(`promotion.ts:149-150`). -/
def mergedUnits (db : Database) (id : ResourceId) (source : Option Environment)
    (target : Environment) : Document :=
  overlaid (resourceUnits db.live (id, target)) (sourceUnits db id source)

def planEntries (doc : Document) : List PolicyPlanEntry :=
  doc.entries.map fun entry => ⟨entry.1, entry.2⟩

/-- `computePlan` (`promotion.ts:88-203`). -/
def computePlan (app : App) (db : Database) (resource : Resource) (revision : Revision)
    (environment : Environment) (skipChain : Bool) : ReleasePlan :=
  let source := predecessorOf app.config.promotionChain environment
  let target := resourceUnits db.live (resource.id, environment)
  let upstream := sourceUnits db resource.id source
  let merged := mergedUnits db resource.id source environment
  let stage := (resource.id, environment)
  { resourceId := resource.id
    revisionId := revision.id
    rev := revision.rev
    source := source
    destination := environment
    isRollback := ((convergedIn db.ledger stage).bind fun live =>
      revisionOf db.ledger live.revisionId).any fun live => revision.rev < live.rev
    skipChain := skipChain
    blockers :=
      (if (db.live.route stage).isNone then [.noRoute] else []) ++
      (if (db.live.binding stage).isNone then [.noBinding] else []) ++
      (if (gatewaysIn db environment).isEmpty then [.noTarget] else []) ++
      (if !skipChain && source.any fun s => !reachedFleet db.ledger revision.id s then [.chain]
        else []) ++
      (if (validateDocument app.platform.validateUnit resource.kind merged).isEmpty then []
        else [.invalidMerge])
    create := planEntries (select (fun unit _ => (target.lookup unit).isNone) upstream)
    keep := planEntries (select (fun unit _ => (upstream.lookup unit).isSome) target)
    localOnly := planEntries (select (fun unit _ => (upstream.lookup unit).isNone) target) }

/-- One seeded row, which never replaces a row that is there (`ON CONFLICT DO NOTHING`). -/
def seedUnit (doc : Document) (entry : PolicyPlanEntry) : Document :=
  if (doc.lookup entry.unit).isSome then doc else doc.insert entry.unit entry.value

/-- `applySeededUnits` (`promotion.ts:228-243`). -/
def applySeededUnits (live : Live) (plan : ReleasePlan) : Live :=
  let stage := (plan.resourceId, plan.destination)
  live.setPolicy stage (plan.create.foldl seedUnit (live.policyEntry stage))

theorem lookup_foldl_seedUnit (entries : List PolicyPlanEntry) (doc : Document) (unit : UnitKey) :
    (entries.foldl seedUnit doc).lookup unit =
      (doc.lookup unit).or ((entries.find? fun e => e.unit == unit).map (·.value)) := by
  induction entries generalizing doc with
  | nil => simp
  | cons entry entries ih =>
    rw [List.foldl_cons, ih, List.find?_cons]
    by_cases hunit : entry.unit = unit
    · subst hunit
      cases hdoc : doc.lookup entry.unit with
      | none => simp [seedUnit, hdoc]
      | some value => simp [seedUnit, hdoc]
    · have hlookup : (seedUnit doc entry).lookup unit = doc.lookup unit := by
        rw [seedUnit]
        split
        · rfl
        · exact AList.lookup_insert_ne (Ne.symm hunit)
      have hne : (entry.unit == unit) = false := by simpa using hunit
      rw [hlookup, hne]

theorem find?_planEntries (doc : Document) (unit : UnitKey) :
    ((planEntries doc).find? fun e => e.unit == unit).map (·.value) = doc.lookup unit := by
  apply Option.ext
  intro value
  rw [lookup_eq_some_iff, planEntries, List.find?_map, Option.map_map, Option.map_eq_some_iff]
  constructor
  · rintro ⟨entry, hfind, rfl⟩
    have hmem := List.mem_of_find?_eq_some hfind
    have hkey : entry.1 = unit := by simpa using List.find?_some hfind
    rw [← hkey]
    exact hmem
  · intro hmem
    have hsome : (doc.entries.find? fun entry : Σ _ : UnitKey, Json =>
        (⟨entry.1, entry.2⟩ : PolicyPlanEntry).unit == unit).isSome := by
      rw [List.find?_isSome]
      exact ⟨_, hmem, by simp⟩
    obtain ⟨entry, hfind⟩ := Option.isSome_iff_exists.mp hsome
    have hentry := List.mem_of_find?_eq_some hfind
    have hkey : entry.1 = unit := by simpa using List.find?_some hfind
    refine ⟨entry, hfind, ?_⟩
    have h₁ := (lookup_eq_some_iff doc unit value).mpr hmem
    have h₂ := (lookup_eq_some_iff doc entry.1 entry.2).mpr hentry
    rw [hkey, h₁] at h₂
    exact (Option.some.inj h₂).symm

theorem lookup_applySeededUnits (app : App) (db : Database) (resource : Resource)
    (revision : Revision) (environment : Environment) (skipChain : Bool) (unit : UnitKey) :
    ((applySeededUnits db.live (computePlan app db resource revision environment
        skipChain)).policyEntry (resource.id, environment)).lookup unit =
      (mergedUnits db resource.id (predecessorOf app.config.promotionChain environment)
        environment).lookup unit := by
  rw [mergedUnits, lookup_over, applySeededUnits]
  simp only [computePlan, Live.setPolicy_policyEntry]
  rw [lookup_foldl_seedUnit, find?_planEntries, lookup_select]
  cases hrow : (db.live.policyEntry (resource.id, environment)).lookup unit with
  | some value => simp [resourceUnits, hrow]
  | none =>
    simp only [resourceUnits, hrow, Option.isNone_none, Option.none_or]
    cases (sourceUnits db resource.id _).lookup unit <;> rfl

/-! ### Asking for a release -/

/-- `revisionFor` (`api/promotion.ts:36-62`): by number or the latest, and never a tombstone. -/
def revisionFor (db : Database) (id : ResourceId) (rev : Option Nat) : Except Refusal Revision :=
  let row := match rev with
    | some n => db.ledger.revisions.find? fun (r : Revision) => r.resourceId == id && r.rev == n
    | none => latestRevision db.ledger id
  match row with
  | none => .error .notFound
  | some revision =>
    if revision.prunedAt.isSome then .error (.pruned revision.rev) else .ok revision

structure ReleaseRequest where
  rev : Option Nat
  environment : Environment
  planId : Option PlanId
  skipChain : Bool
  reason : String
  deriving DecidableEq, Repr

/-- A dry run persists the plan it shows (`api/promotion.ts:162-165`). -/
def dryRunRelease (app : App) (db : Database) (user : User) (id : ResourceId)
    (body : ReleaseRequest) : Except Refusal Database := do
  let resource ← orRefuse (resourceOf db id) .notFound
  require (can user resource.applicationId) .notMember
  require (app.config.promotionChain.contains body.environment)
    (.unknownEnvironment body.environment)
  let revision ← revisionFor db id body.rev
  require (!body.skipChain || user.isAdmin) .adminOnly
  let plan := computePlan app db resource revision body.environment body.skipChain
  return { db with ledger := db.ledger.addPlan plan db.clock }

variable {db : Database} {id : ResourceId} {body : ReleaseRequest}

theorem dryRunRelease_ok {app : App} {db' : Database} {user : User}
    (h : dryRunRelease app db user id body = .ok db') :
    ∃ plan, db' = { db with ledger := db.ledger.addPlan plan db.clock } := by
  simp only [dryRunRelease, bind_ok, orRefuse_ok, require_ok] at h
  obtain ⟨resource, -, -, -, -, -, revision, -, -, -, hdb⟩ := h
  exact ⟨_, (Except.ok.inj hdb).symm⟩

/-- The plan a release is confirmed against: a stored one that is this release's and was not used,
or, where nothing is promoted, a new one (`api/promotion.ts:171-205`). -/
def confirmPlan (db : Database) (plan : ReleasePlan) (body : ReleaseRequest) :
    Except Refusal (Ledger × PlanId) :=
  match body.planId with
  | none =>
    if plan.source.isSome && !body.skipChain then .error (.badRequest "planId")
    else .ok (db.ledger.addPlan plan db.clock, db.ledger.next)
  | some planId =>
    match planOf db.ledger planId with
    | none => .error .notFound
    | some stored =>
      if stored.plan.resourceId ≠ plan.resourceId ∨ stored.plan.destination ≠ body.environment ∨
          stored.plan.revisionId ≠ plan.revisionId then .error (.badRequest "planId")
      else if db.ledger.releases.any fun r =>
          r.planId == some planId && r.state != .stale then .error (.conflict "plan used")
      else .ok (db.ledger, planId)

theorem confirmPlan_ok {plan : ReleasePlan} {confirmed : Ledger × PlanId}
    (h : confirmPlan db plan body = .ok confirmed) :
    confirmed.1 = db.ledger ∨ confirmed.1 = db.ledger.addPlan plan db.clock := by
  unfold confirmPlan at h
  split at h
  · split at h
    · cases h
    · exact .inr (congrArg Prod.fst (Except.ok.inj h)).symm
  · split at h
    · cases h
    · split at h
      · cases h
      split at h
      · cases h
      exact .inl (congrArg Prod.fst (Except.ok.inj h)).symm

def pendingRelease (user : User) (stage : Stage) (revision : Revision) (planId : PlanId)
    (at_ : Nat) (id : ReleaseId) : Release :=
  { id := id
    resourceId := stage.1
    revisionId := revision.id
    environment := stage.2
    state := .pending
    versionDigest := revision.versionDigest
    releasedBy := user
    releasedAt := at_
    planId := some planId }

def applyJob (targetId : TargetId) (stage : Stage) (releaseId : ReleaseId) (planId : PlanId) :
    ReconcilePayload :=
  { targetId := targetId
    resourceId := stage.1
    releaseId := some releaseId
    planId := some planId
    intent := .apply
    environment := some stage.2 }

/-- POST /releases (`api/promotion.ts:132-285`): a pending release and the job that applies it. -/
def requestRelease (app : App) (db : Database) (user : User) (id : ResourceId)
    (body : ReleaseRequest) : Except Refusal Database := do
  let resource ← orRefuse (resourceOf db id) .notFound
  require (can user resource.applicationId) .notMember
  require (app.config.promotionChain.contains body.environment)
    (.unknownEnvironment body.environment)
  let revision ← revisionFor db id body.rev
  require (!body.skipChain || user.isAdmin) .adminOnly
  require (!body.skipChain || !body.reason.isEmpty) (.badRequest "reason")
  let plan := computePlan app db resource revision body.environment body.skipChain
  require plan.blockers.isEmpty (.blocked plan.blockers)
  let confirmed ← confirmPlan db plan body
  let target ← orRefuse (gatewaysIn db body.environment).head? .noGateway
  let stage := (id, body.environment)
  let released := (confirmed.1.addRelease
    (pendingRelease user stage revision confirmed.2 db.clock)).freeze revision.id db.clock
  return { db with
    ledger := released.enqueueJob
      (.reconcile (applyJob target.id stage confirmed.1.next confirmed.2))
      (.apply target.id confirmed.1.next) db.clock }

theorem requestRelease_ok {app : App} {db' : Database} {user : User}
    (h : requestRelease app db user id body = .ok db') :
    ∃ revision, ∃ target ∈ gatewaysIn db body.environment, ∃ confirmed plan,
      revisionFor db id body.rev = .ok revision ∧ confirmPlan db plan body = .ok confirmed ∧
      db' = { db with
        ledger := ((confirmed.1.addRelease
            (pendingRelease user (id, body.environment) revision confirmed.2 db.clock)).freeze
              revision.id db.clock).enqueueJob
          (.reconcile (applyJob target.id (id, body.environment) confirmed.1.next confirmed.2))
          (.apply target.id confirmed.1.next) db.clock } := by
  simp only [requestRelease, bind_ok, orRefuse_ok, require_ok] at h
  obtain ⟨resource, -, -, -, -, -, revision, hrevision, -, -, -, -, -, -, confirmed, hconfirmed,
    target, htarget, hdb⟩ := h
  exact ⟨revision, target, List.mem_of_head? htarget, confirmed, _, hrevision, hconfirmed,
    (Except.ok.inj hdb).symm⟩

theorem revisionFor_ok {rev : Option Nat} {revision : Revision}
    (h : revisionFor db id rev = .ok revision) :
    ((∃ n, rev = some n ∧ db.ledger.revisions.find?
        (fun (r : Revision) => r.resourceId == id && r.rev == n) = some revision) ∨
      (rev = none ∧ latestRevision db.ledger id = some revision)) ∧ revision.prunedAt = none := by
  unfold revisionFor at h
  dsimp only at h
  split at h
  · cases h
  next row hrow =>
    split at h
    · cases h
    next hpruned =>
      obtain rfl := Except.ok.inj h
      refine ⟨?_, by simpa using hpruned⟩
      cases rev with
      | none => exact .inr ⟨rfl, hrow⟩
      | some n => exact .inl ⟨n, rfl, hrow⟩

/-! ### Withdrawing and deleting -/

def enqueueRemoval (id : ResourceId) (at_ : Nat) (l : Ledger) (target : Target) : Ledger :=
  let job : ReconcilePayload :=
    { targetId := target.id
      resourceId := id
      releaseId := none
      planId := none
      intent := .remove
      environment := some target.environment }
  l.enqueueJob (.reconcile job) (.remove target.id id at_) at_

/-- DELETE of an API's releases in an environment (`api/resources.ts:1903-1931`). -/
def withdraw (app : App) (db : Database) (user : User) (id : ResourceId)
    (environment : Environment) : Except Refusal Database := do
  let resource ← orRefuse (resourceOf db id) .notFound
  require (can user resource.applicationId) .notMember
  require (app.config.promotionChain.contains environment) (.unknownEnvironment environment)
  let target ← orRefuse (gatewaysIn db environment).head? .noGateway
  return { db with ledger := enqueueRemoval id db.clock db.ledger target }

theorem withdraw_ok {app : App} {db' : Database} {user : User} {environment : Environment}
    (h : withdraw app db user id environment = .ok db') :
    ∃ target ∈ gatewaysIn db environment,
      db' = { db with ledger := enqueueRemoval id db.clock db.ledger target } := by
  simp only [withdraw, bind_ok, orRefuse_ok, require_ok] at h
  obtain ⟨resource, -, -, -, -, -, target, htarget, hdb⟩ := h
  exact ⟨target, List.mem_of_head? htarget, (Except.ok.inj hdb).symm⟩

/-- The withdrawal of an API from every gateway, which precedes its deletion
(`api/resources.ts:919-931`). -/
def enqueueRemovals (db : Database) (id : ResourceId) : Database :=
  { db with ledger := db.estate.targets.foldl (enqueueRemoval id db.clock) db.ledger }

/-- The row goes and the rest cascades (`api/resources.ts:932`). -/
def deleteResource (db : Database) (id : ResourceId) : Database :=
  { db with
    resources := db.resources.filter fun r => r.id != id
    ledger := db.ledger.deleteResource id
    live :=
      { route := fun stage => if stage.1 = id then none else db.live.route stage
        binding := fun stage => if stage.1 = id then none else db.live.binding stage
        routeGateway := fun stage => if stage.1 = id then [] else db.live.routeGateway stage
        policyEntry := fun stage => if stage.1 = id then ∅ else db.live.policyEntry stage
        environmentOverride := fun stage =>
          if stage.1 = id then none else db.live.environmentOverride stage
        globalPolicy := db.live.globalPolicy
        applied := db.live.applied.filter fun a => a.resourceId != id } }

end Apim.ControlPlane
