import Mathlib.Data.List.Sort
import Mathlib.Logic.Function.Basic
import Apim.Shared.Policy
import Apim.Shared.GatewaySettings

/-!
# The control plane's database

The tables the release machinery reads and writes (`control-plane/migrations/schema*.sql`), in three
groups. `Ledger` has the tables whose rows are only added and moved through states: revisions,
operations, releases, plans and jobs. `Live` has what is edited in place for one API in one
environment: address, backend, gateways, policy. `Estate` has what administrators keep around them:
gateways and their instances, settings, subscriptions, certificates, rules. A table keyed by
(resource, environment) is a function of that pair.

Rows are numbered by one counter, `Ledger.next`, which stands for the row id of every table that is
read in insertion order; an instant is a number of milliseconds. Columns that only a screen reads
(`created_by`, `reason`, `description` and the like) are left out.
-/

namespace Apim.ControlPlane
open Overlay GatewaySettings

abbrev Environment := String
abbrev ResourceId := Nat
abbrev RevisionId := Nat
abbrev OperationId := Nat
abbrev ReleaseId := Nat
abbrev PlanId := Nat
abbrev JobId := Nat
abbrev TargetId := Nat

abbrev Stage := ResourceId × Environment

/-- The session user of a request (`control-plane/src/auth.ts`). -/
structure User where
  id : String
  isAdmin : Bool
  applications : List String
  deriving DecidableEq, Repr

/-- `can` (`control-plane/src/auth.ts`): an administrator, or a member of the application. -/
def can (user : User) (applicationId : String) : Bool :=
  user.isAdmin || user.applications.contains applicationId

/-! ### What is edited in place -/

structure Route where
  host : String
  basePath : String
  deriving DecidableEq, Repr

structure BackendEntry where
  url : String
  weight : Option Nat
  deriving DecidableEq, Repr

inductive LoadRule where
  | failover
  | roundRobin
  deriving DecidableEq, Repr

/-- `BackendPool` (`shared/backend.ts:17-21`), the shape `binding.backend_json` is written in. -/
structure Backend where
  pool : List BackendEntry
  rule : LoadRule
  clientCertRef : Option Nat
  deriving DecidableEq, Repr

structure Applied where
  targetId : TargetId
  resourceId : ResourceId
  revisionId : RevisionId
  appliedDigest : String
  deriving DecidableEq, Repr

structure Live where
  route : Stage → Option Route
  binding : Stage → Option Backend
  routeGateway : Stage → List TargetId
  policyEntry : Stage → Document
  environmentOverride : Stage → Option Document
  globalPolicy : Environment → Document
  applied : List Applied

/-! ### What is only added to -/

structure Resource where
  id : ResourceId
  kind : ResourceKind
  name : String
  applicationId : String
  apiVersion : String
  lifecycle : String
  sunsetAt : Option Nat
  visibility : String
  domain : Option String
  subdomain : Option String
  kafkaTopic : Option String
  updatedAt : Nat
  deriving DecidableEq, Repr

structure Revision where
  id : RevisionId
  resourceId : ResourceId
  rev : Nat
  model : String
  original : String
  versionDigest : String
  artifactDigest : String
  index : Option String
  frozenAt : Option Nat
  prunedAt : Option Nat
  createdAt : Nat
  deriving DecidableEq, Repr

/-- `Snapshot` (`control-plane/src/operations.ts:47-64`), what an operation publishes. -/
structure Snapshot where
  revisionId : RevisionId
  host : String
  basePath : String
  backend : Backend
  policy : Document
  gateways : Option (List String)
  sourceOperationId : Option OperationId
  sourceEnvironment : Option Environment
  requestDigest : String

inductive OperationKind where
  | publish
  | configure
  | promote
  deriving DecidableEq, Repr

inductive OperationState where
  | queued
  | retrying
  | blocked
  | waitingForGateways
  | complete
  | superseded
  deriving DecidableEq, Repr

/-- A row of `operation`. `actor` is the session user who made the request; the table keeps the
user's id. `releaseId` is the release in `result_json`. -/
structure Operation where
  id : OperationId
  applicationId : String
  actor : User
  kind : OperationKind
  resourceId : ResourceId
  environment : Environment
  state : OperationState
  input : Snapshot
  releaseId : Option ReleaseId
  attempts : Nat
  nextAttemptAt : Option Nat
  idempotencyKey : String

inductive ReleaseState where
  | pending
  | converging
  | converged
  | superseded
  | withdrawn
  | stale
  | failed
  deriving DecidableEq, Repr

/-- `REACHED_FLEET_STATES` (`shared/types.ts:42`). -/
def ReleaseState.reachedFleet : ReleaseState → Bool
  | .converged | .superseded | .withdrawn => true
  | _ => false

structure Release where
  id : ReleaseId
  resourceId : ResourceId
  revisionId : RevisionId
  environment : Environment
  state : ReleaseState
  versionDigest : String
  releasedBy : User
  releasedAt : Nat
  planId : Option PlanId
  deriving DecidableEq, Repr

/-- `PolicyPlanEntry` (`control-plane/src/promotion.ts:13-18`), less the text of its reason. -/
structure PolicyPlanEntry where
  unit : UnitKey
  value : Json

inductive BlockerCode where
  | noRoute
  | noBinding
  | chain
  | noTarget
  | invalidMerge
  deriving DecidableEq, Repr

/-- `ReleasePlan` (`control-plane/src/promotion.ts:25-44`), less its sentences. -/
structure ReleasePlan where
  resourceId : ResourceId
  revisionId : RevisionId
  rev : Nat
  source : Option Environment
  destination : Environment
  isRollback : Bool
  skipChain : Bool
  blockers : List BlockerCode
  create : List PolicyPlanEntry
  keep : List PolicyPlanEntry
  localOnly : List PolicyPlanEntry

structure PlanRow where
  id : PlanId
  plan : ReleasePlan
  computedAt : Nat

inductive Intent where
  | apply
  | remove
  deriving DecidableEq, Repr

/-- `ReconcilePayload` (`control-plane/src/jobs.ts:23-31`). -/
structure ReconcilePayload where
  targetId : TargetId
  resourceId : ResourceId
  releaseId : Option ReleaseId
  planId : Option PlanId
  intent : Intent
  environment : Option Environment
  deriving DecidableEq, Repr

inductive JobWork where
  | reconcile (payload : ReconcilePayload)
  | prune
  deriving DecidableEq, Repr

inductive JobKey where
  | apply (targetId : TargetId) (releaseId : ReleaseId)
  | remove (targetId : TargetId) (resourceId : ResourceId) (at_ : Nat)
  | prune (hour : Nat)
  deriving DecidableEq, Repr

inductive JobState where
  | queued
  | running
  | done
  | failed
  deriving DecidableEq, Repr

structure Job where
  id : JobId
  work : JobWork
  state : JobState
  key : JobKey
  attempts : Nat
  nextAttemptAt : Option Nat
  updatedAt : Nat
  deriving DecidableEq, Repr

structure Ledger where
  next : Nat
  revisions : List Revision
  artifacts : List String
  operations : List Operation
  releases : List Release
  plans : List PlanRow
  jobs : List Job

/-! ### What administrators keep -/

structure Target where
  id : TargetId
  environment : Environment
  name : String
  paused : Bool
  deriving DecidableEq, Repr

structure GatewayInstance where
  id : Nat
  targetId : TargetId
  configDigest : Option String
  lastSeenAt : Option Nat
  revokedAt : Option Nat
  deriving DecidableEq, Repr

inductive SubscriptionState where
  | pending
  | activating
  | active
  | revoking
  | revoked
  deriving DecidableEq, Repr

structure Subscription where
  id : Nat
  productId : String
  productName : String
  applicationId : String
  applicationName : String
  environment : Environment
  state : SubscriptionState
  primaryKeyEnc : String
  secondaryKeyEnc : Option String
  primaryKeyExpiredAt : Option Nat
  secondaryKeyExpiredAt : Option Nat
  deriving DecidableEq, Repr

structure Certificate where
  id : Nat
  name : String
  environment : Environment
  applicationId : String
  thumbprint : String
  notAfter : Nat
  deriving DecidableEq, Repr

structure TlsException where
  id : Nat
  resourceId : ResourceId
  environment : Environment
  backendUrl : Option String
  mode : String
  pinThumbprint : Option String
  reason : String
  expiresAt : Nat
  revokedAt : Option Nat
  deriving DecidableEq, Repr

structure BodyCapture where
  resourceId : ResourceId
  environment : Environment
  expiresAt : Nat
  revokedAt : Option Nat
  deriving DecidableEq, Repr

structure TrustAnchor where
  id : Nat
  environment : Environment
  name : String
  thumbprint : String
  certPem : String
  notAfter : Nat
  removedAt : Option Nat
  deriving DecidableEq, Repr

/-- `DenyRule` (`control-plane/src/egress.ts:47-56`), of the rules in force; `environment` is `none`
for a rule of every environment. -/
structure DenyRule where
  id : String
  environment : Option Environment
  scheme : Option String
  hostPattern : String
  ports : List Nat
  portRange : Option (Nat × Nat)
  reason : String
  deriving DecidableEq, Repr

inductive ReferenceKind where
  | issuer
  | tokenProvider
  | hmacScheme
  | secretHash
  | secret
  deriving DecidableEq, Repr

/-- The tables beside the release machinery. `references` is what the integrations file and the
applications' credential stores answer for a reference in an environment. -/
structure Estate where
  targets : List Target
  instances : List GatewayInstance
  gatewaySettings : List SettingOverride
  subscriptions : List Subscription
  certificates : List Certificate
  tlsExceptions : List TlsException
  bodyCaptures : List BodyCapture
  trustAnchors : List TrustAnchor
  denyRules : List DenyRule
  references : Environment → ReferenceKind → String → Option Json
  productMembers : List (String × ResourceId)

structure Database where
  clock : Nat
  resources : List Resource
  ledger : Ledger
  live : Live
  estate : Estate

def Database.empty : Database where
  clock := 0
  resources := []
  ledger := ⟨1, [], [], [], [], [], []⟩
  live := ⟨fun _ => none, fun _ => none, fun _ => [], fun _ => ∅, fun _ => none, fun _ => ∅, []⟩
  estate := ⟨[], [], [], [], [], [], [], [], [], fun _ _ _ => none, []⟩

/-! ### Reading rows -/

def resourceOf (db : Database) (id : ResourceId) : Option Resource :=
  db.resources.find? fun r => r.id == id

def revisionOf (ledger : Ledger) (id : RevisionId) : Option Revision :=
  ledger.revisions.find? fun r => r.id == id

def operationOf (ledger : Ledger) (id : OperationId) : Option Operation :=
  ledger.operations.find? fun o => o.id == id

def releaseOf (ledger : Ledger) (id : ReleaseId) : Option Release :=
  ledger.releases.find? fun r => r.id == id

def planOf (ledger : Ledger) (id : PlanId) : Option PlanRow :=
  ledger.plans.find? fun p => p.id == id

def jobOf (ledger : Ledger) (id : JobId) : Option Job :=
  ledger.jobs.find? fun j => j.id == id

def convergedIn (ledger : Ledger) (stage : Stage) : Option Release :=
  ledger.releases.find? fun r =>
    r.resourceId == stage.1 && r.environment == stage.2 && r.state == .converged

def latestRevision (ledger : Ledger) (id : ResourceId) : Option Revision :=
  (ledger.revisions.filter fun r => r.resourceId == id).foldl
    (fun best r => match best with
      | some b => if b.rev < r.rev then some r else some b
      | none => some r) none

/-- `gatewaysIn` (`control-plane/src/api/fleet.ts:111-117`): by name. -/
def gatewaysIn (db : Database) (environment : Environment) : List Target :=
  (db.estate.targets.filter fun t => t.environment == environment).insertionSort
    fun a b => a.name ≤ b.name

/-- `boundGatewayNames` (`control-plane/src/api/fleet.ts:289-297`). -/
def boundGatewayNames (db : Database) (stage : Stage) : List String :=
  ((db.live.routeGateway stage).filterMap fun id =>
    (db.estate.targets.find? fun t => t.id == id).map (·.name)).insertionSort (· ≤ ·)

/-- `resolveGateways` (`control-plane/src/api/fleet.ts:228-243`): the ids, and the names that
resolve to nothing. -/
def resolveGateways (db : Database) (environment : Environment) (names : List String) :
    List TargetId × List String :=
  let known := fun name => (gatewaysIn db environment).find? fun t => t.name == name
  (names.filterMap fun name => (known name).map (·.id),
    names.filter fun name => (known name).isNone)

end Apim.ControlPlane
