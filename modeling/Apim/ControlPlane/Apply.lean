import Apim.ControlPlane.Fleet
import Apim.ControlPlane.Operations

/-!
# Applying operations

`runOperations` (`control-plane/src/operations.ts:1185-1403`): each operation that is due is applied
in a transaction of its own, which writes the address, the gateways, the backend and the policy of
its stage, supersedes the live release by a new one and rebuilds the routes of the environment; a
transaction that throws leaves nothing but the operation's own retry. Then the operations of every
environment whose fleet has taken its configuration are complete.

`applyOperation` is that transaction. Its policy write stores only the units that differ from the
environment's (`departures`), so that laid over the tier again they are the snapshot's document.
-/

namespace Apim.ControlPlane
open Overlay Policy

inductive ApplyFailure where
  | missingGateways (names : List String)
  | noGateway
  | unavailable
  | constraint
  | definitionUnavailable
  | notActivated (errors : List ConfigError)

/-! ### The transaction -/

def earlierUnfinished (l : Ledger) (o : Operation) : Bool :=
  l.operations.any fun e => e.resourceId == o.resourceId && e.environment == o.environment &&
    e.id < o.id && e.unfinished

def sourceReady (app : App) (db : Database) (snapshot : Snapshot) : Bool :=
  match snapshot.sourceOperationId, snapshot.sourceEnvironment with
  | some parent, _ => (operationOf db.ledger parent).any fun o => o.state == .complete
  | none, some environment => fleetApplied app db environment
  | none, none => true

def chosenGateways (db : Database) (environment : Environment) (snapshot : Snapshot) :
    List TargetId × List String :=
  match snapshot.gateways with
  | some names => resolveGateways db environment names
  | none => ((gatewaysIn db environment).map (·.id), [])

def gatewaysAvailable (db : Database) (environment : Environment) (ids : List TargetId) : Bool :=
  let targets := db.estate.targets.filter fun t => t.environment == environment && ids.contains t.id
  !targets.isEmpty && !targets.any (·.paused)

/-- Another API of the environment has the address (`UNIQUE (environment, host, base_path)`). -/
def addressHeld (db : Database) (stage : Stage) (route : Route) : Bool :=
  db.resources.any fun r => r.id != stage.1 && db.live.route (r.id, stage.2) == some route

def Live.publish (live : Live) (stage : Stage) (snapshot : Snapshot) (ids : List TargetId) : Live :=
  { live with
    route := Function.update live.route stage (some ⟨snapshot.host, snapshot.basePath⟩)
    routeGateway := Function.update live.routeGateway stage ids
    binding := Function.update live.binding stage (some snapshot.backend)
    policyEntry := Function.update live.policyEntry stage
      (departures snapshot.policy (inheritedUnits live stage.2)) }

def Operation.published (o : Operation) (revision : Revision) (at_ : Nat) (id : ReleaseId) :
    Release :=
  { id := id
    resourceId := o.resourceId
    revisionId := o.input.revisionId
    environment := o.environment
    state := .converged
    versionDigest := revision.versionDigest
    releasedBy := o.actor
    releasedAt := at_
    planId := none }

def Ledger.publish (l : Ledger) (o : Operation) (revision : Revision) (at_ : Nat) : Ledger :=
  ((l.moveReleases (o.resourceId, o.environment) .converged .superseded).addRelease
    (o.published revision at_)).freeze o.input.revisionId at_

/-- One row of `applied` for each gateway, and none for a gateway of the environment that was not
chosen (`operations.ts:1336-1366`). -/
def applyOn (db : Database) (stage : Stage) (revisionId : RevisionId) (digest : String)
    (ids : List TargetId) : List Applied :=
  let others := (db.estate.targets.filter fun t => t.environment == stage.2).map (·.id)
  (db.live.applied.filter fun a =>
    !(a.resourceId == stage.1 && (ids.contains a.targetId || others.contains a.targetId))) ++
      ids.map fun id => ⟨id, stage.1, revisionId, digest⟩

def Operation.applied (o : Operation) (releaseId : ReleaseId) : Operation :=
  { o with state := .waitingForGateways, releaseId := some releaseId }

/-- The transaction of one operation (`operations.ts:1196-1369`): `none` when it is not its turn
yet, an error when it throws. -/
def applyOperation (app : App) (db : Database) (o : Operation) :
    Except ApplyFailure (Option Database) :=
  let stage := (o.resourceId, o.environment)
  let chosen := chosenGateways db o.environment o.input
  if earlierUnfinished db.ledger o || !sourceReady app db o.input then .ok none
  else if !chosen.2.isEmpty then .error (.missingGateways chosen.2)
  else if chosen.1.isEmpty then .error .noGateway
  else if !gatewaysAvailable db o.environment chosen.1 then .error .unavailable
  else if (resourceOf db o.resourceId).isNone ||
      addressHeld db stage ⟨o.input.host, o.input.basePath⟩ then .error .constraint
  else
    match revisionOf db.ledger o.input.revisionId with
    | none => .error .definitionUnavailable
    | some revision =>
      let releaseId := db.ledger.next
      let written : Database := { db with
        live := db.live.publish stage o.input chosen.1
        ledger := db.ledger.publish o revision db.clock }
      let built := buildRoutes app.platform written o.environment none
      match built.1.find? fun r => r.resourceId == o.resourceId, built.2 with
      | some route, [] =>
        .ok (some { written with
          live := { written.live with
            applied := applyOn db stage o.input.revisionId (app.platform.appliedDigest route)
              chosen.1 }
          ledger := written.ledger.updateOperation o.id (·.applied releaseId) })
      | _, errors => .error (.notActivated errors)

/-! ### Retrying -/

/-- The operation is one `runOperations` selects: not applied yet, and due. -/
def Operation.due (o : Operation) (now : Nat) : Bool :=
  (o.state == .queued || o.state == .retrying || o.state == .blocked) &&
    o.nextAttemptAt.all (· ≤ now)

def backoff (attempts : Nat) : Nat := min 300000 (1000 * 2 ^ min attempts 8)

/-- The operation after a transaction that threw (`operations.ts:1370-1386`). -/
def Operation.failedOnce (o : Operation) (now : Nat) : Operation :=
  let attempts := o.attempts + 1
  { o with
    state := if 5 ≤ attempts then .blocked else .retrying
    attempts := attempts
    nextAttemptAt := some (now + backoff attempts) }

def runOperation (app : App) (db : Database) (o : Operation) : Database :=
  match applyOperation app db o with
  | .ok none => db
  | .ok (some applied) => applied
  | .error _ => { db with ledger := db.ledger.updateOperation o.id (·.failedOnce db.clock) }

/-! ### Completing -/

/-- A subscription whose key change the fleet has taken (`operations.ts:1399-1406`). -/
def Subscription.settled (environment : Environment) (s : Subscription) : Subscription :=
  if s.environment = environment ∧ s.state = .activating then { s with state := .active }
  else if s.environment = environment ∧ s.state = .revoking then { s with state := .revoked }
  else s

/-- The end of `runOperations` for one environment: nothing unless its fleet has taken the
configuration. -/
def completeEnvironment (app : App) (db : Database) (environment : Environment) : Database :=
  if fleetApplied app db environment then
    { db with
      ledger := db.ledger.completeOperations environment
      estate := { db.estate with
        subscriptions := db.estate.subscriptions.map (Subscription.settled environment) } }
  else db

def dueOperations (db : Database) : List Operation :=
  (db.ledger.operations.filter fun o => o.due db.clock).take 30

/-- `runOperations` (`operations.ts:1185-1403`). -/
def runOperations (app : App) (db : Database) : Database :=
  app.config.promotionChain.foldl (completeEnvironment app)
    ((dueOperations db).foldl (runOperation app) db)

/-! ### What an applied operation has done -/

theorem applyOperation_ok {app : App} {db db' : Database} {o : Operation}
    (h : applyOperation app db o = .ok (some db')) :
    ∃ revision route,
      earlierUnfinished db.ledger o = false ∧
      (chosenGateways db o.environment o.input).2 = [] ∧
      revisionOf db.ledger o.input.revisionId = some revision ∧
      (buildRoutes app.platform { db with
          live := db.live.publish (o.resourceId, o.environment) o.input
            (chosenGateways db o.environment o.input).1
          ledger := db.ledger.publish o revision db.clock } o.environment none).2 = [] ∧
      route ∈ (buildRoutes app.platform { db with
          live := db.live.publish (o.resourceId, o.environment) o.input
            (chosenGateways db o.environment o.input).1
          ledger := db.ledger.publish o revision db.clock } o.environment none).1 ∧
      route.resourceId = o.resourceId ∧
      db' = { db with
        live := { db.live.publish (o.resourceId, o.environment) o.input
            (chosenGateways db o.environment o.input).1 with
          applied := applyOn db (o.resourceId, o.environment) o.input.revisionId
            (app.platform.appliedDigest route) (chosenGateways db o.environment o.input).1 }
        ledger := (db.ledger.publish o revision db.clock).updateOperation o.id
          (·.applied db.ledger.next) } := by
  unfold applyOperation at h
  dsimp only at h
  split at h
  · cases h
  next hturn =>
    split at h
    · cases h
    next hmissing =>
      split at h
      · cases h
      split at h
      · cases h
      split at h
      · cases h
      split at h
      · cases h
      next revision hrevision =>
        split at h
        next _ route hroute herrors =>
          refine ⟨revision, route, ?_, ?_, hrevision, herrors, List.mem_of_find?_eq_some hroute,
            by simpa using List.find?_some hroute, ?_⟩
          · simp only [Bool.or_eq_true, Bool.not_eq_true] at hturn
            exact Bool.eq_false_iff.mpr fun hearlier => hturn (.inl hearlier)
          · simpa using hmissing
          · exact (Option.some.inj (Except.ok.inj h)).symm
        · cases h

end Apim.ControlPlane
