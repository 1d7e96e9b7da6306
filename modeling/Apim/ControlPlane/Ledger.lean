import Mathlib.Tactic.Common
import Apim.ControlPlane.Database

/-!
# Writing the ledger

The statements that add rows to the ledger and move them through states, each under the words of
the source, and what holds of the row numbers whatever is written. A row takes the next number when
it is inserted, so numbers follow insertion order within a table and across tables: an operation, a
release or a job with a smaller number was accepted earlier.
-/

namespace Apim.ControlPlane

namespace Ledger

/-! ### Revisions -/

def freeze (l : Ledger) (id : RevisionId) (at_ : Nat) : Ledger :=
  { l with revisions := l.revisions.map fun r =>
      if r.id = id then { r with frozenAt := some (r.frozenAt.getD at_) } else r }

def storeArtifact (l : Ledger) (digest : String) : Ledger :=
  if digest = "" ∨ digest ∈ l.artifacts then l
  else { l with artifacts := l.artifacts ++ [digest] }

def addRevision (l : Ledger) (row : RevisionId → Revision) : Ledger :=
  { l with next := l.next + 1, revisions := l.revisions ++ [row l.next] }

/-! ### Operations and releases -/

def addOperation (l : Ledger) (row : OperationId → Operation) : Ledger :=
  { l with next := l.next + 1, operations := l.operations ++ [row l.next] }

def updateOperation (l : Ledger) (id : OperationId) (f : Operation → Operation) : Ledger :=
  { l with operations := l.operations.map fun o => if o.id = id then f o else o }

/-- Every operation of the environment that waits for gateways is complete
(`operations.ts:1376-1398`). -/
def completeOperations (l : Ledger) (environment : Environment) : Ledger :=
  { l with operations := l.operations.map fun o =>
      if o.environment = environment ∧ o.state = .waitingForGateways then
        { o with state := .complete }
      else o }

def addRelease (l : Ledger) (row : ReleaseId → Release) : Ledger :=
  { l with next := l.next + 1, releases := l.releases ++ [row l.next] }

def moveReleases (l : Ledger) (stage : Stage) (old new : ReleaseState) : Ledger :=
  { l with releases := l.releases.map fun r =>
      if r.resourceId = stage.1 ∧ r.environment = stage.2 ∧ r.state = old then
        { r with state := new }
      else r }

def setRelease (l : Ledger) (id : ReleaseId) (state : ReleaseState) : Ledger :=
  { l with releases := l.releases.map fun r => if r.id = id then { r with state := state } else r }

/-! ### Plans and jobs -/

def addPlan (l : Ledger) (plan : ReleasePlan) (at_ : Nat) : Ledger :=
  { l with next := l.next + 1, plans := l.plans ++ [⟨l.next, plan, at_⟩] }

/-- `enqueueJob` (`jobs.ts:33-53`): one job for a key. -/
def enqueueJob (l : Ledger) (work : JobWork) (key : JobKey) (at_ : Nat) : Ledger :=
  if l.jobs.any fun j => decide (j.key = key) then l
  else { l with
    next := l.next + 1
    jobs := l.jobs ++ [⟨l.next, work, .queued, key, 0, none, at_⟩] }

def updateJob (l : Ledger) (id : JobId) (f : Job → Job) : Ledger :=
  { l with jobs := l.jobs.map fun j => if j.id = id then f j else j }

/-- What goes with a resource (`ON DELETE CASCADE`). An operation has no such constraint. -/
def deleteResource (l : Ledger) (id : ResourceId) : Ledger :=
  { l with
    revisions := l.revisions.filter fun r => r.resourceId != id
    releases := l.releases.filter fun r => r.resourceId != id
    plans := l.plans.filter fun p => p.plan.resourceId != id }

end Ledger

def Operation.unfinished (o : Operation) : Bool :=
  o.state != .complete && o.state != .superseded

/-! ### Retention -/

/-- What a retention pass is configured with (`retention.ts:36-43`), in milliseconds. -/
structure RetentionOptions where
  keepCount : Nat
  ageCutoff : Nat
  planCutoff : Nat
  deriving DecidableEq, Repr

namespace Ledger

/-- `ROW_NUMBER() OVER (PARTITION BY resource_id ORDER BY rev DESC)` over the rows not pruned. -/
def rank (l : Ledger) (revision : Revision) : Nat :=
  1 + (l.revisions.filter fun r =>
    r.resourceId == revision.resourceId && r.prunedAt.isNone && revision.rev < r.rev).length

/-- `a` comes before `b` in `ORDER BY released_at DESC`, rows of one instant in insertion order. -/
def newerRelease (a b : Release) : Bool :=
  b.releasedAt < a.releasedAt || (a.releasedAt == b.releasedAt && a.id < b.id)

/-- `ROW_NUMBER() OVER (PARTITION BY resource_id, environment ORDER BY released_at DESC)` over the
releases that reached the fleet. -/
def recency (l : Ledger) (release : Release) : Nat :=
  1 + (l.releases.filter fun r =>
    r.resourceId == release.resourceId && r.environment == release.environment &&
      r.state.reachedFleet && newerRelease r release).length

def releaseKeeps (l : Ledger) (release : Release) : Bool :=
  (release.state.reachedFleet && l.recency release ≤ 2) ||
    release.state == .pending || release.state == .converging || release.state == .converged

def keptByRelease (l : Ledger) (id : RevisionId) : Bool :=
  l.releases.any fun r => r.revisionId == id && l.releaseKeeps r

def keptByPlan (l : Ledger) (options : RetentionOptions) (id : RevisionId) : Bool :=
  l.plans.any fun p => p.plan.revisionId == id && options.planCutoff ≤ p.computedAt

def keptByOperation (l : Ledger) (id : RevisionId) : Bool :=
  l.operations.any fun o => o.input.revisionId == id && o.unfinished

/-- `prunableRevisions` (`retention.ts:36-82`), as the test of one row. -/
def prunable (l : Ledger) (options : RetentionOptions) (r : Revision) : Bool :=
  r.prunedAt.isNone && (options.keepCount < l.rank r || r.createdAt < options.ageCutoff) &&
    !l.keptByRelease r.id && !l.keptByPlan options r.id && !l.keptByOperation r.id

def tombstone (at_ : Nat) (r : Revision) : Revision :=
  { r with model := "", original := "", index := none, prunedAt := some at_ }

/-- `pruneRevisions` (`retention.ts:94-136`): the content of every prunable revision, and the
artifacts no other row names. -/
def pruneRevisions (l : Ledger) (options : RetentionOptions) (at_ : Nat) : Ledger :=
  if l.revisions.any (l.prunable options) then
    let kept := l.revisions.map fun r => if l.prunable options r then tombstone at_ r else r
    { l with
      revisions := kept
      artifacts := l.artifacts.filter fun digest => kept.any fun r =>
        r.artifactDigest == digest && digest != "" && r.prunedAt.isNone }
  else l

/-- `pruneOldRows` (`telemetry.ts:240-262`): finished jobs and old plans go before the pass over the
revisions. -/
def pruneOldRows (l : Ledger) (options : RetentionOptions) (at_ : Nat) : Ledger :=
  pruneRevisions
    { l with
      jobs := l.jobs.filter fun j =>
        !((j.state == .done || j.state == .failed) && j.updatedAt < options.planCutoff)
      plans := l.plans.filter fun p =>
        !(p.computedAt < options.planCutoff && !l.releases.any fun r => r.planId == some p.id) }
    options at_

end Ledger

end Apim.ControlPlane
