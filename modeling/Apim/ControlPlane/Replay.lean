import Apim.ControlPlane.Moves

/-!
# Every event is a run of moves

`LedgerWork app s e ms` lists the moves an event makes on the ledger, with what the handler has
read. `step_moves` is the refinement: in a sound state an enabled event leaves the ledger its moves
lead to, and leaves a sound state. Invariants of the ledger are proved of moves and carried here to
runs of the control plane.
-/

namespace Apim.ControlPlane
open Overlay Policy Trace Table

/-! ### Sound states -/

structure State.Sound (s : State) : Prop where
  ledger : s.db.ledger.Sound
  stamped : ∀ r ∈ s.db.ledger.releases, r.releasedAt ≤ s.db.clock
  targets : (s.db.estate.targets.map (·.id)).Nodup
  numbered : ∀ t ∈ s.db.estate.targets, t.id < s.db.ledger.next
  placed : ∀ j ∈ s.db.ledger.jobs, ∀ payload, j.work = .reconcile payload →
    ∀ t ∈ s.db.estate.targets, t.id = payload.targetId → payload.environment = some t.environment

/-! ### The moves of a command -/

/-- What `writeRevision` leaves of the ledger, and the revision it answers with. -/
def Ledger.written (l : Ledger) (id : ResourceId) (definition : Definition) (at_ : Nat) :
    Ledger × RevisionId :=
  let latest := latestRevision l id
  match latest.filter fun r => r.versionDigest == definition.versionDigest with
  | some same => (l, same.id)
  | none =>
    ((l.storeArtifact definition.artifactDigest).addRevision
      (definition.row id ((latest.map (·.rev)).getD 0 + 1) at_), l.next)

def Ledger.writeMoves (l : Ledger) (id : ResourceId) (definition : Definition) (at_ : Nat) :
    List Move :=
  let latest := latestRevision l id
  match latest.filter fun r => r.versionDigest == definition.versionDigest with
  | some _ => []
  | none => [.storeArtifact definition.artifactDigest,
      .addRevision (definition.row id ((latest.map (·.rev)).getD 0 + 1) at_ l.next)]

def removalMove (id : ResourceId) (at_ : Nat) (target : Target) : Move :=
  .enqueueJob (.reconcile ⟨target.id, id, none, none, .remove, some target.environment⟩)
    (.remove target.id id at_) at_

def queueMoves (l : Ledger) (row : OperationId → Operation) (at_ : Nat) : List Move :=
  [.addOperation (row l.next), .freeze (row l.next).input.revisionId at_]

theorem writeRevision_ledger (db : Database) (id : ResourceId) (definition : Definition) :
    (writeRevision db id definition).1.ledger = (db.ledger.written id definition db.clock).1 ∧
      (writeRevision db id definition).2 = (db.ledger.written id definition db.clock).2 := by
  cases hsame : (latestRevision db.ledger id).filter fun r =>
      r.versionDigest == definition.versionDigest with
  | some same => simp only [writeRevision, Ledger.written, hsame, and_self]
  | none => simp only [writeRevision, Ledger.written, hsame, touch, and_self]

theorem storeArtifact_next (l : Ledger) (digest : String) :
    (l.storeArtifact digest).next = l.next := by
  unfold Ledger.storeArtifact
  split <;> rfl

theorem moves_write (l : Ledger) (id : ResourceId) (definition : Definition) (at_ : Nat) :
    moves l (l.writeMoves id definition at_) = some (l.written id definition at_).1 := by
  unfold Ledger.writeMoves Ledger.written
  dsimp only
  split
  · rfl
  · simp [moves, exec, Ledger.move, Definition.row, storeArtifact_next, Ledger.addRevision]

theorem moves_queue (l : Ledger) (user : User) (body : PublishInput) (applicationId : String)
    (stage : Stage) (kind : OperationKind) (snapshot : Snapshot) (at_ : Nat) :
    moves l (queueMoves l (body.operation user applicationId stage kind snapshot) at_) =
      some ((l.addOperation (body.operation user applicationId stage kind snapshot)).freeze
        snapshot.revisionId at_) := by
  simp [moves, queueMoves, exec, Ledger.move, PublishInput.operation, Ledger.addOperation]

variable {l : Ledger}

theorem moves_append {l' l'' : Ledger} {ms ms' : List Move} (h : moves l ms = some l')
    (h' : moves l' ms' = some l'') : moves l (ms ++ ms') = some l'' := by
  rw [moves, exec_append]
  rw [moves] at h
  rw [h]
  exact h'

def configureWritten (l : Ledger) (id : ResourceId) (body : PublishInput) (previous : Snapshot)
    (at_ : Nat) : Ledger × RevisionId :=
  match body.source with
  | some definition => l.written id definition at_
  | none => (l, previous.revisionId)

def configureMoves (l : Ledger) (id : ResourceId) (body : PublishInput) (at_ : Nat) : List Move :=
  match body.source with
  | some definition => l.writeMoves id definition at_
  | none => []

theorem configureRevision_ledger (db : Database) (id : ResourceId) (body : PublishInput)
    (previous : Snapshot) :
    (configureRevision db id body previous).1.ledger =
        (configureWritten db.ledger id body previous db.clock).1 ∧
      (configureRevision db id body previous).2 =
        (configureWritten db.ledger id body previous db.clock).2 ∧
      (configureRevision db id body previous).1.clock = db.clock := by
  unfold configureRevision configureWritten
  cases body.source with
  | some definition =>
    obtain ⟨hledger, hid⟩ := writeRevision_ledger db id definition
    refine ⟨hledger, hid, ?_⟩
    rcases writeRevision_cases db id definition with ⟨same, -, -, h⟩ | ⟨rev, h⟩
    · simp only [h]
    · simp only [h, touch]
  | none => exact ⟨rfl, rfl, rfl⟩

theorem moves_configure (l : Ledger) (id : ResourceId) (body : PublishInput) (previous : Snapshot)
    (at_ : Nat) :
    moves l (configureMoves l id body at_) = some (configureWritten l id body previous at_).1 := by
  unfold configureMoves configureWritten
  split
  · exact moves_write l id _ at_
  · rfl

/-! ### The moves of an event -/

inductive LedgerWork (app : App) (s : State) : Event → List Move → Prop where
  | nothing (e : Event) : LedgerWork app s e []
  | publish {index : Nat} {user : User} {body : PublishInput} {environment : Environment}
      {config : Settings} {definition : Definition}
      (hrequest : s.requests[index]? = some (.publish user body environment config))
      (hcommit : ∃ db', publishCommit app s.db user body environment config = .ok db')
      (hsource : body.source = some definition) :
      LedgerWork app s (.resume index)
        (.number (s.db.ledger.next + 1) ::
          ({ s.db.ledger with next := s.db.ledger.next + 1 }.writeMoves s.db.ledger.next definition
              s.db.clock ++
            queueMoves ({ s.db.ledger with next := s.db.ledger.next + 1 }.written
                s.db.ledger.next definition s.db.clock).1
              (body.operation user body.applicationId (s.db.ledger.next, environment) .publish
                (config.snapshot ({ s.db.ledger with next := s.db.ledger.next + 1 }.written
                  s.db.ledger.next definition s.db.clock).2 none none body.requestDigest))
              s.db.clock))
  | configure {index : Nat} {user : User} {body : PublishInput} {read : ConfigureRead}
      {config : Settings}
      (hrequest : s.requests[index]? = some (.configureSettled user body read config))
      (hcommit : ∃ db', configureCommit app s.db user body read config = .ok db') :
      LedgerWork app s (.resume index)
        (configureMoves s.db.ledger read.resource.id body s.db.clock ++
          queueMoves
            (configureWritten s.db.ledger read.resource.id body read.previous s.db.clock).1
            (body.operation user read.resource.applicationId (read.resource.id, read.environment)
              .configure (config.snapshot
                (configureWritten s.db.ledger read.resource.id body read.previous s.db.clock).2
                none none body.requestDigest)) s.db.clock)
  | promote {index : Nat} {user : User} {body : PublishInput} {read : PromoteRead}
      {config : Settings}
      (hrequest : s.requests[index]? = some (.promoteSettled user body read config))
      (hcommit : ∃ db', promoteCommit s.db user body read config = .ok db') :
      LedgerWork app s (.resume index)
        (queueMoves s.db.ledger
          (body.operation user read.resource.applicationId (read.resource.id, read.environment)
            .promote (config.snapshot read.source.revisionId read.sourceOperationId
              (some read.sourceEnvironment) body.requestDigest)) s.db.clock)
  | createRevision (user : User) (id : ResourceId) (definition : Definition) :
      LedgerWork app s (.createRevision user id definition)
        (s.db.ledger.writeMoves id definition s.db.clock)
  | correctRevision (user : User) (id : RevisionId) (readDigest : String)
      (definition : Definition) :
      LedgerWork app s (.correctRevision user id readDigest definition)
        [.storeArtifact definition.artifactDigest, .correct id readDigest definition]
  | createVersion {user : User} {id : ResourceId} {apiVersion : String}
      {copyPolicyFrom : Option Environment} {createRoutes : Bool} {source : Revision}
      (hsource : latestRevision s.db.ledger id = some source) :
      LedgerWork app s (.createVersion user id apiVersion copyPolicyFrom createRoutes)
        [.number (s.db.ledger.next + 1),
          .addRevision (versionRevision source s.db.ledger.next s.db.clock (s.db.ledger.next + 1))]
  | dryRun (user : User) (id : ResourceId) (body : ReleaseRequest) (plan : ReleasePlan) :
      LedgerWork app s (.dryRun user id body) [.addPlan plan s.db.clock]
  | release {user : User} {id : ResourceId} {body : ReleaseRequest} {revision : Revision}
      {planned : List Move} {next : Nat} {target : Target} (planId : PlanId)
      (hrevision : revisionFor s.db id body.rev = .ok revision)
      (hplanned : (planned = [] ∧ next = s.db.ledger.next) ∨
        ∃ plan, planned = [.addPlan plan s.db.clock] ∧ next = s.db.ledger.next + 1)
      (htarget : target ∈ gatewaysIn s.db body.environment) :
      LedgerWork app s (.release user id body)
        (planned ++ [.addRelease
            (pendingRelease user (id, body.environment) revision planId s.db.clock next),
          .freeze revision.id s.db.clock,
          .enqueueJob (.reconcile (applyJob target.id (id, body.environment) next planId))
            (.apply target.id next) s.db.clock])
  | withdraw {user : User} {id : ResourceId} {environment : Environment} {target : Target}
      (htarget : target ∈ gatewaysIn s.db environment) :
      LedgerWork app s (.withdraw user id environment) [removalMove id s.db.clock target]
  | announceDelete (user : User) (id : ResourceId) :
      LedgerWork app s (.announceDelete user id)
        (s.db.estate.targets.map (removalMove id s.db.clock))
  | delete (user : User) (id : ResourceId) :
      LedgerWork app s (.delete user id) [.deleteResource id]
  | applied {id : OperationId} {o : Operation} {revision : Revision} {db' : Database}
      (ho : operationOf s.db.ledger id = some o) (hdue : o.due s.db.clock = true)
      (happlied : applyOperation app s.db o = .ok (some db'))
      (hrevision : revisionOf s.db.ledger o.input.revisionId = some revision) :
      LedgerWork app s (.operation id) [.publish id revision s.db.clock]
  | failed {id : OperationId} {o : Operation} (ho : operationOf s.db.ledger id = some o)
      (hdue : o.due s.db.clock = true) :
      LedgerWork app s (.operation id) [.retry id s.db.clock]
  | complete (environment : Environment) : LedgerWork app s (.complete environment)
      [.complete environment]
  | startJob (id : JobId) (f : Job → Job) : LedgerWork app s (.startJob id) [.updateJobs f]
  | finishJob (id : JobId) (f : Job → Job) : LedgerWork app s (.finishJob id) [.updateJobs f]
  | requeueJobs (f : Job → Job) : LedgerWork app s .requeueJobs [.updateJobs f]
  | enqueuePrune (hour : Nat) : LedgerWork app s (.enqueuePrune hour)
      [.enqueueJob .prune (.prune hour) s.db.clock]
  | administer (estate : Estate) (next : Nat) : LedgerWork app s (.administer estate) [.number next]
  | prune {id : JobId} {leased : Bool} {j : Job} (hj : jobOf s.db.ledger id = some j)
      (hwork : j.work = .prune) :
      LedgerWork app s (.executeJob id leased)
        [.prune (retentionOptions app.config s.db.clock) s.db.clock]
  | removed {id : JobId} {leased : Bool} {j : Job} {payload : ReconcilePayload}
      {environment : Environment} (hj : jobOf s.db.ledger id = some j)
      (hwork : j.work = .reconcile payload) (hintent : payload.intent = .remove)
      (henvironment : jobEnvironment s.db payload = some environment)
      (hrun : reconcile app s.db payload leased =
        .ok (some (removeStage s.db (payload.resourceId, environment)))) :
      LedgerWork app s (.executeJob id leased) [.remove (payload.resourceId, environment)]
  | dismissed {id : JobId} {leased : Bool} {before : List Move} (release : ReleaseId)
      (state : ReleaseState) (hbefore : before = [] ∨ ∃ f, before = [.updateJobs f]) :
      LedgerWork app s (.executeJob id leased) (before ++ [.dismiss release state])
  | converged {id : JobId} {leased : Bool} {j : Job} {payload : ReconcilePayload}
      {environment : Environment} {release : Release} {db' : Database}
      (hj : jobOf s.db.ledger id = some j) (hwork : j.work = .reconcile payload)
      (hintent : payload.intent = .apply)
      (henvironment : jobEnvironment s.db payload = some environment)
      (hrun : reconcile app s.db payload leased = .ok (some db'))
      (hrelease : payload.releaseId.bind (releaseOf s.db.ledger) = some release)
      (hover : overtaken s.db.ledger (payload.resourceId, environment) release.id = false) :
      LedgerWork app s (.executeJob id leased)
        [.converge (payload.resourceId, environment) release.id]
  | threw {id : JobId} {leased : Bool} (f : Job → Job) :
      LedgerWork app s (.executeJob id leased) [.updateJobs f]

/-! ### Statements replayed -/

theorem updateJob_eq (l : Ledger) (id : JobId) {f : Job → Job}
    (hf : ∀ j, (f j).id = j.id ∧ (f j).work = j.work ∧ (f j).key = j.key) :
    moves l [.updateJobs fun j => if j.id = id then f j else j] = some (l.updateJob id f) := by
  have hall : (l.jobs.all fun j =>
      decide ((if j.id = id then f j else j).id = j.id ∧
        (if j.id = id then f j else j).work = j.work ∧
        (if j.id = id then f j else j).key = j.key)) = true := by
    refine List.all_eq_true.mpr fun j _ => decide_eq_true ?_
    split
    · exact hf j
    · exact ⟨rfl, rfl, rfl⟩
  simp only [moves, exec, Ledger.move, hall, if_true, Option.bind_some, Ledger.updateJob]

theorem requeueStale_eq (l : Ledger) (now : Nat) :
    ∃ f, moves l [.updateJobs f] = some (l.requeueStale now) := by
  refine ⟨fun j =>
    if j.state = .running ∧ j.updatedAt + 60000 < now then { j with state := .queued } else j, ?_⟩
  have hall : (l.jobs.all fun j =>
      decide ((if j.state = .running ∧ j.updatedAt + 60000 < now then
          { j with state := .queued } else j).id = j.id ∧
        (if j.state = .running ∧ j.updatedAt + 60000 < now then
          { j with state := .queued } else j).work = j.work ∧
        (if j.state = .running ∧ j.updatedAt + 60000 < now then
          { j with state := .queued } else j).key = j.key)) = true := by
    refine List.all_eq_true.mpr fun j _ => decide_eq_true ?_
    split <;> exact ⟨rfl, rfl, rfl⟩
  simp only [moves, exec, Ledger.move, hall, if_true, Option.bind_some, Ledger.requeueStale]

theorem enqueueJob_next (l : Ledger) (work : JobWork) (key : JobKey) (at_ : Nat) :
    l.next ≤ (l.enqueueJob work key at_).next := by
  unfold Ledger.enqueueJob
  split
  · exact le_rfl
  · exact Nat.le_succ _

theorem moves_removals (id : ResourceId) (at_ : Nat) (targets : List Target) (l : Ledger)
    (htargets : ∀ t ∈ targets, t.id < l.next) :
    moves l (targets.map (removalMove id at_)) =
      some (targets.foldl (enqueueRemoval id at_) l) := by
  induction targets generalizing l with
  | nil => rfl
  | cons t targets ih =>
    have ht := htargets t List.mem_cons_self
    have hmove : l.move (removalMove id at_ t) = some (enqueueRemoval id at_ l t) := by
      simp [removalMove, Ledger.move, JobWork.named, ht, enqueueRemoval]
    have hnext : l.next ≤ (enqueueRemoval id at_ l t).next := enqueueJob_next l _ _ at_
    have hrest : ∀ t' ∈ targets, t'.id < (enqueueRemoval id at_ l t).next := by
      intro t' ht'
      exact Nat.lt_of_lt_of_le (htargets t' (List.mem_cons_of_mem _ ht')) hnext
    rw [List.map_cons, moves, exec_cons, hmove, Option.bind_some]
    exact ih _ hrest

theorem Operation.waits_of_due {o : Operation} {now : Nat} (h : o.due now = true) :
    o.waits = true := by
  simp only [Operation.due, Bool.and_eq_true] at h
  exact h.1

variable {environment : Environment}

theorem mem_gatewaysIn {db : Database} {t : Target} :
    t ∈ gatewaysIn db environment ↔ t ∈ db.estate.targets ∧ t.environment = environment := by
  rw [gatewaysIn, List.mem_insertionSort, List.mem_filter, beq_iff_eq]

theorem numbered_le (estate : Estate) (next : Nat) :
    next ≤ estate.numbered next ∧ ∀ t ∈ estate.targets, t.id < estate.numbered next := by
  have hfold : ∀ (targets : List Target) (n : Nat),
      n ≤ targets.foldl (fun n t => max n (t.id + 1)) n ∧
        ∀ t ∈ targets, t.id < targets.foldl (fun n t => max n (t.id + 1)) n := by
    intro targets
    induction targets with
    | nil => exact fun n => ⟨le_rfl, fun t ht => absurd ht List.not_mem_nil⟩
    | cons first targets ih =>
      intro n
      obtain ⟨hle, hall⟩ := ih (max n (first.id + 1))
      have hfirst : first.id < max n (first.id + 1) :=
        Nat.lt_of_lt_of_le (Nat.lt_succ_self _) (Nat.le_max_right _ _)
      simp only [List.foldl_cons, List.mem_cons, forall_eq_or_imp]
      exact ⟨(Nat.le_max_left _ _).trans hle, Nat.lt_of_lt_of_le hfirst hle, hall⟩
  exact hfold estate.targets next

variable {s : State} {user : User} {id : ResourceId}

theorem moves_release {revision : Revision} {planId : PlanId} {target : Target} (hs : s.Sound)
    (hreleases : l.releases = s.db.ledger.releases) (hnext : s.db.ledger.next ≤ l.next)
    (htarget : target.id < s.db.ledger.next) :
    moves l [.addRelease (pendingRelease user (id, environment) revision planId s.db.clock l.next),
        .freeze revision.id s.db.clock,
        .enqueueJob (.reconcile (applyJob target.id (id, environment) l.next planId))
          (.apply target.id l.next) s.db.clock] =
      some (((l.addRelease (pendingRelease user (id, environment) revision planId
          s.db.clock)).freeze revision.id s.db.clock).enqueueJob
        (.reconcile (applyJob target.id (id, environment) l.next planId))
        (.apply target.id l.next) s.db.clock) := by
  have hadd : l.move (.addRelease (pendingRelease user (id, environment) revision planId
      s.db.clock l.next)) =
        some (l.addRelease (pendingRelease user (id, environment) revision planId
          s.db.clock)) := by
    have hat : (l.releases.all fun r => decide (r.releasedAt ≤ s.db.clock)) = true := by
      rw [hreleases]
      exact List.all_eq_true.mpr fun r hr => decide_eq_true (hs.stamped r hr)
    exact if_pos ⟨rfl, rfl, hat⟩
  have hnamed : (JobWork.reconcile (applyJob target.id (id, environment) l.next planId)).named
      ((l.addRelease (pendingRelease user (id, environment) revision planId
        s.db.clock)).freeze revision.id s.db.clock) = true := by
    have hbelow : l.next < l.next + 1 := Nat.lt_succ_self _
    rw [JobWork.named_reconcile_iff]
    refine ⟨rfl, Nat.lt_trans (Nat.lt_of_lt_of_le htarget hnext) hbelow, fun rid hrid => ?_⟩
    obtain rfl := Option.some.inj hrid
    refine ⟨hbelow, fun r hr heq => ?_⟩
    rcases List.mem_append.mp hr with hold | hnew
    · rw [hreleases] at hold
      have hlt := hs.ledger.releases.below r.id (List.mem_map_of_mem hold)
      exact absurd heq (Nat.ne_of_lt (Nat.lt_of_lt_of_le hlt hnext))
    · rw [List.mem_singleton.mp hnew]
      exact ⟨rfl, rfl⟩
  rw [moves, exec_cons, hadd]
  simp only [Option.bind_some, exec_cons, exec_nil, Ledger.move, hnamed, if_true]

variable {app : App}

theorem release_moves {db' : Database} {body : ReleaseRequest} (hs : s.Sound)
    (h : requestRelease app s.db user id body = .ok db') :
    ∃ ms, LedgerWork app s (.release user id body) ms ∧
      moves s.db.ledger ms = some db'.ledger := by
  obtain ⟨revision, target, htarget, confirmed, plan, hrevision, hconfirmed, rfl⟩ :=
    requestRelease_ok h
  have hnumber := hs.numbered target (mem_gatewaysIn.mp htarget).1
  rcases confirmPlan_ok hconfirmed with hledger | hledger
  · refine ⟨_, .release confirmed.2 hrevision (.inl ⟨rfl, rfl⟩) htarget, ?_⟩
    rw [hledger]
    exact moves_release hs rfl le_rfl hnumber
  · refine ⟨_, .release confirmed.2 hrevision (.inr ⟨plan, rfl, rfl⟩) htarget, ?_⟩
    rw [hledger]
    exact moves_append rfl (moves_release hs rfl (Nat.le_succ _) hnumber)

theorem operation_moves {id : OperationId} {o : Operation} (hs : s.Sound)
    (ho : operationOf s.db.ledger id = some o) (hdue : o.due s.db.clock = true) :
    ∃ ms, LedgerWork app s (.operation id) ms ∧
      moves s.db.ledger ms = some (runOperation app s.db o).ledger := by
  obtain ⟨-, rfl⟩ := (operationOf_eq_some hs.ledger).mp ho
  have hwaits := Operation.waits_of_due hdue
  cases hrun : applyOperation app s.db o with
  | error failure =>
    refine ⟨_, .failed ho hdue, ?_⟩
    simp only [moves, exec, Ledger.move, ho, Option.any_some, hwaits, if_true, Option.bind_some,
      runOperation, hrun]
  | ok result =>
    cases result with
    | none =>
      refine ⟨_, .nothing _, ?_⟩
      simp only [moves, exec, runOperation, hrun]
    | some db' =>
      obtain ⟨revision, route, -, -, hrevision, -, -, -, hdb⟩ := applyOperation_ok hrun
      refine ⟨_, .applied ho hdue hrun hrevision, ?_⟩
      have hat : (s.db.ledger.releases.all fun r => decide (r.releasedAt ≤ s.db.clock)) = true :=
        List.all_eq_true.mpr fun r hr => decide_eq_true (hs.stamped r hr)
      have hmove : s.db.ledger.move (.publish o.id revision s.db.clock) =
          some ((s.db.ledger.publish o revision s.db.clock).updateOperation o.id
            (·.applied s.db.ledger.next)) := by
        simp only [Ledger.move, ho]
        exact if_pos ⟨hwaits, hrevision, hat⟩
      rw [moves, exec_cons, hmove]
      simp only [Option.bind_some, exec_nil, runOperation, hrun, hdb]

theorem stage_of_job {j : Job} {payload : ReconcilePayload} {release : Release} (hs : s.Sound)
    (hj : j ∈ s.db.ledger.jobs) (hwork : j.work = .reconcile payload)
    (henvironment : jobEnvironment s.db payload = some environment)
    (hrelease : payload.releaseId.bind (releaseOf s.db.ledger) = some release) :
    release.resourceId = payload.resourceId ∧ release.environment = environment := by
  have hnamed := hs.ledger.named j hj
  rw [hwork, JobWork.named_reconcile_iff] at hnamed
  obtain ⟨hsome, -, hstage⟩ := hnamed
  obtain ⟨rid, hrid, hfound⟩ := Option.bind_eq_some_iff.mp hrelease
  obtain ⟨hmem, hid⟩ := (releaseOf_eq_some hs.ledger).mp hfound
  obtain ⟨hresource, hcarried⟩ := (hstage rid hrid).2 release hmem hid
  refine ⟨hresource, ?_⟩
  unfold jobEnvironment at henvironment
  dsimp only at henvironment
  cases hhandle : s.db.estate.targets.find? fun t => t.id == payload.targetId with
  | none =>
    simp only [hhandle, Option.map_none, Option.none_or, hcarried, Option.some_or,
      Option.some.injEq] at henvironment
    exact henvironment
  | some t =>
    have ht : t.id = payload.targetId := by simpa using List.find?_some hhandle
    have hplaced := hs.placed j hj payload hwork t (List.mem_of_find?_eq_some hhandle) ht
    simp only [hhandle, Option.map_some, Option.some_or, Option.some.injEq] at henvironment
    rw [hcarried] at hplaced
    exact (Option.some.inj hplaced).trans henvironment

theorem executeJob_moves {id : JobId} {j : Job} {leased : Bool} (hs : s.Sound)
    (hj : jobOf s.db.ledger id = some j) :
    ∃ ms, LedgerWork app s (.executeJob id leased) ms ∧
      moves s.db.ledger ms = some (executeJob app s.db j leased).1.ledger := by
  obtain ⟨hmem, rfl⟩ := (jobOf_eq_some hs.ledger).mp hj
  cases hwork : j.work with
  | prune =>
    refine ⟨_, .prune hj hwork, ?_⟩
    simp only [moves, exec, Ledger.move, Option.bind_some, executeJob_prune hwork]
  | reconcile payload =>
    rcases executeJob_reconcile app s.db leased hwork with
      ⟨hrun, hdone⟩ | ⟨after, hrun, hdone⟩ | ⟨failure, hrun, hdone⟩
    · refine ⟨_, .nothing _, ?_⟩
      rw [hdone]
      rfl
    · rw [hdone]
      obtain ⟨environment, henvironment, hkind⟩ := reconcile_ok hrun
      rcases hkind with ⟨hintent, rfl⟩ | ⟨hintent, happly⟩
      · exact ⟨_, .removed hj hwork hintent henvironment hrun, rfl⟩
      · obtain ⟨release, hrelease, hpending, hcase⟩ := applyRelease_ok happly
        obtain ⟨hresource, hstage⟩ := stage_of_job hs hmem hwork henvironment hrelease
        obtain ⟨rid, -, hfound⟩ := Option.bind_eq_some_iff.mp hrelease
        obtain ⟨hin, -⟩ := (releaseOf_eq_some hs.ledger).mp hfound
        have hof : releaseOf s.db.ledger release.id = some release :=
          (releaseOf_eq_some hs.ledger).mpr ⟨hin, rfl⟩
        rcases hcase with ⟨hover, rfl⟩ | ⟨hover, live, route, -, -, -, rfl⟩
        · refine ⟨_, .dismissed release.id .stale (.inl rfl), ?_⟩
          simp [moves, exec, Ledger.move, hof, hpending]
        · refine ⟨_, .converged hj hwork hintent henvironment hrun hrelease hover, ?_⟩
          have hguard : s.db.ledger.convergeable (payload.resourceId, environment) release.id =
              true := by
            simp [Ledger.convergeable, hof, hpending, hresource, hstage, hover]
          simp only [moves, exec, Ledger.move, hguard, if_true, Option.bind_some]
    · rw [hdone]
      have hthrew := updateJob_eq s.db.ledger j.id
        (f := (·.threw failure.final s.db.clock)) fun _ => ⟨rfl, rfl, rfl⟩
      cases hfinal : failure.final with
      | false =>
        rw [hfinal] at hthrew
        exact ⟨_, .threw _, hthrew⟩
      | true =>
        rw [hfinal] at hthrew
        simp only [if_true]
        unfold failPending
        split
        next release hrelease =>
          split
          next hpending =>
            refine ⟨_, .dismissed release.id .failed (.inr ⟨_, rfl⟩), moves_append hthrew ?_⟩
            obtain ⟨rid, -, hfound⟩ := Option.bind_eq_some_iff.mp hrelease
            have hid : release.id = rid := by simpa using List.find?_some hfound
            have hof : releaseOf (s.db.ledger.updateJob j.id (·.threw true s.db.clock))
                release.id = some release := by
              rw [hid]
              exact hfound
            simp [moves, exec, Ledger.move, hof, hpending]
          next => exact ⟨_, .threw _, hthrew⟩
        next => exact ⟨_, .threw _, hthrew⟩

variable {body : PublishInput}

theorem queue_moves {db db' : Database} {applicationId : String} {stage : Stage}
    {kind : OperationKind} {snapshot : Snapshot}
    (h : queue db user body applicationId stage kind snapshot = .ok db') :
    moves db.ledger
        (queueMoves db.ledger (body.operation user applicationId stage kind snapshot) db.clock) =
      some db'.ledger := by
  obtain ⟨-, rfl⟩ := queue_ok h
  exact moves_queue db.ledger user body applicationId stage kind snapshot db.clock

theorem commit_moves {index : Nat} {request : Request} {db' : Database}
    (hrequest : s.requests[index]? = some request)
    (h : resumeRequest app s.db request = .ok (.inr db')) :
    ∃ ms, LedgerWork app s (.resume index) ms ∧ moves s.db.ledger ms = some db'.ledger := by
  rcases resumeRequest_committed h with ⟨user, body, environment, config, rfl, hcommit⟩ |
    ⟨user, body, read, config, rfl, hcommit⟩ | ⟨user, body, read, config, rfl, hcommit⟩
  · obtain ⟨definition, taxonomy, hsource, -, hqueue⟩ := publishCommit_ok hcommit
    refine ⟨_, .publish hrequest ⟨_, hcommit⟩ hsource, ?_⟩
    have hqueued := queue_moves hqueue
    obtain ⟨hledger, hid⟩ := writeRevision_ledger { s.db with
      resources := s.db.resources ++ [body.resourceRow taxonomy s.db.clock s.db.ledger.next]
      ledger := { s.db.ledger with next := s.db.ledger.next + 1 } } s.db.ledger.next definition
    have hclock : (writeRevision { s.db with
        resources := s.db.resources ++ [body.resourceRow taxonomy s.db.clock s.db.ledger.next]
        ledger := { s.db.ledger with next := s.db.ledger.next + 1 } } s.db.ledger.next
          definition).1.clock = s.db.clock := by
      rcases writeRevision_cases { s.db with
        resources := s.db.resources ++ [body.resourceRow taxonomy s.db.clock s.db.ledger.next]
        ledger := { s.db.ledger with next := s.db.ledger.next + 1 } } s.db.ledger.next definition
        with ⟨same, -, -, hw⟩ | ⟨rev, hw⟩
      · rw [hw]
      · rw [hw]
        rfl
    rw [hledger, hid, hclock] at hqueued
    have hnumber : s.db.ledger.move (.number (s.db.ledger.next + 1)) =
        some { s.db.ledger with next := s.db.ledger.next + 1 } := if_pos (Nat.le_succ _)
    rw [moves, exec_cons, hnumber, Option.bind_some]
    exact moves_append (moves_write _ _ definition _) hqueued
  · obtain ⟨taxonomy, -, -, hqueue⟩ := configureCommit_ok hcommit
    refine ⟨_, .configure hrequest ⟨_, hcommit⟩, ?_⟩
    have hqueued := queue_moves hqueue
    obtain ⟨hledger, hid, hclock⟩ :=
      configureRevision_ledger s.db read.resource.id body read.previous
    dsimp only [reclassify] at hqueued
    rw [hledger, hid, hclock] at hqueued
    exact moves_append (moves_configure _ _ body read.previous _) hqueued
  · obtain ⟨-, hqueue⟩ := promoteCommit_ok hcommit
    exact ⟨_, .promote hrequest ⟨_, hcommit⟩, queue_moves hqueue⟩

theorem step_moves {s' : State} {e : Event} (hs : s.Sound) (h : step app s e = some s') :
    ∃ ms, LedgerWork app s e ms ∧ moves s.db.ledger ms = some s'.db.ledger := by
  cases e with
  | publish | configure | promote =>
    obtain ⟨request, -, rfl⟩ := State.waiting_eq_some h
    exact ⟨_, .nothing _, rfl⟩
  | resume index =>
    obtain ⟨request, hrequest, ⟨next, -, rfl⟩ | ⟨db, hdb, rfl⟩⟩ := step_resume h
    · exact ⟨_, .nothing _, rfl⟩
    · exact commit_moves hrequest hdb
  | putUnit user id environment unit value =>
    obtain ⟨db, hdb, rfl⟩ := State.write_eq_some h
    obtain ⟨-, rfl⟩ := putUnit_ok hdb
    exact ⟨_, .nothing _, rfl⟩
  | deleteUnit user id environment unit =>
    obtain ⟨db, hdb, rfl⟩ := State.write_eq_some h
    obtain ⟨-, rfl⟩ := deleteUnit_ok hdb
    exact ⟨_, .nothing _, rfl⟩
  | copyFrom user id source environment units =>
    obtain ⟨db, hdb, rfl⟩ := State.write_eq_some h
    obtain ⟨-, -, rfl⟩ := copyFrom_ok hdb
    exact ⟨_, .nothing _, rfl⟩
  | putGlobalUnit user environment unit value =>
    obtain ⟨db, hdb, rfl⟩ := State.write_eq_some h
    obtain ⟨-, -, -, rfl⟩ := putGlobalUnit_ok hdb
    exact ⟨_, .nothing _, rfl⟩
  | deleteGlobalUnit user environment unit =>
    obtain ⟨db, hdb, rfl⟩ := State.write_eq_some h
    obtain ⟨-, -, rfl⟩ := deleteGlobalUnit_ok hdb
    exact ⟨_, .nothing _, rfl⟩
  | copyGlobals user source environment =>
    obtain ⟨db, hdb, rfl⟩ := State.write_eq_some h
    obtain ⟨-, -, rfl⟩ := copyGlobals_ok hdb
    exact ⟨_, .nothing _, rfl⟩
  | putRoute user id environment host basePath =>
    obtain ⟨db, hdb, rfl⟩ := State.write_eq_some h
    obtain ⟨address, resource, -, rfl⟩ := putRoute_ok hdb
    exact ⟨_, .nothing _, rfl⟩
  | putBinding user id environment backend =>
    obtain ⟨db, hdb, rfl⟩ := State.write_eq_some h
    obtain ⟨resource, rfl⟩ := putBinding_ok hdb
    exact ⟨_, .nothing _, rfl⟩
  | createRevision user id definition =>
    obtain ⟨db, hdb, rfl⟩ := State.write_eq_some h
    obtain ⟨written, hwritten, rfl⟩ := map_eq_ok hdb
    obtain ⟨-, rfl⟩ := createRevision_ok hwritten
    refine ⟨_, .createRevision user id definition, ?_⟩
    rw [(writeRevision_ledger s.db id definition).1]
    exact moves_write _ _ definition _
  | correctRevision user id readDigest definition =>
    obtain ⟨db, hdb, rfl⟩ := State.write_eq_some h
    obtain ⟨resource, rfl⟩ := correctRevision_ok hdb
    refine ⟨_, .correctRevision user id readDigest definition, ?_⟩
    have hstored : definition.artifactDigest = "" ∨ definition.artifactDigest ∈
        (s.db.ledger.storeArtifact definition.artifactDigest).artifacts := by
      unfold Ledger.storeArtifact
      split
      next hthere => exact hthere
      next => exact .inr (List.mem_append_right _ List.mem_cons_self)
    have hcorrect : (s.db.ledger.storeArtifact definition.artifactDigest).move
        (.correct id readDigest definition) =
          some ((s.db.ledger.storeArtifact definition.artifactDigest).correct id readDigest
            definition) := if_pos hstored
    exact congrArg (Option.bind · some) hcorrect
  | createVersion user id apiVersion copyPolicyFrom createRoutes =>
    obtain ⟨db, hdb, rfl⟩ := State.write_eq_some h
    obtain ⟨resource, source, -, hsource, hledger, -, -⟩ := createVersion_ok hdb
    refine ⟨_, .createVersion hsource, ?_⟩
    simp [moves, exec, Ledger.move, hledger, versionRevision, Ledger.addRevision]
  | dryRun user id body =>
    obtain ⟨db, hdb, rfl⟩ := State.write_eq_some h
    obtain ⟨plan, rfl⟩ := dryRunRelease_ok hdb
    exact ⟨_, .dryRun user id body plan, rfl⟩
  | release user id body =>
    obtain ⟨db, hdb, rfl⟩ := State.write_eq_some h
    exact release_moves hs hdb
  | withdraw user id environment =>
    obtain ⟨db, hdb, rfl⟩ := State.write_eq_some h
    obtain ⟨target, htarget, rfl⟩ := withdraw_ok hdb
    have hnumber := hs.numbered target (mem_gatewaysIn.mp htarget).1
    refine ⟨_, .withdraw htarget, ?_⟩
    exact moves_removals id s.db.clock [target] s.db.ledger (by simpa using hnumber)
  | announceDelete user id =>
    obtain ⟨db, hdb, rfl⟩ := State.write_eq_some h
    obtain rfl := announceDelete_ok hdb
    exact ⟨_, .announceDelete user id, moves_removals id s.db.clock _ s.db.ledger hs.numbered⟩
  | delete user id =>
    obtain ⟨db, hdb, rfl⟩ := State.write_eq_some h
    obtain rfl := deleteApi_ok hdb
    exact ⟨_, .delete user id, rfl⟩
  | operation id =>
    obtain ⟨o, ho, hdue, rfl⟩ := step_operation h
    exact operation_moves hs ho hdue
  | complete environment =>
    obtain rfl := Option.some.inj h
    dsimp only [completeEnvironment]
    split
    · exact ⟨_, .complete environment, rfl⟩
    · exact ⟨_, .nothing _, rfl⟩
  | startJob id =>
    obtain ⟨j, -, -, rfl⟩ := step_startJob h
    exact ⟨_, .startJob id _, updateJob_eq s.db.ledger id fun _ => ⟨rfl, rfl, rfl⟩⟩
  | executeJob id leased =>
    obtain ⟨j, hj, -, rfl⟩ := step_executeJob h
    exact executeJob_moves hs hj
  | finishJob id =>
    obtain ⟨-, rfl⟩ := step_finishJob h
    exact ⟨_, .finishJob id _, updateJob_eq s.db.ledger id fun _ => ⟨rfl, rfl, rfl⟩⟩
  | requeueJobs =>
    obtain rfl := Option.some.inj h
    obtain ⟨f, hf⟩ := requeueStale_eq s.db.ledger s.db.clock
    exact ⟨_, .requeueJobs f, hf⟩
  | crash =>
    obtain rfl := Option.some.inj h
    exact ⟨_, .nothing _, rfl⟩
  | enqueuePrune hour =>
    obtain rfl := Option.some.inj h
    exact ⟨_, .enqueuePrune hour, rfl⟩
  | administer estate =>
    obtain ⟨-, rfl⟩ := step_administer h
    have hnumber : s.db.ledger.move (.number (estate.numbered s.db.ledger.next)) =
        some { s.db.ledger with next := estate.numbered s.db.ledger.next } :=
      if_pos (numbered_le estate s.db.ledger.next).1
    refine ⟨_, .administer estate (estate.numbered s.db.ledger.next), ?_⟩
    rw [moves, exec_cons, hnumber]
    rfl
  | wait milliseconds =>
    obtain rfl := Option.some.inj h
    exact ⟨_, .nothing _, rfl⟩

/-! ### Sound states stay sound -/

theorem queue_frame {db db' : Database} {applicationId : String} {stage : Stage}
    {kind : OperationKind} {snapshot : Snapshot}
    (h : queue db user body applicationId stage kind snapshot = .ok db') :
    db'.clock = db.clock ∧ db'.estate = db.estate := by
  obtain ⟨-, rfl⟩ := queue_ok h
  exact ⟨rfl, rfl⟩

theorem writeRevision_frame (db : Database) (id : ResourceId) (definition : Definition) :
    (writeRevision db id definition).1.clock = db.clock ∧
      (writeRevision db id definition).1.estate = db.estate := by
  rcases writeRevision_cases db id definition with ⟨same, -, -, h⟩ | ⟨rev, h⟩
  · rw [h]
    exact ⟨rfl, rfl⟩
  · rw [h]
    exact ⟨rfl, rfl⟩

theorem configureRevision_frame (db : Database) (id : ResourceId) (body : PublishInput)
    (previous : Snapshot) :
    (configureRevision db id body previous).1.clock = db.clock ∧
      (configureRevision db id body previous).1.estate = db.estate := by
  unfold configureRevision
  cases body.source with
  | some definition => exact writeRevision_frame db id definition
  | none => exact ⟨rfl, rfl⟩

theorem runOperation_frame (app : App) (db : Database) (o : Operation) :
    (runOperation app db o).clock = db.clock ∧ (runOperation app db o).estate = db.estate := by
  cases hrun : applyOperation app db o with
  | error failure => simp only [runOperation, hrun, and_self]
  | ok result =>
    cases result with
    | none => simp only [runOperation, hrun, and_self]
    | some db' =>
      obtain ⟨revision, route, -, -, -, -, -, -, hdb⟩ := applyOperation_ok hrun
      simp only [runOperation, hrun, hdb, and_self]

theorem executeJob_frame (app : App) (db : Database) (j : Job) (leased : Bool) :
    (executeJob app db j leased).1.clock = db.clock ∧
      (executeJob app db j leased).1.estate = db.estate := by
  cases hwork : j.work with
  | prune => simp only [executeJob_prune hwork, and_self]
  | reconcile payload =>
    rcases executeJob_reconcile app db leased hwork with
      ⟨hrun, hdone⟩ | ⟨after, hrun, hdone⟩ | ⟨failure, hrun, hdone⟩
    · rw [hdone]
      exact ⟨rfl, rfl⟩
    · rw [hdone]
      obtain ⟨environment, -, ⟨-, rfl⟩ | ⟨-, happly⟩⟩ := reconcile_ok hrun
      · exact ⟨rfl, rfl⟩
      · obtain ⟨release, -, -, ⟨-, rfl⟩ | ⟨-, live, route, -, -, -, rfl⟩⟩ := applyRelease_ok happly
        · exact ⟨rfl, rfl⟩
        · exact ⟨rfl, rfl⟩
    · rw [hdone]
      exact ⟨rfl, rfl⟩

theorem step_frame {s' : State} {e : Event} (h : step app s e = some s') :
    s.db.clock ≤ s'.db.clock ∧
      ((∀ estate, e ≠ .administer estate) →
        s'.db.estate.targets = s.db.estate.targets) := by
  cases e with
  | publish | configure | promote =>
    obtain ⟨request, -, rfl⟩ := State.waiting_eq_some h
    exact ⟨le_rfl, fun _ => rfl⟩
  | resume index =>
    obtain ⟨request, hrequest, ⟨next, -, rfl⟩ | ⟨db, hdb, rfl⟩⟩ := step_resume h
    · exact ⟨le_rfl, fun _ => rfl⟩
    · have hframe : db.clock = s.db.clock ∧ db.estate = s.db.estate := by
        rcases resumeRequest_committed hdb with ⟨user, body, environment, config, -, hcommit⟩ |
          ⟨user, body, read, config, -, hcommit⟩ | ⟨user, body, read, config, -, hcommit⟩
        · obtain ⟨definition, taxonomy, -, -, hqueue⟩ := publishCommit_ok hcommit
          obtain ⟨hclock, hestate⟩ := queue_frame hqueue
          exact ⟨hclock.trans (writeRevision_frame _ _ _).1,
            hestate.trans (writeRevision_frame _ _ _).2⟩
        · obtain ⟨taxonomy, -, -, hqueue⟩ := configureCommit_ok hcommit
          obtain ⟨hclock, hestate⟩ := queue_frame hqueue
          exact ⟨hclock.trans (configureRevision_frame _ _ _ _).1,
            hestate.trans (configureRevision_frame _ _ _ _).2⟩
        · obtain ⟨-, hqueue⟩ := promoteCommit_ok hcommit
          exact queue_frame hqueue
      exact ⟨hframe.1.ge, fun _ => by rw [hframe.2]⟩
  | putUnit user id environment unit value =>
    obtain ⟨db, hdb, rfl⟩ := State.write_eq_some h
    obtain ⟨-, rfl⟩ := putUnit_ok hdb
    exact ⟨le_rfl, fun _ => rfl⟩
  | deleteUnit user id environment unit =>
    obtain ⟨db, hdb, rfl⟩ := State.write_eq_some h
    obtain ⟨-, rfl⟩ := deleteUnit_ok hdb
    exact ⟨le_rfl, fun _ => rfl⟩
  | copyFrom user id source environment units =>
    obtain ⟨db, hdb, rfl⟩ := State.write_eq_some h
    obtain ⟨-, -, rfl⟩ := copyFrom_ok hdb
    exact ⟨le_rfl, fun _ => rfl⟩
  | putGlobalUnit user environment unit value =>
    obtain ⟨db, hdb, rfl⟩ := State.write_eq_some h
    obtain ⟨-, -, -, rfl⟩ := putGlobalUnit_ok hdb
    exact ⟨le_rfl, fun _ => rfl⟩
  | deleteGlobalUnit user environment unit =>
    obtain ⟨db, hdb, rfl⟩ := State.write_eq_some h
    obtain ⟨-, -, rfl⟩ := deleteGlobalUnit_ok hdb
    exact ⟨le_rfl, fun _ => rfl⟩
  | copyGlobals user source environment =>
    obtain ⟨db, hdb, rfl⟩ := State.write_eq_some h
    obtain ⟨-, -, rfl⟩ := copyGlobals_ok hdb
    exact ⟨le_rfl, fun _ => rfl⟩
  | putRoute user id environment host basePath =>
    obtain ⟨db, hdb, rfl⟩ := State.write_eq_some h
    obtain ⟨address, resource, -, rfl⟩ := putRoute_ok hdb
    exact ⟨le_rfl, fun _ => rfl⟩
  | putBinding user id environment backend =>
    obtain ⟨db, hdb, rfl⟩ := State.write_eq_some h
    obtain ⟨resource, rfl⟩ := putBinding_ok hdb
    exact ⟨le_rfl, fun _ => rfl⟩
  | createRevision user id definition =>
    obtain ⟨db, hdb, rfl⟩ := State.write_eq_some h
    obtain ⟨written, hwritten, rfl⟩ := map_eq_ok hdb
    obtain ⟨-, rfl⟩ := createRevision_ok hwritten
    obtain ⟨hclock, hestate⟩ := writeRevision_frame s.db id definition
    exact ⟨hclock.ge, fun _ => by rw [hestate]⟩
  | correctRevision user id readDigest definition =>
    obtain ⟨db, hdb, rfl⟩ := State.write_eq_some h
    obtain ⟨resource, rfl⟩ := correctRevision_ok hdb
    exact ⟨le_rfl, fun _ => rfl⟩
  | createVersion user id apiVersion copyPolicyFrom createRoutes =>
    obtain ⟨db, hdb, rfl⟩ := State.write_eq_some h
    obtain ⟨resource, source, -, -, -, -, hclock, hestate⟩ := createVersion_ok hdb
    exact ⟨hclock.ge, fun _ => by rw [hestate]⟩
  | dryRun user id body =>
    obtain ⟨db, hdb, rfl⟩ := State.write_eq_some h
    obtain ⟨plan, rfl⟩ := dryRunRelease_ok hdb
    exact ⟨le_rfl, fun _ => rfl⟩
  | release user id body =>
    obtain ⟨db, hdb, rfl⟩ := State.write_eq_some h
    obtain ⟨revision, target, -, confirmed, plan, -, -, rfl⟩ := requestRelease_ok hdb
    exact ⟨le_rfl, fun _ => rfl⟩
  | withdraw user id environment =>
    obtain ⟨db, hdb, rfl⟩ := State.write_eq_some h
    obtain ⟨target, -, rfl⟩ := withdraw_ok hdb
    exact ⟨le_rfl, fun _ => rfl⟩
  | announceDelete user id =>
    obtain ⟨db, hdb, rfl⟩ := State.write_eq_some h
    obtain rfl := announceDelete_ok hdb
    exact ⟨le_rfl, fun _ => rfl⟩
  | delete user id =>
    obtain ⟨db, hdb, rfl⟩ := State.write_eq_some h
    obtain rfl := deleteApi_ok hdb
    exact ⟨le_rfl, fun _ => rfl⟩
  | operation id =>
    obtain ⟨o, -, -, rfl⟩ := step_operation h
    obtain ⟨hclock, hestate⟩ := runOperation_frame app s.db o
    exact ⟨hclock.ge, fun _ => by rw [hestate]⟩
  | complete environment =>
    obtain rfl := Option.some.inj h
    dsimp only [completeEnvironment]
    split <;> exact ⟨le_rfl, fun _ => rfl⟩
  | startJob id =>
    obtain ⟨j, -, -, rfl⟩ := step_startJob h
    exact ⟨le_rfl, fun _ => rfl⟩
  | executeJob id leased =>
    obtain ⟨j, -, -, rfl⟩ := step_executeJob h
    obtain ⟨hclock, hestate⟩ := executeJob_frame app s.db j leased
    exact ⟨hclock.ge, fun _ => by rw [hestate]⟩
  | finishJob id =>
    obtain ⟨-, rfl⟩ := step_finishJob h
    exact ⟨le_rfl, fun _ => rfl⟩
  | requeueJobs | crash | enqueuePrune =>
    obtain rfl := Option.some.inj h
    exact ⟨le_rfl, fun _ => rfl⟩
  | administer estate =>
    obtain ⟨-, rfl⟩ := step_administer h
    exact ⟨le_rfl, fun hne => absurd rfl (hne estate)⟩
  | wait milliseconds =>
    obtain rfl := Option.some.inj h
    exact ⟨Nat.le_add_right _ _, fun _ => rfl⟩

def Move.Quiet (m : Move) : Prop :=
  m.stamp = none ∧ ∀ work key at_, m ≠ .enqueueJob work key at_

theorem writeMoves_quiet {definition : Definition} {at_ : Nat} {m : Move}
    (hm : m ∈ l.writeMoves id definition at_) : m.Quiet := by
  unfold Ledger.writeMoves at hm
  dsimp only at hm
  split at hm
  · cases hm
  · rcases List.mem_pair.mp hm with rfl | rfl
    · exact ⟨rfl, nofun⟩
    · exact ⟨rfl, nofun⟩

theorem configureMoves_quiet {at_ : Nat} {m : Move} (hm : m ∈ configureMoves l id body at_) :
    m.Quiet := by
  unfold configureMoves at hm
  split at hm
  · exact writeMoves_quiet hm
  · cases hm

theorem queueMoves_quiet {row : OperationId → Operation} {at_ : Nat} {m : Move}
    (hm : m ∈ queueMoves l row at_) : m.Quiet := by
  rcases List.mem_pair.mp hm with rfl | rfl
  · exact ⟨rfl, nofun⟩
  · exact ⟨rfl, nofun⟩

theorem LedgerWork.placed {e : Event} {ms : List Move} (hwork : LedgerWork app s e ms) {m : Move}
    (hm : m ∈ ms) :
    (∀ at_, m.stamp = some at_ → at_ = s.db.clock) ∧
      ∀ payload key at_, m = .enqueueJob (.reconcile payload) key at_ →
        ∃ t ∈ s.db.estate.targets, t.id = payload.targetId ∧
          payload.environment = some t.environment := by
  have hquiet (h : m.Quiet) : (∀ at_, m.stamp = some at_ → at_ = s.db.clock) ∧
      ∀ payload key at_, m = .enqueueJob (.reconcile payload) key at_ →
        ∃ t ∈ s.db.estate.targets, t.id = payload.targetId ∧
          payload.environment = some t.environment := by
    obtain ⟨hstamp, hjob⟩ := h
    refine ⟨fun at_ hat => ?_, fun payload key at_ heq => absurd heq (hjob _ key at_)⟩
    rw [hstamp] at hat
    cases hat
  cases hwork with
  | nothing => cases hm
  | publish hrequest hcommit hsource =>
    rcases List.mem_cons.mp hm with rfl | hm
    · exact hquiet ⟨rfl, nofun⟩
    · rcases List.mem_append.mp hm with hm | hm
      · exact hquiet (writeMoves_quiet hm)
      · exact hquiet (queueMoves_quiet hm)
  | configure hrequest hcommit =>
    rcases List.mem_append.mp hm with hm | hm
    · exact hquiet (configureMoves_quiet hm)
    · exact hquiet (queueMoves_quiet hm)
  | promote hrequest hcommit => exact hquiet (queueMoves_quiet hm)
  | createRevision => exact hquiet (writeMoves_quiet hm)
  | correctRevision | createVersion =>
    rcases List.mem_pair.mp hm with rfl | rfl
    · exact hquiet ⟨rfl, nofun⟩
    · exact hquiet ⟨rfl, nofun⟩
  | release planId hrevision hplanned htarget =>
    rcases List.mem_append.mp hm with hm | hm
    · rcases hplanned with ⟨rfl, -⟩ | ⟨plan, rfl, -⟩
      · cases hm
      · obtain rfl := List.mem_singleton.mp hm
        exact hquiet ⟨rfl, nofun⟩
    · rcases List.mem_cons.mp hm with rfl | hm
      · exact ⟨fun at_ hat => (Option.some.inj hat).symm, nofun⟩
      · rcases List.mem_pair.mp hm with rfl | rfl
        · exact hquiet ⟨rfl, nofun⟩
        · refine ⟨nofun, fun payload key at_ heq => ?_⟩
          obtain ⟨hin, hin'⟩ := mem_gatewaysIn.mp htarget
          cases heq
          exact ⟨_, hin, rfl, by rw [hin']; rfl⟩
  | withdraw htarget =>
    obtain rfl := List.mem_singleton.mp hm
    refine ⟨nofun, fun payload key at_ heq => ?_⟩
    cases heq
    exact ⟨_, (mem_gatewaysIn.mp htarget).1, rfl, rfl⟩
  | announceDelete =>
    obtain ⟨target, htarget, rfl⟩ := List.mem_map.mp hm
    refine ⟨nofun, fun payload key at_ heq => ?_⟩
    cases heq
    exact ⟨target, htarget, rfl, rfl⟩
  | applied ho hdue happlied hrevision =>
    obtain rfl := List.mem_singleton.mp hm
    exact ⟨fun at_ hat => (Option.some.inj hat).symm, nofun⟩
  | dismissed release state hbefore =>
    rcases List.mem_append.mp hm with hm | hm
    · rcases hbefore with rfl | ⟨f, rfl⟩
      · cases hm
      · obtain rfl := List.mem_singleton.mp hm
        exact hquiet ⟨rfl, nofun⟩
    · obtain rfl := List.mem_singleton.mp hm
      exact hquiet ⟨rfl, nofun⟩
  | dryRun | delete | failed | complete | startJob | finishJob | requeueJobs | administer | prune
  | removed | converged | threw =>
    obtain rfl := List.mem_singleton.mp hm
    exact hquiet ⟨rfl, nofun⟩
  | enqueuePrune =>
    obtain rfl := List.mem_singleton.mp hm
    exact ⟨nofun, nofun⟩

theorem mem_of_follows {old new : Estate} {next : Nat} (h : old.follows new next = true)
    {t : Target} (ht : t ∈ new.targets) :
    (∃ was ∈ old.targets, was.id = t.id ∧ was.environment = t.environment) ∨ next ≤ t.id := by
  simp only [Estate.follows, Bool.and_eq_true, List.all_eq_true, Bool.or_eq_true, List.any_eq_true,
    beq_iff_eq, decide_eq_true_eq] at h
  exact h.2 t ht

theorem step_sound {s' : State} {e : Event} (hs : s.Sound) (h : step app s e = some s') :
    s'.Sound := by
  obtain ⟨ms, hwork, hmoves⟩ := step_moves hs h
  obtain ⟨hclock, htargets⟩ := step_frame h
  have hledger := moves_sound hs.ledger hmoves
  have hnext := moves_next hmoves
  have hstamped : ∀ r ∈ s'.db.ledger.releases, r.releasedAt ≤ s'.db.clock := by
    refine moves_stamped hs.ledger hmoves (fun m hm at_ hat => ?_)
      fun r hr => (hs.stamped r hr).trans hclock
    rw [(hwork.placed hm).1 at_ hat]
    exact hclock
  by_cases hadmin : ∃ estate, e = .administer estate
  · obtain ⟨estate, rfl⟩ := hadmin
    obtain ⟨hfollows, rfl⟩ := step_administer h
    have hnodup : (estate.targets.map (·.id)).Nodup := by
      simp only [Estate.follows, Bool.and_eq_true, decide_eq_true_eq] at hfollows
      exact hfollows.1
    refine ⟨hledger, hstamped, hnodup, (numbered_le estate s.db.ledger.next).2, ?_⟩
    intro j hj payload hpayload t ht hid
    have hnamed := hs.ledger.named j hj
    rw [hpayload, JobWork.named_reconcile_iff] at hnamed
    rcases mem_of_follows hfollows ht with ⟨was, hwas, hwasId, hwasIn⟩ | hnew
    · rw [← hwasIn]
      exact hs.placed j hj payload hpayload was hwas (hwasId.trans hid)
    · rw [hid] at hnew
      exact absurd hnamed.2.1 (Nat.not_lt.mpr hnew)
  · have hsame := htargets fun estate heq => hadmin ⟨estate, heq⟩
    refine ⟨hledger, hstamped, by rw [hsame]; exact hs.targets, fun t ht => ?_, ?_⟩
    · rw [hsame] at ht
      exact Nat.lt_of_lt_of_le (hs.numbered t ht) hnext
    · intro j' hj' payload hpayload t ht hid
      rw [hsame] at ht
      rcases moves_job hmoves hj' with ⟨j, hj, -, hkept, -⟩ | ⟨key, at_, hm, -⟩
      · exact hs.placed j hj payload (hkept.symm.trans hpayload) t ht hid
      · rw [hpayload] at hm
        obtain ⟨target, htarget, htargetId, hplaced⟩ := (hwork.placed hm).2 payload key at_ rfl
        obtain rfl : target = t :=
          List.inj_on_of_nodup_map hs.targets htarget ht (htargetId.trans hid.symm)
        exact hplaced

theorem State.initial_sound : State.initial.Sound := by
  have hempty : Numbered [] 1 := .nil 1
  exact ⟨⟨hempty, hempty, hempty, hempty, nofun⟩, nofun, List.nodup_nil, nofun, nofun⟩

theorem run_sound {s' : State} {events : List Event} (hs : s.Sound) (h : run app s events = some s') :
    s'.Sound :=
  exec_invariant (fun _ _ _ hs h => step_sound hs h) hs h

theorem Reachable.sound (h : Reachable app s) : s.Sound := by
  obtain ⟨events, hrun⟩ := h
  exact run_sound State.initial_sound hrun

end Apim.ControlPlane
