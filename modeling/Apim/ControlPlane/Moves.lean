import Apim.Lib.Table
import Apim.ControlPlane.System

/-!
# The ledger as a machine of its own

Every event changes the ledger by a few statements, and what can happen to its rows is the same
whichever event they belong to: an operation is inserted queued and only moves forward, a release is
inserted pending, or live when an operation publishes it, and once it is no longer pending it never
is again. `Move` lists the statements with what the code has checked when it makes them, and
`Ledger.move` is their effect. `step_moves` (in the next module) replays every event as moves, so
that an invariant of the ledger is proved of moves.
-/

namespace Apim.ControlPlane
open Overlay Policy Trace Table

def Operation.waits (o : Operation) : Bool :=
  o.state == .queued || o.state == .retrying || o.state == .blocked

inductive Move where
  | number (next : Nat)
  | storeArtifact (digest : String)
  | addRevision (row : Revision)
  | freeze (id : RevisionId) (at_ : Nat)
  | correct (id : RevisionId) (readDigest : String) (definition : Definition)
  | addOperation (row : Operation)
  | retry (id : OperationId) (at_ : Nat)
  | publish (id : OperationId) (revision : Revision) (at_ : Nat)
  | complete (environment : Environment)
  | addRelease (row : Release)
  | dismiss (id : ReleaseId) (state : ReleaseState)
  | converge (stage : Stage) (id : ReleaseId)
  | remove (stage : Stage)
  | addPlan (plan : ReleasePlan) (at_ : Nat)
  | enqueueJob (work : JobWork) (key : JobKey) (at_ : Nat)
  | updateJobs (f : Job → Job)
  | deleteResource (id : ResourceId)
  | prune (options : RetentionOptions) (at_ : Nat)

def JobWork.named (work : JobWork) (l : Ledger) : Bool :=
  match work with
  | .prune => true
  | .reconcile payload =>
    payload.environment.isSome && payload.targetId < l.next &&
      payload.releaseId.all fun id => id < l.next && l.releases.all fun r => r.id != id ||
        (r.resourceId == payload.resourceId && some r.environment == payload.environment)

def Ledger.convergeable (l : Ledger) (stage : Stage) (id : ReleaseId) : Bool :=
  (releaseOf l id).any fun r => r.state == .pending && r.resourceId == stage.1 &&
    r.environment == stage.2 && !overtaken l stage id

namespace Ledger

def move (l : Ledger) : Move → Option Ledger
  | .number next => if l.next ≤ next then some { l with next := next } else none
  | .storeArtifact digest => some (l.storeArtifact digest)
  | .addRevision row =>
    if row.id = l.next ∧ row.prunedAt = none then some (l.addRevision fun _ => row) else none
  | .freeze id at_ => some (l.freeze id at_)
  | .correct id readDigest definition =>
    if definition.artifactDigest = "" ∨ definition.artifactDigest ∈ l.artifacts then
      some (l.correct id readDigest definition)
    else none
  | .addOperation row =>
    if row.id = l.next ∧ row.state = .queued ∧ row.releaseId = none then
      some (l.addOperation fun _ => row)
    else none
  | .retry id at_ =>
    if (operationOf l id).any (·.waits) then some (l.updateOperation id (·.failedOnce at_)) else none
  | .publish id revision at_ =>
    match operationOf l id with
    | none => none
    | some o =>
      if o.waits ∧ revisionOf l o.input.revisionId = some revision ∧
          l.releases.all (·.releasedAt ≤ at_) then
        some ((l.publish o revision at_).updateOperation id (·.applied l.next))
      else none
  | .complete environment => some (l.completeOperations environment)
  | .addRelease row =>
    if row.id = l.next ∧ row.state = .pending ∧ l.releases.all (·.releasedAt ≤ row.releasedAt) then
      some (l.addRelease fun _ => row)
    else none
  | .dismiss id state =>
    if (releaseOf l id).any (·.state == .pending) ∧ (state = .stale ∨ state = .failed) then
      some (l.setRelease id state)
    else none
  | .converge stage id => if l.convergeable stage id then some (l.converge stage id) else none
  | .remove stage =>
    some ((l.moveReleases stage .converged .withdrawn).moveReleases stage .pending .stale)
  | .addPlan plan at_ => some (l.addPlan plan at_)
  | .enqueueJob work key at_ => if work.named l then some (l.enqueueJob work key at_) else none
  | .updateJobs f =>
    if l.jobs.all fun j => decide ((f j).id = j.id ∧ (f j).work = j.work ∧ (f j).key = j.key) then
      some { l with jobs := l.jobs.map f }
    else none
  | .deleteResource id => some (l.deleteResource id)
  | .prune options at_ => some (l.pruneOldRows options at_)

end Ledger

def moves (l : Ledger) (ms : List Move) : Option Ledger := exec Ledger.move l ms

/-! ### A numbered ledger -/

structure Ledger.Sound (l : Ledger) : Prop where
  revisions : Numbered (l.revisions.map (·.id)) l.next
  operations : Numbered (l.operations.map (·.id)) l.next
  releases : Numbered (l.releases.map (·.id)) l.next
  jobs : Numbered (l.jobs.map (·.id)) l.next
  named : ∀ j ∈ l.jobs, j.work.named l = true

variable {l : Ledger}

theorem operationOf_eq_some (hl : l.Sound) {id : OperationId} {o : Operation} :
    operationOf l id = some o ↔ o ∈ l.operations ∧ o.id = id := by
  constructor
  · intro h
    exact ⟨List.mem_of_find?_eq_some h, by simpa using List.find?_some h⟩
  · rintro ⟨ho, rfl⟩
    exact hl.operations.find?_of_mem ho

theorem releaseOf_eq_some (hl : l.Sound) {id : ReleaseId} {r : Release} :
    releaseOf l id = some r ↔ r ∈ l.releases ∧ r.id = id := by
  constructor
  · intro h
    exact ⟨List.mem_of_find?_eq_some h, by simpa using List.find?_some h⟩
  · rintro ⟨hr, rfl⟩
    exact hl.releases.find?_of_mem hr

theorem jobOf_eq_some (hl : l.Sound) {id : JobId} {j : Job} :
    jobOf l id = some j ↔ j ∈ l.jobs ∧ j.id = id := by
  constructor
  · intro h
    exact ⟨List.mem_of_find?_eq_some h, by simpa using List.find?_some h⟩
  · rintro ⟨hj, rfl⟩
    exact hl.jobs.find?_of_mem hj

/-! ### What a move does to a row -/

inductive OperationStep (l : Ledger) (m : Move) (o' : Operation) : Prop where
  | kept (h : o' ∈ l.operations)
  | retried (o : Operation) (ho : o ∈ l.operations) (hwaits : o.waits = true) (at_ : Nat)
      (h : o' = o.failedOnce at_)
  | applied (o : Operation) (ho : o ∈ l.operations) (hwaits : o.waits = true)
      (revision : Revision) (at_ : Nat) (hm : m = .publish o.id revision at_)
      (h : o' = o.applied l.next)
  | completed (o : Operation) (ho : o ∈ l.operations) (hstate : o.state = .waitingForGateways)
      (h : o' = { o with state := .complete })
  | queued (hm : m = .addOperation o') (hid : o'.id = l.next) (hstate : o'.state = .queued)
      (hrelease : o'.releaseId = none)

inductive ReleaseStep (l : Ledger) (m : Move) (r' : Release) : Prop where
  | kept (h : r' ∈ l.releases)
  | retired (r : Release) (hr : r ∈ l.releases) (hstate : r.state = .converged)
      (state : ReleaseState) (hnew : state = .superseded ∨ state = .withdrawn)
      (h : r' = { r with state := state })
  | dismissed (r : Release) (hr : r ∈ l.releases) (hstate : r.state = .pending)
      (state : ReleaseState) (hnew : state = .stale ∨ state = .failed)
      (h : r' = { r with state := state })
  | converged (r : Release) (hr : r ∈ l.releases)
      (hm : m = .converge (r.resourceId, r.environment) r.id)
      (hstate : r.state = .pending)
      (hover : overtaken l (r.resourceId, r.environment) r.id = false)
      (h : r' = { r with state := .converged })
  | asked (hm : m = .addRelease r') (hid : r'.id = l.next) (hstate : r'.state = .pending)
      (hat : ∀ r ∈ l.releases, r.releasedAt ≤ r'.releasedAt)
  | published (o : Operation) (ho : o ∈ l.operations) (hwaits : o.waits = true)
      (revision : Revision) (at_ : Nat) (hm : m = .publish o.id revision at_)
      (hrevision : revisionOf l o.input.revisionId = some revision)
      (hat : ∀ r ∈ l.releases, r.releasedAt ≤ at_)
      (h : r' = o.published revision at_ l.next)

theorem mem_updateOperation {id : OperationId} {f : Operation → Operation} {o' : Operation}
    (h : o' ∈ (l.updateOperation id f).operations) :
    o' ∈ l.operations ∨ ∃ o ∈ l.operations, o.id = id ∧ o' = f o := by
  obtain ⟨o, ho, rfl⟩ := List.mem_map.mp h
  by_cases hid : o.id = id
  · exact .inr ⟨o, ho, hid, if_pos hid⟩
  · rw [if_neg hid]
    exact .inl ho

variable {r' : Release}

theorem mem_setRelease {id : ReleaseId} {state : ReleaseState}
    (h : r' ∈ (l.setRelease id state).releases) :
    r' ∈ l.releases ∨ ∃ r ∈ l.releases, r.id = id ∧ r' = { r with state := state } := by
  obtain ⟨r, hr, rfl⟩ := List.mem_map.mp h
  by_cases hid : r.id = id
  · exact .inr ⟨r, hr, hid, if_pos hid⟩
  · rw [if_neg hid]
    exact .inl hr

theorem mem_moveReleases {stage : Stage} {old new : ReleaseState}
    (h : r' ∈ (l.moveReleases stage old new).releases) :
    (r' ∈ l.releases ∧
        ¬ (r'.resourceId = stage.1 ∧ r'.environment = stage.2 ∧ r'.state = old)) ∨
      ∃ r ∈ l.releases, r.resourceId = stage.1 ∧ r.environment = stage.2 ∧ r.state = old ∧
        r' = { r with state := new } := by
  obtain ⟨r, hr, rfl⟩ := List.mem_map.mp h
  by_cases hmoved : r.resourceId = stage.1 ∧ r.environment = stage.2 ∧ r.state = old
  · obtain ⟨hresource, henvironment, hstate⟩ := hmoved
    exact .inr ⟨r, hr, hresource, henvironment, hstate, if_pos ⟨hresource, henvironment, hstate⟩⟩
  · rw [if_neg hmoved]
    exact .inl ⟨hr, hmoved⟩

variable {l' : Ledger}

attribute [local simp] Ledger.move

theorem move_publish {id : OperationId} {revision : Revision} {at_ : Nat}
    (h : l.move (.publish id revision at_) = some l') :
    ∃ o, operationOf l id = some o ∧ o.waits = true ∧
      revisionOf l o.input.revisionId = some revision ∧ (∀ r ∈ l.releases, r.releasedAt ≤ at_) ∧
      l' = (l.publish o revision at_).updateOperation id (·.applied l.next) := by
  simp only [Ledger.move] at h
  split at h
  · cases h
  next o ho =>
    split at h
    next hguard =>
      obtain ⟨hwaits, hrevision, hat⟩ := hguard
      refine ⟨o, ho, hwaits, hrevision, fun r hr => ?_, (Option.some.inj h).symm⟩
      simpa using List.all_eq_true.mp hat r hr
    next => cases h

variable {m : Move}

theorem move_operation (hl : l.Sound) (h : l.move m = some l') {o' : Operation}
    (ho' : o' ∈ l'.operations) : OperationStep l m o' := by
  cases m with
  | addOperation row =>
    simp only [Ledger.move, Option.ite_none_right_eq_some, Option.some.injEq] at h
    obtain ⟨⟨hid, hstate, hrelease⟩, rfl⟩ := h
    rcases List.mem_append.mp ho' with hold | hnew
    · exact .kept hold
    · obtain rfl := List.mem_singleton.mp hnew
      exact .queued rfl hid hstate hrelease
  | retry id at_ =>
    simp only [Ledger.move, Option.ite_none_right_eq_some, Option.some.injEq] at h
    obtain ⟨hguard, rfl⟩ := h
    rcases mem_updateOperation ho' with hold | ⟨o, ho, rfl, rfl⟩
    · exact .kept hold
    · rw [(operationOf_eq_some hl).mpr ⟨ho, rfl⟩] at hguard
      exact .retried o ho hguard at_ rfl
  | publish id revision at_ =>
    obtain ⟨found, hfound, hwaits, -, -, rfl⟩ := move_publish h
    rcases mem_updateOperation ho' with hold | ⟨o, ho, rfl, rfl⟩
    · exact .kept hold
    · obtain rfl : o = found := by
        rw [(operationOf_eq_some hl).mpr ⟨ho, rfl⟩] at hfound
        exact Option.some.inj hfound
      exact .applied o ho hwaits revision at_ rfl rfl
  | complete environment =>
    obtain rfl := Option.some.inj h
    obtain ⟨o, ho, rfl⟩ := List.mem_map.mp ho'
    by_cases hdone : o.environment = environment ∧ o.state = .waitingForGateways
    · exact .completed o ho hdone.2 (if_pos hdone)
    · rw [if_neg hdone]
      exact .kept ho
  | storeArtifact digest =>
    obtain rfl := Option.some.inj h
    unfold Ledger.storeArtifact at ho'
    split at ho'
    · exact .kept ho'
    · exact .kept ho'
  | enqueueJob work key at_ =>
    simp only [Ledger.move, Option.ite_none_right_eq_some, Option.some.injEq] at h
    obtain ⟨-, rfl⟩ := h
    unfold Ledger.enqueueJob at ho'
    split at ho'
    · exact .kept ho'
    · exact .kept ho'
  | prune options at_ =>
    obtain rfl := Option.some.inj h
    unfold Ledger.pruneOldRows Ledger.pruneRevisions at ho'
    split at ho'
    · exact .kept ho'
    · exact .kept ho'
  | freeze | remove | addPlan | deleteResource =>
    obtain rfl := Option.some.inj h
    exact .kept ho'
  | number | addRevision | correct | addRelease | dismiss | converge | updateJobs =>
    simp only [Ledger.move, Option.ite_none_right_eq_some, Option.some.injEq] at h
    obtain ⟨-, rfl⟩ := h
    exact .kept ho'

theorem move_release (hl : l.Sound) (h : l.move m = some l') (hr' : r' ∈ l'.releases) :
    ReleaseStep l m r' := by
  cases m with
  | publish id revision at_ =>
    obtain ⟨o, ho, hwaits, hrevision, hat, rfl⟩ := move_publish h
    obtain ⟨hmem, rfl⟩ := (operationOf_eq_some hl).mp ho
    rcases List.mem_append.mp hr' with hold | hnew
    · rcases mem_moveReleases hold with ⟨hkept, -⟩ | ⟨r, hr, -, -, hstate, rfl⟩
      · exact .kept hkept
      · exact .retired r hr hstate .superseded (.inl rfl) rfl
    · exact .published o hmem hwaits revision at_ rfl hrevision hat (List.mem_singleton.mp hnew)
  | addRelease row =>
    simp only [Ledger.move, Option.ite_none_right_eq_some, Option.some.injEq] at h
    obtain ⟨⟨hid, hstate, hat⟩, rfl⟩ := h
    rcases List.mem_append.mp hr' with hold | hnew
    · exact .kept hold
    · obtain rfl := List.mem_singleton.mp hnew
      exact .asked rfl hid hstate fun r hr => by simpa using List.all_eq_true.mp hat r hr
  | dismiss id state =>
    simp only [Ledger.move, Option.ite_none_right_eq_some, Option.some.injEq] at h
    obtain ⟨⟨hpending, hnew⟩, rfl⟩ := h
    rcases mem_setRelease hr' with hold | ⟨r, hr, rfl, rfl⟩
    · exact .kept hold
    · rw [(releaseOf_eq_some hl).mpr ⟨hr, rfl⟩] at hpending
      exact .dismissed r hr (by simpa using hpending) state hnew rfl
  | converge stage id =>
    simp only [Ledger.move, Option.ite_none_right_eq_some, Option.some.injEq] at h
    obtain ⟨hguard, rfl⟩ := h
    obtain ⟨r, hr, rfl⟩ := List.mem_map.mp hr'
    by_cases hid : r.id = id
    · subst hid
      rw [Ledger.convergeable, (releaseOf_eq_some hl).mpr ⟨hr, rfl⟩] at hguard
      simp only [Option.any_some, Bool.and_eq_true, beq_iff_eq, Bool.not_eq_true'] at hguard
      obtain ⟨⟨⟨hstate, hresource⟩, henvironment⟩, hover⟩ := hguard
      have hstage : stage = (r.resourceId, r.environment) := by
        rw [hresource, henvironment]
      subst hstage
      exact .converged r hr rfl hstate hover (if_pos rfl)
    · rw [if_neg hid]
      by_cases hlive : r.resourceId = stage.1 ∧ r.environment = stage.2 ∧ r.state = .converged
      · exact .retired r hr hlive.2.2 .superseded (.inl rfl) (if_pos hlive)
      · rw [if_neg hlive]
        exact .kept hr
  | remove stage =>
    obtain rfl := Option.some.inj h
    rcases mem_moveReleases hr' with ⟨hold, -⟩ | ⟨r, hr, -, -, hstate, rfl⟩
    · rcases mem_moveReleases hold with ⟨hkept, -⟩ | ⟨r, hr, -, -, hstate, rfl⟩
      · exact .kept hkept
      · exact .retired r hr hstate .withdrawn (.inr rfl) rfl
    · -- a release that was live is withdrawn by now, so this one was pending before
      rcases mem_moveReleases hr with ⟨hkept, -⟩ | ⟨r₀, hr₀, -, -, -, rfl⟩
      · exact .dismissed r hkept hstate .stale (.inl rfl) rfl
      · cases hstate
  | deleteResource id =>
    obtain rfl := Option.some.inj h
    exact .kept (List.mem_of_mem_filter hr')
  | storeArtifact digest =>
    obtain rfl := Option.some.inj h
    unfold Ledger.storeArtifact at hr'
    split at hr'
    · exact .kept hr'
    · exact .kept hr'
  | enqueueJob work key at_ =>
    simp only [Ledger.move, Option.ite_none_right_eq_some, Option.some.injEq] at h
    obtain ⟨-, rfl⟩ := h
    unfold Ledger.enqueueJob at hr'
    split at hr'
    · exact .kept hr'
    · exact .kept hr'
  | prune options at_ =>
    obtain rfl := Option.some.inj h
    unfold Ledger.pruneOldRows Ledger.pruneRevisions at hr'
    split at hr'
    · exact .kept hr'
    · exact .kept hr'
  | freeze | addPlan | complete =>
    obtain rfl := Option.some.inj h
    exact .kept hr'
  | number | addRevision | correct | addOperation | retry | updateJobs =>
    simp only [Ledger.move, Option.ite_none_right_eq_some, Option.some.injEq] at h
    obtain ⟨-, rfl⟩ := h
    exact .kept hr'

/-! ### Moves keep the ledger numbered -/

structure Ledger.Grew (l l' : Ledger) : Prop where
  next : l.next ≤ l'.next
  revisions : Grows (l.revisions.map (·.id)) l.next (l'.revisions.map (·.id)) l'.next
  operations : Grows (l.operations.map (·.id)) l.next (l'.operations.map (·.id)) l'.next
  releases : Grows (l.releases.map (·.id)) l.next (l'.releases.map (·.id)) l'.next
  jobs : Grows (l.jobs.map (·.id)) l.next (l'.jobs.map (·.id)) l'.next

theorem map_id_of_mapped {α : Type} {key : α → Nat} {rows : List α} {f : α → α}
    (hf : ∀ r, key (f r) = key r) : (rows.map f).map key = rows.map key :=
  map_key_map f fun r _ => hf r

theorem updateOperation_ids (l : Ledger) (id : OperationId) {f : Operation → Operation}
    (hf : ∀ o, (f o).id = o.id) :
    (l.updateOperation id f).operations.map (·.id) = l.operations.map (·.id) := by
  refine map_id_of_mapped fun o => ?_
  split
  · exact hf o
  · rfl

theorem moveReleases_ids (l : Ledger) (stage : Stage) (old new : ReleaseState) :
    (l.moveReleases stage old new).releases.map (·.id) = l.releases.map (·.id) := by
  refine map_id_of_mapped fun r => ?_
  split <;> rfl

theorem freeze_ids (l : Ledger) (id : RevisionId) (at_ : Nat) :
    (l.freeze id at_).revisions.map (·.id) = l.revisions.map (·.id) := by
  refine map_id_of_mapped fun r => ?_
  split <;> rfl

theorem pruneRevisions_ids (l : Ledger) (options : RetentionOptions) (at_ : Nat) :
    (l.pruneRevisions options at_).revisions.map (·.id) = l.revisions.map (·.id) ∧
      (l.pruneRevisions options at_).operations = l.operations ∧
      (l.pruneRevisions options at_).releases = l.releases ∧
      (l.pruneRevisions options at_).jobs = l.jobs ∧
      (l.pruneRevisions options at_).next = l.next := by
  unfold Ledger.pruneRevisions
  split
  · refine ⟨map_id_of_mapped fun r => ?_, rfl, rfl, rfl, rfl⟩
    split <;> rfl
  · exact ⟨rfl, rfl, rfl, rfl, rfl⟩

theorem Ledger.Grew.of_same (hnext : l.next ≤ l'.next)
    (hrevisions : l'.revisions.map (·.id) = l.revisions.map (·.id))
    (hoperations : l'.operations.map (·.id) = l.operations.map (·.id))
    (hreleases : l'.releases.map (·.id) = l.releases.map (·.id))
    (hjobs : l'.jobs.map (·.id) = l.jobs.map (·.id)) : l.Grew l' :=
  ⟨hnext, .same hrevisions hnext, .same hoperations hnext, .same hreleases hnext, .same hjobs hnext⟩

theorem move_grew (h : l.move m = some l') : l.Grew l' := by
  cases m with
  | number next =>
    simp only [Ledger.move, Option.ite_none_right_eq_some, Option.some.injEq] at h
    obtain ⟨hle, rfl⟩ := h
    exact .of_same hle rfl rfl rfl rfl
  | storeArtifact digest =>
    obtain rfl := Option.some.inj h
    unfold Ledger.storeArtifact
    split
    · exact .of_same le_rfl rfl rfl rfl rfl
    · exact .of_same le_rfl rfl rfl rfl rfl
  | addRevision row =>
    simp only [Ledger.move, Option.ite_none_right_eq_some, Option.some.injEq] at h
    obtain ⟨⟨hid, -⟩, rfl⟩ := h
    have hle : l.next ≤ l.next + 1 := Nat.le_succ _
    refine ⟨hle, .inr ⟨?_, rfl⟩, .same rfl hle, .same rfl hle, .same rfl hle⟩
    rw [← hid]
    exact List.map_append
  | freeze id at_ =>
    obtain rfl := Option.some.inj h
    exact .of_same le_rfl (freeze_ids l id at_) rfl rfl rfl
  | correct id readDigest definition =>
    simp only [Ledger.move, Option.ite_none_right_eq_some, Option.some.injEq] at h
    obtain ⟨-, rfl⟩ := h
    refine .of_same le_rfl (map_id_of_mapped fun r => ?_) rfl rfl rfl
    split <;> rfl
  | addOperation row =>
    simp only [Ledger.move, Option.ite_none_right_eq_some, Option.some.injEq] at h
    obtain ⟨⟨hid, -⟩, rfl⟩ := h
    have hle : l.next ≤ l.next + 1 := Nat.le_succ _
    refine ⟨hle, .same rfl hle, .inr ⟨?_, rfl⟩, .same rfl hle, .same rfl hle⟩
    rw [← hid]
    exact List.map_append
  | retry id at_ =>
    simp only [Ledger.move, Option.ite_none_right_eq_some, Option.some.injEq] at h
    obtain ⟨-, rfl⟩ := h
    exact .of_same le_rfl rfl (updateOperation_ids l id fun _ => rfl) rfl rfl
  | publish id revision at_ =>
    obtain ⟨o, -, -, -, -, rfl⟩ := move_publish h
    have hle : l.next ≤ l.next + 1 := Nat.le_succ _
    refine ⟨hle, .same (freeze_ids _ _ _) hle,
      .same (updateOperation_ids (l.publish o revision at_) id fun _ => rfl) hle, .inr ⟨?_, rfl⟩,
      .same rfl hle⟩
    rw [← moveReleases_ids l (o.resourceId, o.environment) .converged .superseded]
    exact List.map_append
  | complete environment =>
    obtain rfl := Option.some.inj h
    refine .of_same le_rfl rfl (map_id_of_mapped fun o => ?_) rfl rfl
    split <;> rfl
  | addRelease row =>
    simp only [Ledger.move, Option.ite_none_right_eq_some, Option.some.injEq] at h
    obtain ⟨⟨hid, -⟩, rfl⟩ := h
    have hle : l.next ≤ l.next + 1 := Nat.le_succ _
    refine ⟨hle, .same rfl hle, .same rfl hle, .inr ⟨?_, rfl⟩, .same rfl hle⟩
    rw [← hid]
    exact List.map_append
  | dismiss id state =>
    simp only [Ledger.move, Option.ite_none_right_eq_some, Option.some.injEq] at h
    obtain ⟨-, rfl⟩ := h
    refine .of_same le_rfl rfl rfl (map_id_of_mapped fun r => ?_) rfl
    split <;> rfl
  | converge stage id =>
    simp only [Ledger.move, Option.ite_none_right_eq_some, Option.some.injEq] at h
    obtain ⟨-, rfl⟩ := h
    refine .of_same le_rfl rfl rfl (map_id_of_mapped fun r => ?_) rfl
    split
    · rfl
    · split <;> rfl
  | remove stage =>
    obtain rfl := Option.some.inj h
    refine .of_same le_rfl rfl rfl ?_ rfl
    rw [moveReleases_ids, moveReleases_ids]
  | addPlan plan at_ =>
    obtain rfl := Option.some.inj h
    exact .of_same (Nat.le_succ _) rfl rfl rfl rfl
  | enqueueJob work key at_ =>
    simp only [Ledger.move, Option.ite_none_right_eq_some, Option.some.injEq] at h
    obtain ⟨-, rfl⟩ := h
    unfold Ledger.enqueueJob
    split
    · exact .of_same le_rfl rfl rfl rfl rfl
    · have hle : l.next ≤ l.next + 1 := Nat.le_succ _
      exact ⟨hle, .same rfl hle, .same rfl hle, .same rfl hle, .inr ⟨List.map_append, rfl⟩⟩
  | updateJobs f =>
    simp only [Ledger.move, Option.ite_none_right_eq_some, Option.some.injEq] at h
    obtain ⟨hf, rfl⟩ := h
    refine .of_same le_rfl rfl rfl rfl (map_key_map f fun j hj => ?_)
    have hsame := List.all_eq_true.mp hf j hj
    exact (of_decide_eq_true hsame).1
  | deleteResource id =>
    obtain rfl := Option.some.inj h
    exact ⟨le_rfl, .inl ⟨List.filter_sublist.map _, le_rfl⟩, .same rfl le_rfl,
      .inl ⟨List.filter_sublist.map _, le_rfl⟩, .same rfl le_rfl⟩
  | prune options at_ =>
    obtain rfl := Option.some.inj h
    unfold Ledger.pruneOldRows
    obtain ⟨hids, hoperations, hreleases, hjobs, hnext⟩ := pruneRevisions_ids { l with
      jobs := l.jobs.filter fun j =>
        !((j.state == .done || j.state == .failed) && j.updatedAt < options.planCutoff)
      plans := l.plans.filter fun p =>
        !(p.computedAt < options.planCutoff && !l.releases.any fun r => r.planId == some p.id) }
      options at_
    refine ⟨hnext.ge, .same hids hnext.ge, .same (by rw [hoperations]) hnext.ge,
      .same (by rw [hreleases]) hnext.ge, .inl ⟨?_, hnext.ge⟩⟩
    rw [hjobs]
    exact List.filter_sublist.map _

theorem move_job (h : l.move m = some l') {j' : Job} (hj' : j' ∈ l'.jobs) :
    (∃ j ∈ l.jobs, j'.id = j.id ∧ j'.work = j.work ∧ j'.key = j.key) ∨
      ∃ key at_, m = .enqueueJob j'.work key at_ ∧ j'.work.named l = true ∧ j'.id = l.next := by
  cases m with
  | updateJobs f =>
    simp only [Ledger.move, Option.ite_none_right_eq_some, Option.some.injEq] at h
    obtain ⟨hf, rfl⟩ := h
    obtain ⟨j, hj, rfl⟩ := List.mem_map.mp hj'
    exact .inl ⟨j, hj, of_decide_eq_true (List.all_eq_true.mp hf j hj)⟩
  | enqueueJob work key at_ =>
    simp only [Ledger.move, Option.ite_none_right_eq_some, Option.some.injEq] at h
    obtain ⟨hnamed, rfl⟩ := h
    unfold Ledger.enqueueJob at hj'
    split at hj'
    · exact .inl ⟨j', hj', rfl, rfl, rfl⟩
    · rcases List.mem_append.mp hj' with hold | hnew
      · exact .inl ⟨j', hold, rfl, rfl, rfl⟩
      · obtain rfl := List.mem_singleton.mp hnew
        exact .inr ⟨key, at_, rfl, hnamed, rfl⟩
  | publish id revision at_ =>
    obtain ⟨o, -, -, -, -, rfl⟩ := move_publish h
    exact .inl ⟨j', hj', rfl, rfl, rfl⟩
  | prune options at_ =>
    obtain rfl := Option.some.inj h
    unfold Ledger.pruneOldRows at hj'
    rw [(pruneRevisions_ids _ _ _).2.2.2.1] at hj'
    exact .inl ⟨j', List.mem_of_mem_filter hj', rfl, rfl, rfl⟩
  | storeArtifact digest =>
    obtain rfl := Option.some.inj h
    unfold Ledger.storeArtifact at hj'
    split at hj'
    · exact .inl ⟨j', hj', rfl, rfl, rfl⟩
    · exact .inl ⟨j', hj', rfl, rfl, rfl⟩
  | freeze | remove | addPlan | complete | deleteResource =>
    obtain rfl := Option.some.inj h
    exact .inl ⟨j', hj', rfl, rfl, rfl⟩
  | number | addRevision | correct | addOperation | retry | addRelease | dismiss | converge =>
    simp only [Ledger.move, Option.ite_none_right_eq_some, Option.some.injEq] at h
    obtain ⟨-, rfl⟩ := h
    exact .inl ⟨j', hj', rfl, rfl, rfl⟩

theorem release_kept (h : ReleaseStep l m r') :
    (∃ r ∈ l.releases, r.id = r'.id ∧ r.resourceId = r'.resourceId ∧
        r.environment = r'.environment) ∨ l.next ≤ r'.id := by
  cases h with
  | kept h => exact .inl ⟨r', h, rfl, rfl, rfl⟩
  | retired r hr hstate state hnew h => exact .inl ⟨r, hr, by rw [h], by rw [h], by rw [h]⟩
  | dismissed r hr hstate state hnew h => exact .inl ⟨r, hr, by rw [h], by rw [h], by rw [h]⟩
  | converged r hr hm hstate hover h => exact .inl ⟨r, hr, by rw [h], by rw [h], by rw [h]⟩
  | asked hm hid => exact .inr hid.ge
  | published o ho hwaits revision at_ hm hrevision hat h =>
    refine .inr ?_
    rw [h]
    exact le_rfl

theorem JobWork.named_reconcile_iff (payload : ReconcilePayload) (l : Ledger) :
    (JobWork.reconcile payload).named l = true ↔
      payload.environment.isSome ∧ payload.targetId < l.next ∧
        ∀ id, payload.releaseId = some id → id < l.next ∧ ∀ r ∈ l.releases, r.id = id →
          r.resourceId = payload.resourceId ∧ payload.environment = some r.environment := by
  simp only [JobWork.named, Bool.and_eq_true, decide_eq_true_eq, and_assoc]
  refine and_congr_right fun _ => and_congr_right fun _ => ?_
  cases payload.releaseId with
  | none => simp
  | some id =>
    simp only [Option.all_some, Bool.and_eq_true, decide_eq_true_eq, List.all_eq_true,
      Bool.or_eq_true, bne_iff_ne, beq_iff_eq, Option.some.injEq, forall_eq']
    refine and_congr_right fun _ => forall₂_congr fun r _ => ?_
    constructor
    · intro h hid
      obtain ⟨hresource, henvironment⟩ := h.resolve_left (fun hne => hne hid)
      exact ⟨hresource, henvironment.symm⟩
    · intro h
      by_cases hid : r.id = id
      · exact .inr ⟨(h hid).1, (h hid).2.symm⟩
      · exact .inl hid

theorem JobWork.named_mono {work : JobWork} (h : work.named l = true) (hnext : l.next ≤ l'.next)
    (hreleases : ∀ r' ∈ l'.releases, (∃ r ∈ l.releases, r.id = r'.id ∧
      r.resourceId = r'.resourceId ∧ r.environment = r'.environment) ∨ l.next ≤ r'.id) :
    work.named l' = true := by
  cases work with
  | prune => rfl
  | reconcile payload =>
    rw [named_reconcile_iff] at h ⊢
    obtain ⟨henvironment, htarget, hrelease⟩ := h
    refine ⟨henvironment, Nat.lt_of_lt_of_le htarget hnext, fun id hid => ?_⟩
    obtain ⟨hlt, hsame⟩ := hrelease id hid
    refine ⟨Nat.lt_of_lt_of_le hlt hnext, fun r' hr' hr'id => ?_⟩
    rcases hreleases r' hr' with ⟨r, hr, hrid, hresource, henvironment⟩ | hnew
    · rw [← hresource, ← henvironment]
      exact hsame r hr (hrid.trans hr'id)
    · rw [hr'id] at hnew
      exact absurd hlt (Nat.not_lt.mpr hnew)

theorem move_sound (hl : l.Sound) (h : l.move m = some l') : l'.Sound := by
  have hgrew := move_grew h
  refine ⟨hl.revisions.grow hgrew.revisions, hl.operations.grow hgrew.operations,
    hl.releases.grow hgrew.releases, hl.jobs.grow hgrew.jobs, fun j' hj' => ?_⟩
  have hreleases := fun r' (hr' : r' ∈ l'.releases) => release_kept (move_release hl h hr')
  rcases move_job h hj' with ⟨j, hj, -, hwork, -⟩ | ⟨key, at_, -, hnamed, -⟩
  · rw [hwork]
    exact JobWork.named_mono (hl.named j hj) hgrew.next hreleases
  · exact JobWork.named_mono hnamed hgrew.next hreleases

variable {ms : List Move}

theorem moves_sound (hl : l.Sound) (h : moves l ms = some l') : l'.Sound :=
  exec_invariant (fun _ _ _ hl h => move_sound hl h) hl h

theorem moves_next (h : moves l ms = some l') : l.next ≤ l'.next := by
  induction ms generalizing l with
  | nil =>
    obtain rfl := Option.some.inj h
    exact le_rfl
  | cons m ms ih =>
    obtain ⟨mid, hmid, hrest⟩ := exec_cons_eq_some h
    exact (move_grew hmid).next.trans (ih hrest)

theorem moves_job (h : moves l ms = some l') {j' : Job} (hj' : j' ∈ l'.jobs) :
    (∃ j ∈ l.jobs, j'.id = j.id ∧ j'.work = j.work ∧ j'.key = j.key) ∨
      ∃ key at_, .enqueueJob j'.work key at_ ∈ ms ∧ l.next ≤ j'.id := by
  induction ms generalizing l with
  | nil =>
    obtain rfl := Option.some.inj h
    exact .inl ⟨j', hj', rfl, rfl, rfl⟩
  | cons m ms ih =>
    obtain ⟨mid, hmid, hrest⟩ := exec_cons_eq_some h
    rcases ih hrest with ⟨j, hj, hid, hwork, hkey⟩ | ⟨key, at_, hmem, hle⟩
    · rcases move_job hmid hj with ⟨j₀, hj₀, hid₀, hwork₀, hkey₀⟩ | ⟨key, at_, hm, -, hnew⟩
      · exact .inl ⟨j₀, hj₀, hid.trans hid₀, hwork.trans hwork₀, hkey.trans hkey₀⟩
      · refine .inr ⟨key, at_, ?_, (hid.trans hnew).ge⟩
        rw [hm, hwork]
        exact List.mem_cons_self
    · exact .inr ⟨key, at_, List.mem_cons_of_mem _ hmem, (move_grew hmid).next.trans hle⟩

def Move.stamp : Move → Option Nat
  | .addRelease row => some row.releasedAt
  | .publish _ _ at_ => some at_
  | _ => none

theorem moves_stamped {now : Nat} (hl : l.Sound) (h : moves l ms = some l')
    (hms : ∀ m ∈ ms, ∀ at_, m.stamp = some at_ → at_ ≤ now)
    (hstamped : ∀ r ∈ l.releases, r.releasedAt ≤ now) : ∀ r ∈ l'.releases, r.releasedAt ≤ now := by
  induction ms generalizing l with
  | nil =>
    obtain rfl := Option.some.inj h
    exact hstamped
  | cons m ms ih =>
    obtain ⟨mid, hmid, hrest⟩ := exec_cons_eq_some h
    have hfirst := hms m List.mem_cons_self
    refine ih (move_sound hl hmid) hrest
      (fun m' hm' => hms m' (List.mem_cons_of_mem _ hm')) fun r' hr' => ?_
    cases move_release hl hmid hr' with
    | kept h => exact hstamped r' h
    | retired r hr hstate state hnew h =>
      rw [h]
      exact hstamped r hr
    | dismissed r hr hstate state hnew h =>
      rw [h]
      exact hstamped r hr
    | converged r hr hm hstate hover h =>
      rw [h]
      exact hstamped r hr
    | asked hm => exact hfirst _ (by rw [hm]; rfl)
    | published o ho hwaits revision at_ hm hrevision hat h =>
      rw [h]
      exact hfirst at_ (by rw [hm]; rfl)

end Apim.ControlPlane
