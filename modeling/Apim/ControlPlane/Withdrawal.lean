import Mathlib.Data.List.Find
import Apim.ControlPlane.Replay

/-!
# Withdrawals and what is asked after them

Requests are accepted in the order of their row numbers: that of the operation a release was
published by, or of the release itself where it was asked for by name (`requestOf`). A withdrawal
is a job, and is carried out when the job gets to its transaction (`removalAt`). Two laws relate
the two orders: what was asked before a withdrawal stays withdrawn (`withdrawal_stands`), and a job
spares what was asked after it (`sparesLater_iff`). Neither holds of every run; each is proved under
the condition that the code leaves unchecked, with a run that fails without it.
-/

namespace Apim.ControlPlane
open Overlay Policy Trace Table

/-! ### The request behind a release -/

def requestOf (l : Ledger) (id : ReleaseId) : Nat :=
  ((l.operations.find? fun o => o.releaseId == some id).map (·.id)).getD id

structure Ledger.Traced (l : Ledger) : Prop where
  waiting : ∀ o ∈ l.operations, o.waits = true → o.releaseId = none
  below : ∀ o ∈ l.operations, ∀ id, o.releaseId = some id → id < l.next
  pending : ∀ o ∈ l.operations, ∀ r ∈ l.releases, o.releaseId = some r.id → r.state ≠ .pending

variable {l : Ledger} {m : Move}

theorem OperationStep.names {o' : Operation} (h : OperationStep l m o') {id : ReleaseId}
    (hid : o'.releaseId = some id) :
    (∃ o ∈ l.operations, o.releaseId = some id ∧ o.id = o'.id) ∨
      id = l.next ∧ ∃ o ∈ l.operations, o.id = o'.id ∧ o.waits = true ∧
        ∃ revision at_, m = .publish o.id revision at_ := by
  cases h with
  | kept h => exact .inl ⟨o', h, hid, rfl⟩
  | retried o ho hwaits at_ h =>
    rw [h] at hid ⊢
    exact .inl ⟨o, ho, hid, rfl⟩
  | applied o ho hwaits revision at_ hm h =>
    rw [h] at hid ⊢
    exact .inr ⟨(Option.some.inj hid).symm, o, ho, rfl, hwaits, revision, at_, hm⟩
  | completed o ho hstate h =>
    rw [h] at hid ⊢
    exact .inl ⟨o, ho, hid, rfl⟩
  | queued hm hnew hstate hrelease =>
    rw [hrelease] at hid
    cases hid

variable {l' : Ledger}

theorem move_traced (hl : l.Sound) (ht : l.Traced) (h : l.move m = some l') : l'.Traced := by
  have hnext := (move_grew h).next
  refine ⟨fun o' ho' hwaits => ?_, fun o' ho' id hid => ?_, fun o' ho' r' hr' hid hpending => ?_⟩
  · cases move_operation hl h ho' with
    | kept h => exact ht.waiting o' h hwaits
    | retried o ho hwas at_ h =>
      rw [h]
      exact ht.waiting o ho hwas
    | applied o ho hwas revision at_ hm h =>
      rw [h] at hwaits
      cases hwaits
    | completed o ho hstate h =>
      rw [h] at hwaits
      cases hwaits
    | queued hm hid hstate hrelease => exact hrelease
  · rcases (move_operation hl h ho').names hid with ⟨o, ho, hname, -⟩ | ⟨rfl, o, ho, -, -, rev, at_, rfl⟩
    · exact Nat.lt_of_lt_of_le (ht.below o ho id hname) hnext
    · obtain ⟨found, -, -, -, -, rfl⟩ := move_publish h
      exact Nat.lt_succ_self _
  · -- a release waits since it was asked for, and then no operation names it
    have hwas : l.next ≤ r'.id ∨ r' ∈ l.releases := by
      cases move_release hl h hr' with
      | kept h => exact .inr h
      | retired r hr hstate state hnew h =>
        rw [h] at hpending
        rcases hnew with rfl | rfl
        · cases hpending
        · cases hpending
      | dismissed r hr hstate state hnew h =>
        rw [h] at hpending
        rcases hnew with rfl | rfl
        · cases hpending
        · cases hpending
      | converged r hr hm hstate hover h =>
        rw [h] at hpending
        cases hpending
      | asked hm hnew hstate hat => exact .inl hnew.ge
      | published o ho hwaits revision at_ hm hrevision hat h =>
        rw [h] at hpending
        cases hpending
    rcases (move_operation hl h ho').names hid with ⟨o, ho, hname, -⟩ | ⟨hnew, o, ho, -, -, rev, at_, rfl⟩
    · rcases hwas with hlate | hr
      · exact absurd (ht.below o ho r'.id hname) (Nat.not_lt.mpr hlate)
      · exact ht.pending o ho r' hr hname hpending
    · rcases hwas with hlate | hr
      · -- the only release numbered now is the one published now, which is live
        cases move_release hl h hr' with
        | kept h => exact absurd (hl.releases.below _ (List.mem_map_of_mem h)) (Nat.not_lt.mpr hlate)
        | published o ho hwaits revision at_ hm hrevision hat h =>
          rw [h] at hpending
          cases hpending
        | retired r hr hstate state hnew h =>
          have hlt := hl.releases.below _ (List.mem_map_of_mem hr)
          rw [h] at hlate
          exact absurd hlt (Nat.not_lt.mpr hlate)
        | dismissed r hr hstate state hnew h =>
          have hlt := hl.releases.below _ (List.mem_map_of_mem hr)
          rw [h] at hlate
          exact absurd hlt (Nat.not_lt.mpr hlate)
        | converged r hr hm => cases hm
        | asked hm => cases hm
      · have hlt := hl.releases.below _ (List.mem_map_of_mem hr)
        exact absurd hnew (Nat.ne_of_lt hlt)

theorem requestOf_move (hl : l.Sound) (ht : l.Traced) (h : l.move m = some l') {id : ReleaseId}
    (hid : id < l.next) : requestOf l' id = requestOf l id := by
  have hmap : ∀ f : Operation → Operation, (∀ o, (f o).id = o.id) →
      (∀ o ∈ l.operations, ((f o).releaseId == some id) = (o.releaseId == some id)) →
      ((l.operations.map f).find? fun o => o.releaseId == some id).map (·.id) =
        (l.operations.find? fun o => o.releaseId == some id).map (·.id) := by
    intro f hids hnames
    rw [List.find?_map, Option.map_map]
    have hfind : l.operations.find? ((fun o => o.releaseId == some id) ∘ f) =
        l.operations.find? fun o => o.releaseId == some id := List.find?_congr hnames
    rw [hfind]
    congr 1
    funext o
    exact hids o
  cases m with
  | addOperation row =>
    simp only [Ledger.move, Option.ite_none_right_eq_some, Option.some.injEq] at h
    obtain ⟨⟨-, -, hrelease⟩, rfl⟩ := h
    have hrow : (row.releaseId == some id) = false := by rw [hrelease]; rfl
    simp only [requestOf, Ledger.addOperation, List.find?_append, List.find?_cons, hrow,
      List.find?_nil, Option.or_none]
  | retry oid at_ =>
    simp only [Ledger.move, Option.ite_none_right_eq_some, Option.some.injEq] at h
    obtain ⟨-, rfl⟩ := h
    refine congrArg (Option.getD · id) (hmap _ (fun o => ?_) fun o _ => ?_)
    · split <;> rfl
    · split <;> rfl
  | publish oid revision at_ =>
    obtain ⟨o, ho, hwaits, -, -, rfl⟩ := move_publish h
    obtain ⟨hmem, rfl⟩ := (operationOf_eq_some hl).mp ho
    refine congrArg (Option.getD · id) (hmap _ (fun o' => ?_) fun o' ho' => ?_)
    · split <;> rfl
    · split
      next heq =>
        obtain rfl : o' = o := by
          have hfound := (operationOf_eq_some hl).mpr ⟨ho', heq⟩
          rw [ho] at hfound
          exact (Option.some.inj hfound).symm
        have hnew : (some l.next == some id) = false := by
          have hne : l.next ≠ id := Nat.ne_of_gt hid
          simpa using hne
        rw [ht.waiting o' ho' hwaits]
        exact hnew
      next => rfl
  | complete environment =>
    obtain rfl := Option.some.inj h
    refine congrArg (Option.getD · id) (hmap _ (fun o => ?_) fun o _ => ?_)
    · split <;> rfl
    · split <;> rfl
  | storeArtifact digest =>
    obtain rfl := Option.some.inj h
    unfold Ledger.storeArtifact
    split <;> rfl
  | enqueueJob work key at_ =>
    simp only [Ledger.move, Option.ite_none_right_eq_some, Option.some.injEq] at h
    obtain ⟨-, rfl⟩ := h
    unfold Ledger.enqueueJob
    split <;> rfl
  | prune options at_ =>
    obtain rfl := Option.some.inj h
    unfold Ledger.pruneOldRows requestOf
    rw [(pruneRevisions_ids _ _ _).2.1]
  | freeze | remove | addPlan | deleteResource =>
    obtain rfl := Option.some.inj h
    rfl
  | number | addRevision | correct | addRelease | dismiss | converge | updateJobs =>
    simp only [Ledger.move, Option.ite_none_right_eq_some, Option.some.injEq] at h
    obtain ⟨-, rfl⟩ := h
    rfl

variable {ms : List Move}

theorem requestOf_moves (hl : l.Sound) (ht : l.Traced) (h : moves l ms = some l') {id : ReleaseId}
    (hid : id < l.next) : requestOf l' id = requestOf l id := by
  induction ms generalizing l with
  | nil =>
    obtain rfl := Option.some.inj h
    rfl
  | cons m ms ih =>
    obtain ⟨mid, hmid, hrest⟩ := exec_cons_eq_some h
    have hlt := Nat.lt_of_lt_of_le hid (move_grew hmid).next
    rw [ih (move_sound hl hmid) (move_traced hl ht hmid) hrest hlt, requestOf_move hl ht hmid hid]

theorem requestOf_pending (ht : l.Traced) {r : Release} (hr : r ∈ l.releases)
    (hpending : r.state = .pending) : requestOf l r.id = r.id := by
  have hnone : l.operations.find? (fun o => o.releaseId == some r.id) = none := by
    rw [List.find?_eq_none]
    intro o ho hname
    exact ht.pending o ho r hr (by simpa using hname) hpending
  rw [requestOf, hnone]
  rfl

theorem requestOf_published {o : Operation} {revision : Revision} {at_ : Nat} (hl : l.Sound)
    (ht : l.Traced) (ho : o ∈ l.operations) (h : l.move (.publish o.id revision at_) = some l') :
    requestOf l' l.next = o.id := by
  obtain ⟨found, hfound, hwaits, -, -, rfl⟩ := move_publish h
  obtain rfl : found = o := by
    rw [(operationOf_eq_some hl).mpr ⟨ho, rfl⟩] at hfound
    exact (Option.some.inj hfound).symm
  have hl' := move_sound hl h
  have hin : found.applied l.next ∈
      ((l.publish found revision at_).updateOperation found.id (·.applied l.next)).operations :=
    List.mem_map.mpr ⟨found, ho, if_pos rfl⟩
  have hsome : (((l.publish found revision at_).updateOperation found.id
      (·.applied l.next)).operations.find? fun o => o.releaseId == some l.next).isSome := by
    rw [List.find?_isSome]
    exact ⟨_, hin, by simp [Operation.applied]⟩
  obtain ⟨named, hnamed⟩ := Option.isSome_iff_exists.mp hsome
  have hname : named.releaseId = some l.next := by simpa using List.find?_some hnamed
  have hnamedId : named.id = found.id := by
    rcases (move_operation hl h (List.mem_of_find?_eq_some hnamed)).names hname with
      ⟨before, hbefore, hold, -⟩ | ⟨-, before, -, hid, -, rev, at', hm⟩
    · exact absurd (ht.below before hbefore _ hold) (Nat.lt_irrefl _)
    · have hsame := (Move.publish.inj hm).1
      exact hid.symm.trans hsame.symm
  rw [requestOf, hnamed, ← hnamedId]
  rfl

/-! ### What becomes live after a withdrawal -/

structure Ledger.Cleared (requested : Nat) (stage : Stage) (l : Ledger) : Prop where
  next : requested ≤ l.next
  waiting : ∀ o ∈ l.operations, o.resourceId = stage.1 → o.environment = stage.2 →
    o.waits = true → requested ≤ o.id
  pending : ∀ r ∈ l.releases, r.resourceId = stage.1 → r.environment = stage.2 →
    r.state = .pending → requested ≤ r.id

variable {requested : Nat} {stage : Stage}

theorem move_cleared (hl : l.Sound) (hc : l.Cleared requested stage) (h : l.move m = some l') :
    l'.Cleared requested stage := by
  have hnext := hc.next.trans (move_grew h).next
  refine ⟨hnext, fun o' ho' hresource henvironment hwaits => ?_,
    fun r' hr' hresource henvironment hpending => ?_⟩
  · cases move_operation hl h ho' with
    | kept h => exact hc.waiting o' h hresource henvironment hwaits
    | retried o ho hwas at_ h =>
      rw [h] at hresource henvironment ⊢
      exact hc.waiting o ho hresource henvironment hwas
    | applied o ho hwas revision at_ hm h =>
      rw [h] at hwaits
      cases hwaits
    | completed o ho hstate h =>
      rw [h] at hwaits
      cases hwaits
    | queued hm hid hstate hrelease =>
      rw [hid]
      exact hc.next
  · cases move_release hl h hr' with
    | kept h => exact hc.pending r' h hresource henvironment hpending
    | retired r hr hstate state hnew h | dismissed r hr hstate state hnew h =>
      rw [h] at hpending
      rcases hnew with rfl | rfl
      · cases hpending
      · cases hpending
    | converged r hr hm hstate hover h =>
      rw [h] at hpending
      cases hpending
    | asked hm hid hstate hat =>
      rw [hid]
      exact hc.next
    | published o ho hwaits revision at_ hm hrevision hat h =>
      rw [h] at hpending
      cases hpending

theorem move_converges (hl : l.Sound) (ht : l.Traced) (hc : l.Cleared requested stage)
    (h : l.move m = some l') {r' : Release} (hr' : r' ∈ l'.releases)
    (hresource : r'.resourceId = stage.1) (henvironment : r'.environment = stage.2)
    (hstate : r'.state = .converged) : r' ∈ l.releases ∨ requested ≤ requestOf l' r'.id := by
  cases move_release hl h hr' with
  | kept h => exact .inl h
  | retired r hr hwas state hnew h | dismissed r hr hwas state hnew h =>
    rw [h] at hstate
    rcases hnew with rfl | rfl
    · cases hstate
    · cases hstate
  | converged r hr hm hwas hover hconverged =>
    rw [hconverged] at hresource henvironment ⊢
    have hlt := hl.releases.below _ (List.mem_map_of_mem hr)
    rw [requestOf_move hl ht h hlt, requestOf_pending ht hr hwas]
    exact .inr (hc.pending r hr hresource henvironment hwas)
  | asked hm hid hpending hat =>
    rw [hpending] at hstate
    cases hstate
  | published o ho hwaits revision at_ hm hrevision hat hpublished =>
    subst hm
    rw [hpublished] at hresource henvironment ⊢
    refine .inr ?_
    have hrequest := requestOf_published hl ht ho h
    rw [Operation.published, hrequest]
    exact hc.waiting o ho hresource henvironment hwaits

theorem moves_converge (hl : l.Sound) (ht : l.Traced) (hc : l.Cleared requested stage)
    (h : moves l ms = some l') {r' : Release} (hr' : r' ∈ l'.releases)
    (hresource : r'.resourceId = stage.1) (henvironment : r'.environment = stage.2)
    (hstate : r'.state = .converged) : r' ∈ l.releases ∨ requested ≤ requestOf l' r'.id := by
  induction ms generalizing l with
  | nil =>
    obtain rfl := Option.some.inj h
    exact .inl hr'
  | cons m ms ih =>
    obtain ⟨mid, hmid, hrest⟩ := exec_cons_eq_some h
    have hsound := move_sound hl hmid
    have htraced := move_traced hl ht hmid
    rcases ih hsound htraced (move_cleared hl hc hmid) hrest with hold | hlater
    · rcases move_converges hl ht hc hmid hold hresource henvironment hstate with hwas | hlater
      · exact .inl hwas
      · have hlt := hsound.releases.below _ (List.mem_map_of_mem hold)
        rw [requestOf_moves hsound htraced hrest hlt]
        exact .inr hlater
    · exact .inr hlater

theorem moves_traced (hl : l.Sound) (ht : l.Traced) (h : moves l ms = some l') : l'.Traced := by
  have hboth : l'.Sound ∧ l'.Traced :=
    exec_invariant (I := fun l => l.Sound ∧ l.Traced)
      (fun _ _ _ hboth hm => ⟨move_sound hboth.1 hm, move_traced hboth.1 hboth.2 hm⟩) ⟨hl, ht⟩ h
  exact hboth.2

theorem moves_cleared (hl : l.Sound) (hc : l.Cleared requested stage) (h : moves l ms = some l') :
    l'.Cleared requested stage := by
  have hboth : l'.Sound ∧ l'.Cleared requested stage :=
    exec_invariant (I := fun l => l.Sound ∧ l.Cleared requested stage)
      (fun _ _ _ hboth hm => ⟨move_sound hboth.1 hm, move_cleared hboth.1 hboth.2 hm⟩) ⟨hl, hc⟩ h
  exact hboth.2

variable {app : App} {s : State}

theorem step_traced {s' : State} {e : Event} (hs : s.Sound) (ht : s.db.ledger.Traced)
    (h : step app s e = some s') : s'.db.ledger.Traced := by
  obtain ⟨ms, -, hmoves⟩ := step_moves hs h
  exact moves_traced hs.ledger ht hmoves

theorem initial_traced : State.initial.db.ledger.Traced := by
  refine ⟨fun o ho => ?_, fun o ho => ?_, fun o ho => ?_⟩
  · exact absurd ho List.not_mem_nil
  · exact absurd ho List.not_mem_nil
  · exact absurd ho List.not_mem_nil

theorem run_traced {s' : State} {events : List Event} (hs : s.Sound ∧ s.db.ledger.Traced)
    (h : run app s events = some s') : s'.Sound ∧ s'.db.ledger.Traced :=
  exec_invariant (I := fun s => s.Sound ∧ s.db.ledger.Traced)
    (fun _ _ _ hs h => ⟨step_sound hs.1 h, step_traced hs.1 hs.2 h⟩) hs h

theorem run_next {s' : State} {events : List Event} (hs : s.Sound) (h : run app s events = some s') :
    s.db.ledger.next ≤ s'.db.ledger.next := by
  induction events generalizing s with
  | nil =>
    cases h
    exact le_rfl
  | cons e events ih =>
    obtain ⟨mid, hmid, hrest⟩ := exec_cons_eq_some h
    obtain ⟨ms, -, hmoves⟩ := step_moves hs hmid
    exact (moves_next hmoves).trans (ih (step_sound hs hmid) hrest)

/-! ### Carrying a withdrawal out -/

/-- The stage that a step takes an API out of: that of a removal job which gets to its
transaction. -/
def removalAt (app : App) (s : State) : Event → Option Stage
  | .executeJob id leased => do
    let j ← jobOf s.db.ledger id
    match j.work with
    | .prune => none
    | .reconcile payload =>
      match payload.intent, reconcile app s.db payload leased with
      | .remove, .ok (some _) =>
        (jobEnvironment s.db payload).map fun environment => (payload.resourceId, environment)
      | _, _ => none
  | _ => none

/-- A release of the stage that is live after a step and was not before was asked for from the
number `requested` on. -/
def ConvergesAfter (requested : Nat) (stage : Stage) (s : State) (_ : Event) (s' : State) : Prop :=
  ∀ r' ∈ s'.db.ledger.releases, r'.resourceId = stage.1 → r'.environment = stage.2 →
    r'.state = .converged → r' ∉ s.db.ledger.releases → requested ≤ requestOf s'.db.ledger r'.id

theorem removalAt_eq_some {e : Event} (h : removalAt app s e = some stage) :
    ∃ id leased j payload after, e = .executeJob id leased ∧ jobOf s.db.ledger id = some j ∧
      j.work = .reconcile payload ∧ payload.intent = .remove ∧
      reconcile app s.db payload leased = .ok (some after) ∧ payload.resourceId = stage.1 ∧
      jobEnvironment s.db payload = some stage.2 := by
  unfold removalAt at h
  split at h
  next id leased =>
    obtain ⟨j, hj, hstage⟩ := Option.bind_eq_some_iff.mp h
    split at hstage
    · cases hstage
    next payload hwork =>
      split at hstage
      next after hintent hrun =>
        obtain ⟨environment, henvironment, rfl⟩ := Option.map_eq_some_iff.mp hstage
        exact ⟨id, leased, j, payload, after, rfl, hj, hwork, hintent, hrun, rfl, henvironment⟩
      next => cases hstage
  next => cases h

theorem step_removal {s' : State} {e : Event} (h : step app s e = some s')
    (hremoval : removalAt app s e = some stage) : s'.db = removeStage s.db stage := by
  obtain ⟨id, leased, j, payload, after, rfl, hj, hwork, hintent, hrun, hresource, henvironment⟩ :=
    removalAt_eq_some hremoval
  obtain ⟨row, hrow, -, rfl⟩ := step_executeJob h
  obtain rfl : row = j := by
    rw [hj] at hrow
    exact (Option.some.inj hrow).symm
  obtain ⟨environment, hfound, ⟨-, hafter⟩ | ⟨happly, -⟩⟩ := reconcile_ok hrun
  · have hexecuted : executeJob app s.db row leased = (after, true) := by
      simp only [executeJob, hwork, hrun]
    rw [henvironment] at hfound
    obtain rfl := Option.some.inj hfound
    dsimp only
    rw [hexecuted, hafter, hresource]
  · rw [hintent] at happly
    cases happly

theorem withdrawal_stands {app : App} {before middle later : List Event} {user : User}
    {stage : Stage} {job : JobId} {leased : Bool} {s₁ s₂ : State}
    (hbefore : run app State.initial before = some s₁)
    (hmiddle : run app s₁ (.withdraw user stage.1 stage.2 :: middle) = some s₂)
    (hcarried : removalAt app s₂ (.executeJob job leased) = some stage)
    (hwaits : ∀ o ∈ s₂.db.ledger.operations, o.resourceId = stage.1 → o.environment = stage.2 →
      o.waits = true → s₁.db.ledger.next ≤ o.id) :
    EveryStep (step app) (ConvergesAfter s₁.db.ledger.next stage) s₂
      (.executeJob job leased :: later) := by
  have h₁ := run_traced ⟨State.initial_sound, initial_traced⟩ hbefore
  have h₂ := run_traced h₁ hmiddle
  have hnext := run_next h₁.1 hmiddle
  intro s₃ hstep
  have hremoved := step_removal hstep hcarried
  have hreleases : s₃.db.ledger.releases = (((s₂.db.ledger.moveReleases stage .converged
      .withdrawn).moveReleases stage .pending .stale)).releases := by rw [hremoved]; rfl
  refine ⟨fun r' hr' hresource henvironment hstate hnew => ?_, ?_⟩
  · rw [hreleases] at hr'
    rcases mem_moveReleases hr' with ⟨hr, -⟩ | ⟨r, -, -, -, -, rfl⟩
    · rcases mem_moveReleases hr with ⟨hold, -⟩ | ⟨r, -, -, -, -, rfl⟩
      · exact absurd hold hnew
      · cases hstate
    · cases hstate
  · have hcleared : s₃.db.ledger.Cleared s₁.db.ledger.next stage := by
      obtain ⟨ms, -, hmoves⟩ := step_moves h₂.1 hstep
      refine ⟨hnext.trans (moves_next hmoves), ?_, fun r' hr' hresource henvironment hpending => ?_⟩
      · rw [hremoved]
        exact hwaits
      · rw [hreleases] at hr'
        rcases mem_moveReleases hr' with ⟨-, hleft⟩ | ⟨r, -, -, -, -, rfl⟩
        · exact absurd ⟨hresource, henvironment, hpending⟩ hleft
        · cases hpending
    have h₃ : s₃.Sound ∧ s₃.db.ledger.Traced :=
      ⟨step_sound h₂.1 hstep, step_traced h₂.1 h₂.2 hstep⟩
    refine everyStep_of_invariant
      (I := fun s => (s.Sound ∧ s.db.ledger.Traced) ∧
        s.db.ledger.Cleared s₁.db.ledger.next stage)
      (fun s e next hs h => ?_) (fun s e next hs h => ?_) ⟨h₃, hcleared⟩ later
    · obtain ⟨ms, -, hmoves⟩ := step_moves hs.1.1 h
      exact ⟨⟨step_sound hs.1.1 h, moves_traced hs.1.1.ledger hs.1.2 hmoves⟩,
        moves_cleared hs.1.1.ledger hs.2 hmoves⟩
    · obtain ⟨ms, -, hmoves⟩ := step_moves hs.1.1 h
      intro r' hr' hresource henvironment hstate hnew
      have hcases := moves_converge hs.1.1.ledger hs.1.2 hs.2 hmoves hr' hresource henvironment
        hstate
      exact hcases.resolve_left hnew

def pausedGateway : Estate :=
  { twoGateways with
    targets := [⟨1, "dev", "dev-gw", true⟩, ⟨2, "test", "test-gw", false⟩] }

/-- A publish that its gateway refused to take, and that will be tried again. -/
def publishWaits : List Event :=
  [.administer twoGateways, .publish developer publishPets "dev", .resume 0,
    .administer pausedGateway, .operation 5, .administer twoGateways]

def convergesEarlier (requested : Nat) (stage : Stage) (a b : State) : Bool :=
  b.db.ledger.releases.any fun r =>
    r.resourceId == stage.1 && r.environment == stage.2 && r.state == .converged &&
      !a.db.ledger.releases.contains r && decide (requestOf b.db.ledger r.id < requested)

theorem withdrawal_undone : ∃ s₁ s₂,
    run twoStages State.initial publishWaits = some s₁ ∧
    run twoStages s₁ [.withdraw developer 3 "dev", .startJob 6] = some s₂ ∧
    removalAt twoStages s₂ (.executeJob 6 false) = some (3, "dev") ∧
    ¬ EveryStep (step twoStages) (ConvergesAfter s₁.db.ledger.next (3, "dev")) s₂
        ([.executeJob 6 false, .wait 4000] ++ [.operation 5]) := by
  obtain ⟨s₁, s₂, hbefore, hmiddle, hseen⟩ := exec_observed (step twoStages) State.initial
    publishWaits [.withdraw developer 3 "dev", .startJob 6]
    (fun s₁ s₂ => decide (removalAt twoStages s₂ (.executeJob 6 false) = some (3, "dev")) &&
      (((exec (step twoStages) s₂ [.executeJob 6 false, .wait 4000]).bind fun a =>
        (step twoStages a (.operation 5)).map (convergesEarlier s₁.db.ledger.next (3, "dev") a)) ==
          some true))
    (by decide +kernel)
  simp only [Bool.and_eq_true, decide_eq_true_eq, beq_iff_eq] at hseen
  refine ⟨s₁, s₂, hbefore, hmiddle, hseen.1, ?_⟩
  refine not_everyStep_of_observed (convergesEarlier s₁.db.ledger.next (3, "dev"))
    (fun a b hbad hlater => ?_) hseen.2
  simp only [convergesEarlier, List.any_eq_true, Bool.and_eq_true, beq_iff_eq, Bool.not_eq_true',
    List.contains_eq_mem, decide_eq_false_iff_not, decide_eq_true_eq] at hbad
  obtain ⟨r, hr, ⟨⟨⟨hresource, henvironment⟩, hlive⟩, hnew⟩, hearlier⟩ := hbad
  exact absurd hearlier (Nat.not_lt.mpr (hlater r hr hresource henvironment hlive hnew))

theorem withdrawal_stands_released_again : ∃ s₁ s₂,
    run twoStages State.initial [.administer twoGateways, .publish developer publishPets "dev",
      .resume 0, .operation 5] = some s₁ ∧
    run twoStages s₁ [.withdraw developer 3 "dev", .startJob 7] = some s₂ ∧
    EveryStep (step twoStages) (ConvergesAfter s₁.db.ledger.next (3, "dev")) s₂
      (.executeJob 7 false :: [.finishJob 7, .release developer 3 ⟨none, "dev", none, false, ""⟩,
        .startJob 10, .executeJob 10 false]) := by
  obtain ⟨s₁, s₂, hbefore, hmiddle, hseen⟩ := exec_observed (step twoStages) State.initial
    [.administer twoGateways, .publish developer publishPets "dev", .resume 0, .operation 5]
    [.withdraw developer 3 "dev", .startJob 7]
    (fun s₁ s₂ => decide (removalAt twoStages s₂ (.executeJob 7 false) = some (3, "dev")) &&
      s₂.db.ledger.operations.all fun o => !o.waits) (by decide +kernel)
  simp only [Bool.and_eq_true, decide_eq_true_eq, List.all_eq_true, Bool.not_eq_true'] at hseen
  obtain ⟨hcarried, hnone⟩ := hseen
  refine ⟨s₁, s₂, hbefore, hmiddle, withdrawal_stands hbefore hmiddle hcarried ?_⟩
  intro o ho _ _ hwaits
  rw [hnone o ho] at hwaits
  cases hwaits

/-! ### What a removal job spares -/

/-- An execution of a removal job leaves alone the releases that were asked for after the job was
queued: none of them is withdrawn or stale that was not before, and a live one keeps its gateways
and what they have applied. -/
def SparesLater (s : State) (e : Event) (s' : State) : Prop :=
  ∀ id leased j payload, e = .executeJob id leased → jobOf s.db.ledger id = some j →
    j.work = .reconcile payload → payload.intent = .remove →
    ∀ r ∈ s.db.ledger.releases, id < requestOf s.db.ledger r.id →
      (∀ r' ∈ s'.db.ledger.releases, r'.id = r.id → r'.state = .withdrawn ∨ r'.state = .stale →
        r'.state = r.state) ∧
      (r.state = .converged →
        s'.db.live.routeGateway (r.resourceId, r.environment) =
          s.db.live.routeGateway (r.resourceId, r.environment) ∧
        ∀ a ∈ s.db.live.applied, a.resourceId = r.resourceId →
          (∃ t ∈ s.db.estate.targets, t.id = a.targetId ∧ t.environment = r.environment) →
          a ∈ s'.db.live.applied)

/-- Where a removal job gets to its transaction, each live or waiting release of its stage was asked
for before the job was queued. -/
def RemovesEarlierOnly (app : App) (s : State) (e : Event) : Prop :=
  ∀ id leased stage, e = .executeJob id leased → removalAt app s e = some stage →
    ∀ r ∈ s.db.ledger.releases, r.resourceId = stage.1 → r.environment = stage.2 →
      r.state = .converged ∨ r.state = .pending → requestOf s.db.ledger r.id ≤ id

theorem executeJob_idle {s' : State} {id : JobId} {leased : Bool} {j : Job}
    {payload : ReconcilePayload} (h : step app s (.executeJob id leased) = some s')
    (hj : jobOf s.db.ledger id = some j) (hwork : j.work = .reconcile payload)
    (hintent : payload.intent = .remove) (hidle : removalAt app s (.executeJob id leased) = none) :
    s'.db.live = s.db.live ∧ ∀ r' ∈ s'.db.ledger.releases,
      r' ∈ s.db.ledger.releases ∨ r'.state = .failed := by
  obtain ⟨row, hrow, -, rfl⟩ := step_executeJob h
  obtain rfl : row = j := by
    rw [hj] at hrow
    exact (Option.some.inj hrow).symm
  rcases executeJob_reconcile app s.db leased hwork with
    ⟨hrun, hdone⟩ | ⟨after, hrun, hdone⟩ | ⟨failure, hrun, hdone⟩
  · dsimp only
    rw [hdone]
    exact ⟨rfl, fun r' hr' => .inl hr'⟩
  · obtain ⟨environment, henvironment, -⟩ := reconcile_ok hrun
    have hsome : removalAt app s (.executeJob id leased) =
        some (payload.resourceId, environment) := by
      simp only [removalAt, hj, Option.bind_eq_bind, Option.bind_some, hwork, hintent, hrun,
        henvironment, Option.map_some]
    rw [hidle] at hsome
    cases hsome
  · dsimp only
    rw [hdone]
    refine ⟨rfl, fun r' hr' => ?_⟩
    dsimp only at hr'
    split at hr'
    · unfold failPending at hr'
      split at hr'
      · split at hr'
        · rcases mem_setRelease hr' with hold | ⟨r, -, -, rfl⟩
          · exact .inl hold
          · exact .inr rfl
        · exact .inl hr'
      · exact .inl hr'
    · exact .inl hr'

theorem sparesLater_step_iff {s' : State} {e : Event} (hs : s.Sound) (h : step app s e = some s') :
    SparesLater s e s' ↔ RemovesEarlierOnly app s e := by
  constructor
  · intro hspares id leased stage he hremoval r hr hresource henvironment hstate
    obtain ⟨id', leased', j, payload, after, he', hj, hwork, hintent, -⟩ :=
      removalAt_eq_some hremoval
    subst he
    cases he'
    have hdb := step_removal h hremoval
    by_contra hlater
    have hlate := Nat.lt_of_not_le hlater
    obtain ⟨hstates, -⟩ := hspares id leased j payload rfl hj hwork hintent r hr hlate
    rcases hstate with hlive | hpending
    · have hmoved : { r with state := .withdrawn } ∈ s'.db.ledger.releases := by
        rw [hdb]
        refine List.mem_map.mpr ⟨{ r with state := .withdrawn }, List.mem_map.mpr ⟨r, hr, ?_⟩, ?_⟩
        · exact if_pos ⟨hresource, henvironment, hlive⟩
        · exact if_neg fun hmoved => by cases hmoved.2.2
      have hsame := hstates _ hmoved rfl (.inl rfl)
      rw [hlive] at hsame
      cases hsame
    · have hmoved : { r with state := .stale } ∈ s'.db.ledger.releases := by
        rw [hdb]
        refine List.mem_map.mpr ⟨r, List.mem_map.mpr ⟨r, hr, ?_⟩, ?_⟩
        · exact if_neg fun hmoved => by rw [hpending] at hmoved; cases hmoved.2.2
        · exact if_pos ⟨hresource, henvironment, hpending⟩
      have hsame := hstates _ hmoved rfl (.inr rfl)
      rw [hpending] at hsame
      cases hsame
  · intro hearlier id leased j payload he hj hwork hintent r hr hlate
    subst he
    have huniq : ∀ r₀ ∈ s.db.ledger.releases, r₀.id = r.id → r₀ = r := fun r₀ hr₀ hid =>
      hs.ledger.releases.key_injective hr₀ hr hid
    cases hremoval : removalAt app s (.executeJob id leased) with
    | none =>
      obtain ⟨hlive, hkept⟩ := executeJob_idle h hj hwork hintent hremoval
      rw [hlive]
      refine ⟨fun r' hr' hid hstate => ?_, fun _ => ⟨rfl, fun a ha _ _ => ha⟩⟩
      rcases hkept r' hr' with hold | hfailed
      · rw [huniq r' hold hid]
      · rw [hfailed] at hstate
        rcases hstate with hbad | hbad
        · cases hbad
        · cases hbad
    | some stage =>
      have hdb := step_removal h hremoval
      have houtside : r.state = .converged ∨ r.state = .pending →
          ¬ (r.resourceId = stage.1 ∧ r.environment = stage.2) := by
        intro hstate hstage
        have hle := hearlier id leased stage rfl hremoval r hr hstage.1 hstage.2 hstate
        exact absurd hlate (Nat.not_lt.mpr hle)
      rw [hdb]
      refine ⟨fun r' hr' hid hstate => ?_, fun hlive => ⟨?_, fun a ha hresource hin => ?_⟩⟩
      · rcases mem_moveReleases hr' with ⟨hr', -⟩ | ⟨r₀, hr₀, hresource, henvironment, hpending, rfl⟩
        · rcases mem_moveReleases hr' with ⟨hold, -⟩ | ⟨r₀, hr₀, hresource, henvironment, hlive, rfl⟩
          · rw [huniq r' hold hid]
          · obtain rfl := huniq r₀ hr₀ hid
            exact absurd ⟨hresource, henvironment⟩ (houtside (.inl hlive))
        · rcases mem_moveReleases hr₀ with ⟨hold, -⟩ | ⟨r₁, -, -, -, -, rfl⟩
          · obtain rfl := huniq r₀ hold hid
            exact absurd ⟨hresource, henvironment⟩ (houtside (.inr hpending))
          · cases hpending
      · have hne : (r.resourceId, r.environment) ≠ stage := by
          rintro rfl
          exact houtside (.inl hlive) ⟨rfl, rfl⟩
        exact Function.update_of_ne hne _ _
      · refine List.mem_filter.mpr ⟨ha, ?_⟩
        simp only [Bool.not_eq_true', Bool.and_eq_false_iff, beq_eq_false_iff_ne]
        by_contra hgone
        push Not at hgone
        obtain ⟨hstage, hany⟩ := hgone
        have htarget := Bool.eq_true_of_not_eq_false hany
        simp only [List.any_eq_true, Bool.and_eq_true, beq_iff_eq] at htarget
        obtain ⟨t₁, ht₁, hid₁, henvironment₁⟩ := htarget
        obtain ⟨t₂, ht₂, hid₂, henvironment₂⟩ := hin
        -- a gateway's number names one gateway, so the stage is the release's own
        obtain rfl := List.inj_on_of_nodup_map hs.targets ht₁ ht₂ (hid₁.trans hid₂.symm)
        exact houtside (.inl hlive)
          ⟨hresource.symm.trans hstage, henvironment₂.symm.trans henvironment₁⟩

theorem sparesLater_iff (app : App) (events : List Event) :
    EveryStep (step app) SparesLater State.initial events ↔
      EveryStep (step app) (fun s e _ => RemovesEarlierOnly app s e) State.initial events :=
  everyStep_congr_of_invariant (I := State.Sound) (fun _ _ _ hs h => step_sound hs h)
    (fun _ _ _ hs h => sparesLater_step_iff hs h) State.initial_sound events

/-- The API is withdrawn while its gateway is paused, so that the job has to wait, and released
again meanwhile. -/
def releasedMeanwhile : List Event :=
  [.administer twoGateways, .publish developer publishPets "dev", .resume 0, .operation 5,
    .administer pausedGateway, .withdraw developer 3 "dev", .startJob 7, .executeJob 7 false,
    .administer twoGateways, .release developer 3 ⟨none, "dev", none, false, ""⟩, .startJob 10,
    .executeJob 10 false, .wait 2000, .startJob 7]

theorem removal_withdraws_later : ¬ EveryStep (step twoStages) SparesLater State.initial
    (releasedMeanwhile ++ [.executeJob 7 false]) := by
  refine not_everyStep_of_observed (fun a b =>
    ((jobOf a.db.ledger 7).any fun j => decide (j.work = .reconcile
      ⟨1, 3, none, none, .remove, some "dev"⟩)) &&
    a.db.ledger.releases.any fun r => decide (7 < requestOf a.db.ledger r.id) &&
      r.state == .converged &&
      b.db.ledger.releases.any fun r' => r'.id == r.id && r'.state == .withdrawn)
    (fun a b hseen hspares => ?_) (by decide +kernel)
  simp only [Bool.and_eq_true, Option.any_eq_true, decide_eq_true_eq, List.any_eq_true,
    beq_iff_eq] at hseen
  obtain ⟨⟨j, hj, hwork⟩, r, hr, ⟨hlate, hlive⟩, r', hr', hid, hwithdrawn⟩ := hseen
  obtain ⟨hstates, -⟩ := hspares 7 false j _ rfl hj hwork rfl r hr hlate
  have hsame := hstates r' hr' hid (.inl hwithdrawn)
  rw [hwithdrawn, hlive] at hsame
  cases hsame

end Apim.ControlPlane
