import Apim.ControlPlane.Retention

/-!
# The rollback target

The live release of a stage is the newest that reached the fleet there, and a rollback returns to
the newest of another revision. A retention pass keeps the newest two releases of each stage; where
both are of one revision (every configure adds a release), the rollback target is not among them.
`keepsRollback_of_protected` is the law under the condition that something else still protects it.
-/

namespace Apim.ControlPlane
open Overlay Policy Trace Table

/-! ### The releases that reached the fleet in a stage -/

/-- The release numbered `id` reached the fleet in the stage, and is of the revision `rev`. -/
def Ledger.Reached (l : Ledger) (stage : Stage) (id : ReleaseId) (rev : RevisionId) : Prop :=
  ∃ r ∈ l.releases, r.resourceId = stage.1 ∧ r.environment = stage.2 ∧
    r.state.reachedFleet = true ∧ r.id = id ∧ r.revisionId = rev

def Release.stage (r : Release) : Stage := (r.resourceId, r.environment)

structure Ledger.RollbackTarget (l : Ledger) (stage : Stage) (live : RevisionId)
    (id : ReleaseId) (rev : RevisionId) : Prop where
  reached : l.Reached stage id rev
  other : rev ≠ live
  newest : ∀ id' rev', l.Reached stage id' rev' → rev' ≠ live → id' ≤ id

structure Ledger.Rollable (l : Ledger) : Prop where
  newest : ∀ live ∈ l.releases, live.state = .converged →
    ∀ id rev, l.Reached live.stage id rev → id ≤ live.id
  target : ∀ live ∈ l.releases, live.state = .converged →
    ∀ id rev, l.RollbackTarget live.stage live.revisionId id rev → l.Unpruned rev

variable {l : Ledger}

theorem reached_of_converged {r : Release} (hr : r ∈ l.releases) (hlive : r.state = .converged) :
    l.Reached r.stage r.id r.revisionId :=
  ⟨r, hr, rfl, rfl, by rw [hlive]; rfl, rfl, rfl⟩

/-! ### What a move does to them -/

def Move.makesLive (l : Ledger) : Move → Option (Stage × RevisionId × ReleaseId)
  | .publish id _ _ => (operationOf l id).map fun o =>
    ((o.resourceId, o.environment), o.input.revisionId, l.next)
  | .converge stage id => (releaseOf l id).map fun r => (stage, r.revisionId, id)
  | _ => none

variable {m : Move} {stage : Stage} {id : ReleaseId} {rev : RevisionId}

theorem reached_move {l' : Ledger} (hl : l.Sound) (h : l.move m = some l')
    (hstays : m ≠ .deleteResource stage.1) (hreached : l.Reached stage id rev) :
    l'.Reached stage id rev := by
  obtain ⟨r, hr, hresource, henvironment, hstate, hid, hrev⟩ := hreached
  have hsame : r ∈ l'.releases → l'.Reached stage id rev := fun hin =>
    ⟨r, hin, hresource, henvironment, hstate, hid, hrev⟩
  have hmoved : ∀ state : ReleaseState, state.reachedFleet = true →
      { r with state := state } ∈ l'.releases → l'.Reached stage id rev := fun state hreach hin =>
    ⟨_, hin, hresource, henvironment, hreach, hid, hrev⟩
  cases m with
  | publish oid revision at_ =>
    obtain ⟨o, -, -, -, -, rfl⟩ := move_publish h
    by_cases hlive : r.resourceId = o.resourceId ∧ r.environment = o.environment ∧
        r.state = .converged
    · exact hmoved .superseded rfl (List.mem_append_left _
        (List.mem_map.mpr ⟨r, hr, if_pos hlive⟩))
    · exact hsame (List.mem_append_left _ (List.mem_map.mpr ⟨r, hr, if_neg hlive⟩))
  | addRelease row =>
    simp only [Ledger.move, Option.ite_none_right_eq_some, Option.some.injEq] at h
    obtain ⟨-, rfl⟩ := h
    exact hsame (List.mem_append_left _ hr)
  | dismiss rid state =>
    simp only [Ledger.move, Option.ite_none_right_eq_some, Option.some.injEq] at h
    obtain ⟨⟨hpending, -⟩, rfl⟩ := h
    by_cases hthis : r.id = rid
    · rw [(releaseOf_eq_some hl).mpr ⟨hr, hthis⟩] at hpending
      have hbad : r.state = .pending := by simpa using hpending
      rw [hbad] at hstate
      cases hstate
    · exact hsame (List.mem_map.mpr ⟨r, hr, if_neg hthis⟩)
  | converge stage' rid =>
    simp only [Ledger.move, Option.ite_none_right_eq_some, Option.some.injEq] at h
    obtain ⟨-, rfl⟩ := h
    by_cases hthis : r.id = rid
    · exact hmoved .converged rfl (List.mem_map.mpr ⟨r, hr, if_pos hthis⟩)
    · by_cases hlive : r.resourceId = stage'.1 ∧ r.environment = stage'.2 ∧ r.state = .converged
      · refine hmoved .superseded rfl (List.mem_map.mpr ⟨r, hr, ?_⟩)
        rw [if_neg hthis, if_pos hlive]
      · refine hsame (List.mem_map.mpr ⟨r, hr, ?_⟩)
        rw [if_neg hthis, if_neg hlive]
  | remove stage' =>
    obtain rfl := Option.some.inj h
    have hnot : ¬ (r.resourceId = stage'.1 ∧ r.environment = stage'.2 ∧ r.state = .pending) := by
      rintro ⟨-, -, hbad⟩
      rw [hbad] at hstate
      cases hstate
    by_cases hlive : r.resourceId = stage'.1 ∧ r.environment = stage'.2 ∧ r.state = .converged
    · refine hmoved .withdrawn rfl (List.mem_map.mpr ⟨{ r with state := .withdrawn },
        List.mem_map.mpr ⟨r, hr, if_pos hlive⟩, if_neg ?_⟩)
      exact fun hbad => by cases hbad.2.2
    · exact hsame (List.mem_map.mpr ⟨r, List.mem_map.mpr ⟨r, hr, if_neg hlive⟩, if_neg hnot⟩)
  | deleteResource rid =>
    obtain rfl := Option.some.inj h
    refine hsame (List.mem_filter.mpr ⟨hr, ?_⟩)
    have hne : r.resourceId ≠ rid := by
      intro heq
      exact hstays (congrArg Move.deleteResource (heq.symm.trans hresource))
    simpa using hne
  | storeArtifact digest =>
    obtain rfl := Option.some.inj h
    refine hsame ?_
    unfold Ledger.storeArtifact
    split
    · exact hr
    · exact hr
  | enqueueJob work key at_ =>
    simp only [Ledger.move, Option.ite_none_right_eq_some, Option.some.injEq] at h
    obtain ⟨-, rfl⟩ := h
    refine hsame ?_
    unfold Ledger.enqueueJob
    split
    · exact hr
    · exact hr
  | prune options at_ =>
    obtain rfl := Option.some.inj h
    refine hsame ?_
    unfold Ledger.pruneOldRows
    rw [(pruneRevisions_ids _ _ _).2.2.1]
    exact hr
  | freeze | addPlan | complete =>
    obtain rfl := Option.some.inj h
    exact hsame hr
  | number | addRevision | correct | addOperation | retry | updateJobs =>
    simp only [Ledger.move, Option.ite_none_right_eq_some, Option.some.injEq] at h
    obtain ⟨-, rfl⟩ := h
    exact hsame hr

theorem reached_of_move {l' : Ledger} (hl : l.Sound) (h : l.move m = some l')
    (hreached : l'.Reached stage id rev) :
    l.Reached stage id rev ∨ m.makesLive l = some (stage, rev, id) := by
  obtain ⟨r', hr', hresource, henvironment, hstate, hid, hrev⟩ := hreached
  cases move_release hl h hr' with
  | kept hr => exact .inl ⟨r', hr, hresource, henvironment, hstate, hid, hrev⟩
  | retired r hr hwas state hnew heq =>
    rw [heq] at hresource henvironment hid hrev
    exact .inl ⟨r, hr, hresource, henvironment, by rw [hwas]; rfl, hid, hrev⟩
  | dismissed r hr hwas state hnew heq =>
    rw [heq] at hstate
    rcases hnew with rfl | rfl
    · cases hstate
    · cases hstate
  | converged r hr hm hwas hover heq =>
    rw [heq] at hresource henvironment hid hrev
    refine .inr ?_
    have hof := (releaseOf_eq_some hl).mpr ⟨hr, rfl⟩
    rw [hm, Move.makesLive, hof, ← hid, ← hrev]
    simp only [Option.map_some]
    rw [show (r.resourceId, r.environment) = stage from Prod.ext hresource henvironment]
  | asked hm hnew hpending hat =>
    rw [hpending] at hstate
    cases hstate
  | published o ho hwaits revision at_ hm hrevision hat heq =>
    rw [heq] at hresource henvironment hid hrev
    refine .inr ?_
    have hof := (operationOf_eq_some hl).mpr ⟨ho, rfl⟩
    rw [hm, Move.makesLive, hof, ← hid, ← hrev]
    simp only [Option.map_some, Operation.published]
    rw [show (o.resourceId, o.environment) = stage from Prod.ext hresource henvironment]

theorem live_of_makesLive {l' : Ledger} (hl : l.Sound) (h : l.move m = some l')
    (hmakes : m.makesLive l = some (stage, rev, id)) {live : Release} (hin : live ∈ l'.releases)
    (hstage : live.stage = stage) (hlive : live.state = .converged) :
    live.id = id ∧ live.revisionId = rev := by
  cases m with
  | publish oid revision at_ =>
    obtain ⟨o, ho, -, -, -, rfl⟩ := move_publish h
    simp only [Move.makesLive, ho, Option.map_some, Option.some.injEq, Prod.mk.injEq] at hmakes
    obtain ⟨rfl, rfl, rfl⟩ := hmakes
    rcases List.mem_append.mp hin with hold | hnew
    · obtain ⟨hresource, henvironment⟩ := Prod.ext_iff.mp hstage
      rcases mem_moveReleases hold with ⟨-, hleft⟩ | ⟨r, -, -, -, -, rfl⟩
      · exact absurd ⟨hresource, henvironment, hlive⟩ hleft
      · cases hlive
    · rw [List.mem_singleton.mp hnew]
      exact ⟨rfl, rfl⟩
  | converge stage' rid =>
    simp only [Ledger.move, Option.ite_none_right_eq_some, Option.some.injEq] at h
    obtain ⟨-, rfl⟩ := h
    obtain ⟨r, hr, hvalue⟩ := Option.map_eq_some_iff.mp hmakes
    obtain ⟨rfl, rfl, rfl⟩ : stage' = stage ∧ r.revisionId = rev ∧ rid = id := by
      simpa only [Prod.mk.injEq] using hvalue
    obtain ⟨row, hrow, rfl⟩ := List.mem_map.mp hin
    by_cases hthis : row.id = rid
    · rw [if_pos hthis]
      obtain ⟨hmem, hid⟩ := (releaseOf_eq_some hl).mp hr
      obtain rfl := hl.releases.key_injective hrow hmem (hthis.trans hid.symm)
      exact ⟨hthis, rfl⟩
    · rw [if_neg hthis] at hlive hstage
      split at hlive
      · cases hlive
      next hleft =>
        rw [if_neg hleft] at hstage
        obtain ⟨hresource, henvironment⟩ := Prod.ext_iff.mp hstage
        exact absurd ⟨hresource, henvironment, hlive⟩ hleft
  | _ => cases hmakes

theorem reached_le_makesLive {l' : Ledger} (hl : l.Sound) (h : l.move m = some l')
    (hmakes : m.makesLive l = some (stage, rev, id)) {id' : ReleaseId} {rev' : RevisionId}
    (hreached : l.Reached stage id' rev') : id' ≤ id := by
  obtain ⟨r, hr, hresource, henvironment, hstate, rfl, rfl⟩ := hreached
  cases m with
  | publish oid revision at_ =>
    obtain ⟨o, -, hvalue⟩ := Option.map_eq_some_iff.mp hmakes
    obtain ⟨-, -, rfl⟩ : (o.resourceId, o.environment) = stage ∧ o.input.revisionId = rev ∧
        l.next = id := by simpa only [Prod.mk.injEq] using hvalue
    exact Nat.le_of_lt (hl.releases.below _ (List.mem_map_of_mem hr))
  | converge stage' rid =>
    simp only [Ledger.move, Option.ite_none_right_eq_some, Option.some.injEq] at h
    obtain ⟨hguard, -⟩ := h
    obtain ⟨row, hrow, hvalue⟩ := Option.map_eq_some_iff.mp hmakes
    obtain ⟨rfl, -, rfl⟩ : stage' = stage ∧ row.revisionId = rev ∧ rid = id := by
      simpa only [Prod.mk.injEq] using hvalue
    rw [Ledger.convergeable, hrow] at hguard
    simp only [Option.any_some, Bool.and_eq_true, Bool.not_eq_true'] at hguard
    by_contra hlate
    have hover : overtaken l stage' rid = true := by
      refine List.any_eq_true.mpr ⟨r, hr, ?_⟩
      simp [hresource, henvironment, hstate, Nat.lt_of_not_le hlate]
    rw [hguard.2] at hover
    cases hover
  | _ => cases hmakes

/-! ### What keeps the rollback target -/

structure Move.KeepsTarget (l : Ledger) (m : Move) : Prop where
  pass : ∀ options at_, m = .prune options at_ → ∀ live ∈ l.releases, live.state = .converged →
    ∀ id rev, l.RollbackTarget live.stage live.revisionId id rev →
      ∀ r ∈ l.revisions, r.id = rev → l.prunable options r = false
  fresh : ∀ stage rev id, m.makesLive l = some (stage, rev, id) →
    (∀ r ∈ l.releases, r.stage = stage → r.state ≠ .converged) →
      ∀ id' rev', l.RollbackTarget stage rev id' rev' → l.Unpruned rev'

theorem target_of_makesLive (hl : l.Sound) (hs : l.Served) (hroll : l.Rollable)
    (hkeeps : m.KeepsTarget l) (hmakes : m.makesLive l = some (stage, rev, id)) {id' : ReleaseId}
    {rev' : RevisionId} (htarget : l.RollbackTarget stage rev id' rev') : l.Unpruned rev' := by
  by_cases hlive : ∃ old ∈ l.releases, old.stage = stage ∧ old.state = .converged
  · obtain ⟨old, hold, rfl, hstate⟩ := hlive
    by_cases hsame : old.revisionId = rev
    · rw [← hsame] at htarget
      exact hroll.target old hold hstate id' rev' htarget
    · have hreached := reached_of_converged hold hstate
      have hle := htarget.newest old.id old.revisionId hreached hsame
      have hge := hroll.newest old hold hstate id' rev' htarget.reached
      obtain ⟨r, hr, -, -, -, hid, rfl⟩ := htarget.reached
      obtain rfl := hl.releases.key_injective hr hold (hid.trans (Nat.le_antisymm hge hle))
      exact hs.releases r hold (.inr hstate)
  · refine hkeeps.fresh stage rev id hmakes (fun r hr hstage hstate => ?_) id' rev' htarget
    exact hlive ⟨r, hr, hstage, hstate⟩

theorem move_rollable {l' : Ledger} (hl : l.Sound) (hs : l.Served) (hroll : l.Rollable)
    (hkeeps : m.KeepsTarget l) (h : l.move m = some l') : l'.Rollable := by
  have hstays : ∀ live ∈ l'.releases, m ≠ .deleteResource live.stage.1 := by
    rintro live hin rfl
    obtain rfl := Option.some.inj h
    have hgone := (List.mem_filter.mp hin).2
    simp [Release.stage] at hgone
  have hcases : ∀ live ∈ l'.releases, live.state = .converged →
      m.makesLive l = some (live.stage, live.revisionId, live.id) ∨
        live ∈ l.releases ∧ ∀ rev id, m.makesLive l ≠ some (live.stage, rev, id) := by
    intro live hin hstate
    by_cases hmakes : ∃ rev id, m.makesLive l = some (live.stage, rev, id)
    · obtain ⟨rev, id, hmakes⟩ := hmakes
      obtain ⟨rfl, rfl⟩ := live_of_makesLive hl h hmakes hin rfl hstate
      exact .inl hmakes
    · have hnone : ∀ rev id, m.makesLive l ≠ some (live.stage, rev, id) := fun rev id heq =>
        hmakes ⟨rev, id, heq⟩
      refine .inr ⟨?_, hnone⟩
      cases move_release hl h hin with
      | kept hr => exact hr
      | retired r hr hwas state hnew heq | dismissed r hr hwas state hnew heq =>
        rw [heq] at hstate
        rcases hnew with rfl | rfl
        · cases hstate
        · cases hstate
      | converged r hr hm hwas hover heq =>
        refine absurd ?_ (hnone r.revisionId r.id)
        rw [hm, Move.makesLive, (releaseOf_eq_some hl).mpr ⟨hr, rfl⟩, heq]
        rfl
      | asked hm hid hpending hat =>
        rw [hpending] at hstate
        cases hstate
      | published o ho hwaits revision at_ hm hrevision hat heq =>
        refine absurd ?_ (hnone o.input.revisionId l.next)
        rw [hm, Move.makesLive, (operationOf_eq_some hl).mpr ⟨ho, rfl⟩, heq]
        rfl
  refine ⟨fun live hin hstate id rev hreached => ?_, fun live hin hstate id rev htarget => ?_⟩
  · rcases hcases live hin hstate with hmakes | ⟨hold, hnone⟩
    · rcases reached_of_move hl h hreached with hwas | hnew
      · exact reached_le_makesLive hl h hmakes hwas
      · rw [hmakes] at hnew
        simp only [Option.some.injEq, Prod.mk.injEq] at hnew
        exact hnew.2.2.ge
    · have hwas := (reached_of_move hl h hreached).resolve_right (hnone rev id)
      exact hroll.newest live hold hstate id rev hwas
  · have hforward : ∀ id' rev', l.Reached live.stage id' rev' → rev' ≠ live.revisionId →
        id' ≤ id := fun id' rev' hwas hother =>
      htarget.newest id' rev' (reached_move hl h (hstays live hin) hwas) hother
    rcases hcases live hin hstate with hmakes | ⟨hold, hnone⟩
    · have hwas : l.Reached live.stage id rev := by
        refine (reached_of_move hl h htarget.reached).resolve_right fun hnew => ?_
        rw [hmakes] at hnew
        simp only [Option.some.injEq, Prod.mk.injEq] at hnew
        exact htarget.other hnew.2.1.symm
      have hunpruned := target_of_makesLive hl hs hroll hkeeps hmakes
        ⟨hwas, htarget.other, hforward⟩
      refine unpruned_move h hunpruned fun options at_ hm => ?_
      rw [hm] at hmakes
      cases hmakes
    · have hwas := (reached_of_move hl h htarget.reached).resolve_right (hnone rev id)
      have hbefore : l.RollbackTarget live.stage live.revisionId id rev :=
        ⟨hwas, htarget.other, hforward⟩
      refine unpruned_move h (hroll.target live hold hstate id rev hbefore) ?_
      exact fun options at_ hm r hr hid => hkeeps.pass options at_ hm live hold hstate id rev
        hbefore r hr hid

theorem moves_rollable {l' : Ledger} {ms : List Move} (hl : l.Sound) (hs : l.Served)
    (hroll : l.Rollable)
    (hmeets : EveryStep Ledger.move (fun l m _ => m.Whole l ∧ m.KeepsTarget l) l ms)
    (h : moves l ms = some l') : l'.Rollable := by
  have hall : l'.Sound ∧ l'.Served ∧ l'.Rollable :=
    exec_invariant_of_guarded (I := fun l => l.Sound ∧ l.Served ∧ l.Rollable)
      (fun _ _ _ hI hm h => ⟨move_sound hI.1 h, move_served hI.1 hI.2.1 hm.1 h,
        move_rollable hI.1 hI.2.1 hI.2.2 hm.2 h⟩) ⟨hl, hs, hroll⟩ hmeets h
  exact hall.2.2

/-! ### Runs -/

def Ledger.Protected (l : Ledger) (options : RetentionOptions) (r : Revision) : Prop :=
  (l.rank r ≤ options.keepCount ∧ options.ageCutoff ≤ r.createdAt) ∨
    l.keptByRelease r.id = true ∨ l.keptByPlan options r.id = true ∨
      l.keptByOperation r.id = true

theorem not_prunable_of_protected {options : RetentionOptions} {r : Revision}
    (h : l.Protected options r) : l.prunable options r = false := by
  rcases h with ⟨hrank, hage⟩ | hrelease | hplan | hoperation
  · have hcount : ¬ options.keepCount < l.rank r := Nat.not_lt.mpr hrank
    have hyoung : ¬ r.createdAt < options.ageCutoff := Nat.not_lt.mpr hage
    simp [Ledger.prunable, hcount, hyoung]
  · simp [Ledger.prunable, hrelease]
  · simp [Ledger.prunable, hplan]
  · simp [Ledger.prunable, hoperation]

def passAt (app : App) (s : State) : Event → Option RetentionOptions
  | .executeJob id _ => do
    let j ← jobOf s.db.ledger id
    if j.work = .prune then some (retentionOptions app.config s.db.clock) else none
  | _ => none

def makesLive (app : App) (s : State) : Event → Option (Stage × RevisionId)
  | .operation id => do
    let o ← operationOf s.db.ledger id
    match applyOperation app s.db o with
    | .ok (some _) => some ((o.resourceId, o.environment), o.input.revisionId)
    | _ => none
  | .executeJob id leased => do
    let j ← jobOf s.db.ledger id
    match j.work with
    | .prune => none
    | .reconcile payload =>
      match payload.intent, reconcile app s.db payload leased with
      | .apply, .ok (some _) => do
        let environment ← jobEnvironment s.db payload
        let release ← payload.releaseId.bind (releaseOf s.db.ledger)
        if overtaken s.db.ledger (payload.resourceId, environment) release.id then none
        else some ((payload.resourceId, environment), release.revisionId)
      | _, _ => none
  | _ => none

/-- No step takes up a tombstone, a retention pass finds every rollback target protected, and where
a release becomes live in a stage that has none, its rollback target has not been pruned. -/
structure KeepsRollback (app : App) (s : State) (e : Event) : Prop where
  content : TakesUpContent s e
  pass : ∀ options, passAt app s e = some options →
    ∀ live ∈ s.db.ledger.releases, live.state = .converged →
      ∀ id rev, s.db.ledger.RollbackTarget live.stage live.revisionId id rev →
        ∀ r ∈ s.db.ledger.revisions, r.id = rev → s.db.ledger.Protected options r
  fresh : ∀ stage rev, makesLive app s e = some (stage, rev) →
    (∀ r ∈ s.db.ledger.releases, r.stage = stage → r.state ≠ .converged) →
      ∀ id rev', s.db.ledger.RollbackTarget stage rev id rev' → s.db.ledger.Unpruned rev'

/-- What is live or waits, and what a rollback would return to, has its content. -/
structure Ledger.KeepsRevisions (l : Ledger) : Prop where
  releases : ∀ release ∈ l.releases, release.state = .converged ∨ release.state = .pending →
    ∀ r ∈ l.revisions, r.id = release.revisionId → r.prunedAt = none ∧ l.HasContent r
  targets : ∀ live ∈ l.releases, live.state = .converged →
    ∀ id rev, l.RollbackTarget live.stage live.revisionId id rev →
      ∀ r ∈ l.revisions, r.id = rev → r.prunedAt = none ∧ l.HasContent r
  operations : ∀ o ∈ l.operations, o.waits = true ∨ o.state = .waitingForGateways →
    ∀ r ∈ l.revisions, r.id = o.input.revisionId → r.prunedAt = none ∧ l.HasContent r

theorem keepsTarget_of_other (hprune : ∀ options at_, m ≠ .prune options at_)
    (hmakes : m.makesLive l = none) : m.KeepsTarget l := by
  refine ⟨fun options at_ hm => absurd hm (hprune options at_), fun stage rev id hsome => ?_⟩
  rw [hmakes] at hsome
  cases hsome

theorem writeMoves_mem {id : ResourceId} {definition : Definition} {at_ : Nat}
    (hm : m ∈ l.writeMoves id definition at_) :
    (∃ digest, m = .storeArtifact digest) ∨ ∃ row, m = .addRevision row := by
  unfold Ledger.writeMoves at hm
  dsimp only at hm
  split at hm
  · cases hm
  · rcases List.mem_pair.mp hm with rfl | rfl
    · exact .inl ⟨_, rfl⟩
    · exact .inr ⟨_, rfl⟩

theorem LedgerWork.keepsTarget {app : App} {s : State} {e : Event} {ms : List Move}
    (hwork : LedgerWork app s e ms) (hkeeps : KeepsRollback app s e) :
    EveryStep Ledger.move (fun l m _ => m.KeepsTarget l) s.db.ledger ms := by
  have hwrite : ∀ {l : Ledger} {id : ResourceId} {definition : Definition} {at_ : Nat} {m : Move},
      m ∈ l.writeMoves id definition at_ → ∀ l', m.KeepsTarget l' := by
    intro l id definition at_ m hm l'
    rcases writeMoves_mem hm with ⟨digest, rfl⟩ | ⟨row, rfl⟩
    · exact keepsTarget_of_other nofun rfl
    · exact keepsTarget_of_other nofun rfl
  have hqueue : ∀ {l : Ledger} {row : OperationId → Operation} {at_ : Nat} {m : Move},
      m ∈ queueMoves l row at_ → ∀ l', m.KeepsTarget l' := by
    intro l row at_ m hm l'
    rcases List.mem_pair.mp hm with rfl | rfl
    · exact keepsTarget_of_other nofun rfl
    · exact keepsTarget_of_other nofun rfl
  cases hwork with
  | nothing => trivial
  | @prune id leased j hj hjob =>
    refine fun _ _ => ⟨⟨fun options at_ hm live hin hstate rid rev htarget r hr hid => ?_, ?_⟩,
      trivial⟩
    · obtain ⟨rfl, -⟩ := Move.prune.inj hm
      refine not_prunable_of_protected (hkeeps.pass _ ?_ live hin hstate rid rev htarget r hr hid)
      simp only [passAt, hj, Option.bind_eq_bind, Option.bind_some, hjob, if_true]
    · exact fun stage rev id hmakes => by cases hmakes
  | @applied id o revision db' ho hdue happlied hrevision =>
    refine fun _ _ => ⟨⟨nofun, fun stage rev rid hmakes hnone id' rev' htarget => ?_⟩, trivial⟩
    simp only [Move.makesLive, ho, Option.map_some, Option.some.injEq, Prod.mk.injEq] at hmakes
    obtain ⟨rfl, rfl, -⟩ := hmakes
    refine hkeeps.fresh _ _ ?_ hnone id' rev' htarget
    simp only [makesLive, ho, Option.bind_eq_bind, Option.bind_some, happlied]
  | @converged id leased j payload environment release db' hj hjob hintent henvironment hrun
      hrelease hover =>
    refine fun _ _ => ⟨⟨nofun, fun stage rev rid hmakes hnone id' rev' htarget => ?_⟩, trivial⟩
    obtain ⟨rid', hrid', hfound⟩ := Option.bind_eq_some_iff.mp hrelease
    have hid : release.id = rid' := by simpa using List.find?_some hfound
    rw [← hid] at hfound
    simp only [Move.makesLive, hfound, Option.map_some, Option.some.injEq, Prod.mk.injEq] at hmakes
    obtain ⟨rfl, rfl, -⟩ := hmakes
    refine hkeeps.fresh _ _ ?_ hnone id' rev' htarget
    simp only [makesLive, hj, Option.bind_eq_bind, Option.bind_some, hjob, hintent, hrun,
      henvironment, hrelease, hover, Bool.false_eq_true, if_false]
  | publish hrequest hcommit hsource =>
    refine everyStep_of_events fun m hm l _ => ?_
    rcases List.mem_cons.mp hm with rfl | hm
    · exact keepsTarget_of_other nofun rfl
    · rcases List.mem_append.mp hm with hm | hm
      · exact hwrite hm l
      · exact hqueue hm l
  | @configure index user body read config hrequest hcommit =>
    refine everyStep_of_events fun m hm l _ => ?_
    rcases List.mem_append.mp hm with hm | hm
    · unfold configureMoves at hm
      split at hm
      · exact hwrite hm l
      · cases hm
    · exact hqueue hm l
  | promote => exact everyStep_of_events fun m hm l _ => hqueue hm l
  | createRevision => exact everyStep_of_events fun m hm l _ => hwrite hm l
  | release planId hrevision hplanned htarget =>
    refine everyStep_of_events fun m hm l _ => ?_
    rcases List.mem_append.mp hm with hm | hm
    · rcases hplanned with ⟨rfl, -⟩ | ⟨plan, rfl, -⟩
      · cases hm
      · obtain rfl := List.mem_singleton.mp hm
        exact keepsTarget_of_other nofun rfl
    · simp only [List.mem_cons, List.not_mem_nil, or_false] at hm
      rcases hm with rfl | rfl | rfl
      · exact keepsTarget_of_other nofun rfl
      · exact keepsTarget_of_other nofun rfl
      · exact keepsTarget_of_other nofun rfl
  | announceDelete user id =>
    refine everyStep_of_events fun m hm l _ => ?_
    obtain ⟨target, -, rfl⟩ := List.mem_map.mp hm
    exact keepsTarget_of_other nofun rfl
  | dismissed release state hbefore =>
    refine everyStep_of_events fun m hm l _ => ?_
    rcases List.mem_append.mp hm with hm | hm
    · rcases hbefore with rfl | ⟨f, rfl⟩
      · cases hm
      · obtain rfl := List.mem_singleton.mp hm
        exact keepsTarget_of_other nofun rfl
    · obtain rfl := List.mem_singleton.mp hm
      exact keepsTarget_of_other nofun rfl
  | correctRevision | createVersion =>
    refine everyStep_of_events fun m hm l _ => ?_
    rcases List.mem_pair.mp hm with rfl | rfl
    · exact keepsTarget_of_other nofun rfl
    · exact keepsTarget_of_other nofun rfl
  | dryRun | withdraw | delete | failed | complete | startJob | finishJob | requeueJobs
  | enqueuePrune | administer | removed | threw =>
    exact fun _ _ => ⟨keepsTarget_of_other nofun rfl, trivial⟩

theorem step_rollable {app : App} {s s' : State} {e : Event} (hs : s.Sound)
    (hserved : s.db.ledger.Served) (hroll : s.db.ledger.Rollable) (hkeeps : KeepsRollback app s e)
    (h : step app s e = some s') : s'.db.ledger.Rollable := by
  obtain ⟨ms, hwork, hmoves⟩ := step_moves hs h
  have hwhole := hwork.whole hs hserved hkeeps.content
  exact moves_rollable hs.ledger hserved hroll (hwhole.and (hwork.keepsTarget hkeeps)) hmoves

theorem initial_rollable : State.initial.db.ledger.Rollable := by
  refine ⟨fun r hr => ?_, fun r hr => ?_⟩
  · exact absurd hr List.not_mem_nil
  · exact absurd hr List.not_mem_nil

theorem keepsRevisions_of_rollable (hserved : l.Served) (hroll : l.Rollable) : l.KeepsRevisions := by
  have hwhole : ∀ rev, l.Unpruned rev → ∀ r ∈ l.revisions, r.id = rev →
      r.prunedAt = none ∧ l.HasContent r := fun rev hrev r hr hid =>
    ⟨hrev r hr hid, hserved.content r hr (hrev r hr hid)⟩
  refine ⟨fun release hin hstate => ?_, fun live hin hstate id rev htarget => ?_,
    fun o ho hstate => ?_⟩
  · exact hwhole _ (hserved.releases release hin hstate.symm)
  · exact hwhole _ (hroll.target live hin hstate id rev htarget)
  · refine hwhole _ (hserved.operations o ho ?_)
    rcases hstate with hwaits | hstate
    · exact Operation.unfinished_of_waits hwaits
    · rw [Operation.unfinished, hstate]
      rfl

theorem keepsRevisions_of_keepsRollback {app : App} {events : List Event}
    (h : EveryStep (step app) (fun s e _ => KeepsRollback app s e) State.initial events) :
    EveryStep (step app) (fun _ _ s' => s'.db.ledger.KeepsRevisions) State.initial events := by
  refine everyStep_of_guarded
    (I := fun s => s.Sound ∧ s.db.ledger.Served ∧ s.db.ledger.Rollable)
    (fun s e s' hs hkeeps hstep => ?_)
    ⟨State.initial_sound, initial_served, initial_rollable⟩ h
  obtain ⟨hsound, hserved, hroll⟩ := hs
  have hserved' := step_served hsound hserved hkeeps.content hstep
  have hroll' := step_rollable hsound hserved hroll hkeeps hstep
  exact ⟨⟨step_sound hsound hstep, hserved', hroll'⟩, keepsRevisions_of_rollable hserved' hroll'⟩

/-! ### A pass over three releases -/

def finalDefinition : Definition := ⟨"pets final", "pets final", "sha256:final", "", "[]", by decide⟩

def releaseLatest : ReleaseRequest := ⟨none, "dev", none, false, ""⟩

def releasedTwice : List Event :=
  [.administer twoGateways, .publish developer publishPets "dev", .resume 0, .operation 5,
    .createRevision developer 3 draftDefinition, .release developer 3 releaseLatest, .startJob 10,
    .executeJob 10 false, .finishJob 10, .wait 1,
    .createRevision developer 3 finalDefinition, .release developer 3 releaseLatest, .startJob 14,
    .executeJob 14 false, .finishJob 14, .wait 1,
    .release developer 3 releaseLatest, .startJob 17, .executeJob 17 false, .finishJob 17]

def passAfter (milliseconds : Nat) : List Event :=
  [.wait milliseconds, .enqueuePrune 0, .startJob 18]

theorem keepsRevisions_within_the_year : EveryStep (step twoStages)
    (fun _ _ s' => s'.db.ledger.KeepsRevisions) State.initial
    (releasedTwice ++ passAfter 86400000 ++ [.executeJob 18 false]) := by
  refine keepsRevisions_of_keepsRollback (everyStep_of_passes (fun s e =>
    s.db.ledger.revisions.all (fun r => r.prunedAt.isNone &&
      (passAt twoStages s e).all fun options => decide (s.db.ledger.rank r ≤ options.keepCount) &&
        decide (options.ageCutoff ≤ r.createdAt)))
    (fun s e _ hseen => ?_) (by decide +kernel))
  simp only [List.all_eq_true, Bool.and_eq_true, Option.all_eq_true, decide_eq_true_eq] at hseen
  have hunpruned : ∀ rev, s.db.ledger.Unpruned rev := fun rev r hr _ => by
    simpa using (hseen r hr).1
  exact ⟨fun id _ => hunpruned id,
    fun options hpass live _ _ id rev _ r hr _ => .inl ((hseen r hr).2 options hpass),
    fun stage rev _ _ id rev' _ => hunpruned rev'⟩

theorem rollback_target_pruned : ¬ EveryStep (step twoStages)
    (fun _ _ s' => s'.db.ledger.KeepsRevisions) State.initial
    (releasedTwice ++ passAfter (366 * 86400000) ++ [.executeJob 18 false]) := by
  refine not_everyStep_of_observed (fun _ b =>
    (b.db.ledger.releases.any fun r => decide (r.id = 16 ∧ r.stage = (3, "dev") ∧
      r.revisionId = 11 ∧ r.state = .converged)) &&
    (b.db.ledger.releases.any fun r => decide (r.resourceId = 3 ∧ r.environment = "dev" ∧
      r.state.reachedFleet = true ∧ r.id = 9 ∧ r.revisionId = 7)) &&
    (b.db.ledger.releases.all fun r => decide (r.revisionId ≠ 11 → r.id ≤ 9)) &&
    b.db.ledger.revisions.any fun r => decide (r.id = 7 ∧ r.prunedAt ≠ none))
    (fun a b hseen hkeeps => ?_) (by decide +kernel)
  simp only [Bool.and_eq_true, List.any_eq_true, List.all_eq_true, decide_eq_true_eq] at hseen
  obtain ⟨⟨⟨⟨live, hlive, -, hstage, hrev, hstate⟩, old, hold, hresource, henvironment, hreached,
    holdId, holdRev⟩, hnewest⟩, r, hr, hid, hpruned⟩ := hseen
  have htarget : b.db.ledger.RollbackTarget live.stage live.revisionId 9 7 := by
    rw [hstage, hrev]
    refine ⟨⟨old, hold, hresource, henvironment, hreached, holdId, holdRev⟩, by decide, ?_⟩
    rintro id rev ⟨other, hother, -, -, -, rfl, rfl⟩ hne
    exact hnewest other hother hne
  exact hpruned (hkeeps.targets live hlive hstate 9 7 htarget r hr hid).1

end Apim.ControlPlane
