import Apim.ControlPlane.Replay

/-!
# What a retention pass must not take

A pruned revision keeps its row, with empty texts and the instant it was pruned. Whatever is served
or is about to be must not be one (`Served`). The pass itself keeps to that: it looks at releases,
plans and operations before it takes a revision. What it cannot see is a tombstone that a later
write takes up again (`takesUp`), and `servesContent_of_takesUp` shows that there is nothing else to
see to.
-/

namespace Apim.ControlPlane
open Overlay Policy Trace Table

/-! ### The life of a revision -/

def Ledger.Unpruned (l : Ledger) (id : RevisionId) : Prop :=
  ∀ r ∈ l.revisions, r.id = id → r.prunedAt = none

def Ledger.HasContent (l : Ledger) (r : Revision) : Prop :=
  r.model ≠ "" ∧ (r.artifactDigest = "" ∨ r.artifactDigest ∈ l.artifacts)

inductive RevisionStep (l : Ledger) (m : Move) (r' : Revision) : Prop where
  | kept (h : r' ∈ l.revisions) (hprune : ∀ options at_, m = .prune options at_ →
      r'.prunedAt = none → l.prunable options r' = false)
  | frozen (r : Revision) (hr : r ∈ l.revisions) (frozenAt : Option Nat)
      (h : r' = { r with frozenAt := frozenAt })
  | corrected (r : Revision) (hr : r ∈ l.revisions) (definition : Definition)
      (hstored : definition.artifactDigest = "" ∨ definition.artifactDigest ∈ l.artifacts)
      (h : r' = corrected definition r)
  | added (hm : m = .addRevision r') (hid : r'.id = l.next) (hpruned : r'.prunedAt = none)
  | pruned (r : Revision) (hr : r ∈ l.revisions) (options : RetentionOptions) (at_ : Nat)
      (hm : m = .prune options at_) (hprunable : l.prunable options r = true)
      (h : r' = Ledger.tombstone at_ r)

theorem prunable_pruneOldRows (l : Ledger) (options : RetentionOptions) (r : Revision) :
    Ledger.prunable { l with
        jobs := l.jobs.filter fun j =>
          !((j.state == .done || j.state == .failed) && j.updatedAt < options.planCutoff)
        plans := l.plans.filter fun p =>
          !(p.computedAt < options.planCutoff && !l.releases.any fun r => r.planId == some p.id) }
      options r = l.prunable options r := by
  have hplan : (l.plans.filter fun p => !(p.computedAt < options.planCutoff &&
      !l.releases.any fun r => r.planId == some p.id)).any (fun p =>
        p.plan.revisionId == r.id && options.planCutoff ≤ p.computedAt) =
      l.plans.any fun p => p.plan.revisionId == r.id && options.planCutoff ≤ p.computedAt := by
    rw [List.any_filter]
    congr 1
    funext p
    by_cases hold : p.computedAt < options.planCutoff
    · have hnot : ¬ options.planCutoff ≤ p.computedAt := by omega
      simp [hnot]
    · simp [hold]
  unfold Ledger.prunable Ledger.keptByPlan
  dsimp only
  rw [hplan]
  rfl

variable {l : Ledger} {id : RevisionId} {m : Move}

theorem freeze_revisions {at_ : Nat} {r' : Revision} (hm : ∀ options at', m ≠ .prune options at')
    (h : r' ∈ (l.freeze id at_).revisions) : RevisionStep l m r' := by
  obtain ⟨r, hr, rfl⟩ := List.mem_map.mp h
  by_cases hid : r.id = id
  · rw [if_pos hid]
    exact .frozen r hr _ rfl
  · rw [if_neg hid]
    exact .kept hr fun options at' heq => absurd heq (hm options at')

theorem move_revision {l' : Ledger} (h : l.move m = some l') {r' : Revision}
    (hr' : r' ∈ l'.revisions) : RevisionStep l m r' := by
  cases m with
  | addRevision row =>
    simp only [Ledger.move, Option.ite_none_right_eq_some, Option.some.injEq] at h
    obtain ⟨⟨hid, hpruned⟩, rfl⟩ := h
    rcases List.mem_append.mp hr' with hold | hnew
    · exact .kept hold nofun
    · obtain rfl := List.mem_singleton.mp hnew
      exact .added rfl hid hpruned
  | freeze id at_ =>
    obtain rfl := Option.some.inj h
    exact freeze_revisions nofun hr'
  | publish id revision at_ =>
    obtain ⟨o, -, -, -, -, rfl⟩ := move_publish h
    obtain ⟨r, hr, rfl⟩ := List.mem_map.mp hr'
    by_cases hid : r.id = o.input.revisionId
    · rw [if_pos hid]
      exact .frozen r hr _ rfl
    · rw [if_neg hid]
      exact .kept hr nofun
  | correct id readDigest definition =>
    simp only [Ledger.move, Option.ite_none_right_eq_some, Option.some.injEq] at h
    obtain ⟨hstored, rfl⟩ := h
    obtain ⟨r, hr, rfl⟩ := List.mem_map.mp hr'
    split
    · exact .corrected r hr definition hstored rfl
    · exact .kept hr nofun
  | prune options at_ =>
    obtain rfl := Option.some.inj h
    unfold Ledger.pruneOldRows Ledger.pruneRevisions at hr'
    have hsame := prunable_pruneOldRows l options
    split at hr'
    · obtain ⟨r, hr, rfl⟩ := List.mem_map.mp hr'
      rw [hsame]
      split
      next hprunable => exact .pruned r hr options at_ rfl hprunable rfl
      next hkept =>
        refine .kept hr fun options' at' heq _ => ?_
        obtain ⟨rfl, -⟩ := Move.prune.inj heq
        exact Bool.eq_false_iff.mpr hkept
    next hnone =>
      refine .kept hr' fun options' at' heq _ => ?_
      obtain ⟨rfl, -⟩ := Move.prune.inj heq
      by_contra htake
      refine hnone (List.any_eq_true.mpr ⟨r', hr', ?_⟩)
      rw [hsame]
      exact Bool.eq_true_of_not_eq_false htake
  | storeArtifact digest =>
    obtain rfl := Option.some.inj h
    unfold Ledger.storeArtifact at hr'
    split at hr'
    · exact .kept hr' nofun
    · exact .kept hr' nofun
  | enqueueJob work key at_ =>
    simp only [Ledger.move, Option.ite_none_right_eq_some, Option.some.injEq] at h
    obtain ⟨-, rfl⟩ := h
    unfold Ledger.enqueueJob at hr'
    split at hr'
    · exact .kept hr' nofun
    · exact .kept hr' nofun
  | deleteResource id =>
    obtain rfl := Option.some.inj h
    exact .kept (List.mem_of_mem_filter hr') nofun
  | remove | addPlan | complete =>
    obtain rfl := Option.some.inj h
    exact .kept hr' nofun
  | number | addOperation | retry | addRelease | dismiss | converge | updateJobs =>
    simp only [Ledger.move, Option.ite_none_right_eq_some, Option.some.injEq] at h
    obtain ⟨-, rfl⟩ := h
    exact .kept hr' nofun

theorem move_artifact {l' : Ledger} (h : l.move m = some l') {digest : String}
    (hdigest : digest ∈ l.artifacts) :
    digest ∈ l'.artifacts ∨ ∃ options at_, m = .prune options at_ ∧
      ∀ r' ∈ l'.revisions, r'.prunedAt = none → r'.artifactDigest = digest → digest = "" := by
  cases m with
  | prune options at_ =>
    obtain rfl := Option.some.inj h
    by_cases hin : digest ∈ (l.pruneOldRows options at_).artifacts
    · exact .inl hin
    · refine .inr ⟨options, at_, rfl, fun r' hr' hpruned hname => ?_⟩
      by_contra hne
      refine hin ?_
      unfold Ledger.pruneOldRows Ledger.pruneRevisions at hr' ⊢
      split
      next hany =>
        rw [if_pos hany] at hr'
        refine List.mem_filter.mpr ⟨hdigest, List.any_eq_true.mpr ⟨r', hr', ?_⟩⟩
        simp [hpruned, hname, hne]
      next => exact hdigest
  | storeArtifact stored =>
    obtain rfl := Option.some.inj h
    unfold Ledger.storeArtifact
    split
    · exact .inl hdigest
    · exact .inl (List.mem_append_left _ hdigest)
  | enqueueJob work key at_ =>
    simp only [Ledger.move, Option.ite_none_right_eq_some, Option.some.injEq] at h
    obtain ⟨-, rfl⟩ := h
    unfold Ledger.enqueueJob
    split
    · exact .inl hdigest
    · exact .inl hdigest
  | publish id revision at_ =>
    obtain ⟨o, -, -, -, -, rfl⟩ := move_publish h
    exact .inl hdigest
  | freeze | remove | addPlan | complete | deleteResource =>
    obtain rfl := Option.some.inj h
    exact .inl hdigest
  | number | addRevision | correct | addOperation | retry | addRelease | dismiss | converge
  | updateJobs =>
    simp only [Ledger.move, Option.ite_none_right_eq_some, Option.some.injEq] at h
    obtain ⟨-, rfl⟩ := h
    exact .inl hdigest

theorem unpruned_move {l' : Ledger} (h : l.move m = some l') (hid : l.Unpruned id)
    (hkept : ∀ options at_, m = .prune options at_ → ∀ r ∈ l.revisions, r.id = id →
      l.prunable options r = false) : l'.Unpruned id := by
  intro r' hr' hr'id
  cases move_revision h hr' with
  | kept h => exact hid r' h hr'id
  | frozen r hr frozenAt h =>
    rw [h] at hr'id ⊢
    exact hid r hr hr'id
  | corrected r hr definition hstored h =>
    rw [h] at hr'id ⊢
    exact hid r hr hr'id
  | added hm hnew hpruned => exact hpruned
  | pruned r hr options at_ hm hprunable h =>
    rw [h] at hr'id
    have hfree := hkept options at_ hm r hr hr'id
    rw [hprunable] at hfree
    cases hfree

/-! ### What is served, or is about to be, has its content -/

structure Ledger.Served (l : Ledger) : Prop where
  content : ∀ r ∈ l.revisions, r.prunedAt = none → l.HasContent r
  operations : ∀ o ∈ l.operations, o.unfinished = true → l.Unpruned o.input.revisionId
  releases : ∀ r ∈ l.releases, r.state = .pending ∨ r.state = .converged →
    l.Unpruned r.revisionId

def Move.Whole (l : Ledger) : Move → Prop
  | .addRevision row => l.HasContent row
  | .addOperation row => l.Unpruned row.input.revisionId
  | .addRelease row => l.Unpruned row.revisionId
  | _ => True

variable {r : Revision}

theorem not_prunable_of_operation {options : RetentionOptions} {o : Operation}
    (ho : o ∈ l.operations) (hunfinished : o.unfinished = true) (hr : r.id = o.input.revisionId) :
    l.prunable options r = false := by
  have hkept : l.keptByOperation r.id = true := by
    refine List.any_eq_true.mpr ⟨o, ho, ?_⟩
    rw [hr, hunfinished, beq_self_eq_true]
    rfl
  simp [Ledger.prunable, hkept]

theorem not_prunable_of_release {options : RetentionOptions} {release : Release}
    (hrelease : release ∈ l.releases)
    (hstate : release.state = .pending ∨ release.state = .converged)
    (hr : r.id = release.revisionId) : l.prunable options r = false := by
  have hkept : l.keptByRelease r.id = true := by
    refine List.any_eq_true.mpr ⟨release, hrelease, ?_⟩
    rw [hr, beq_self_eq_true]
    rcases hstate with hstate | hstate
    · simp [Ledger.releaseKeeps, hstate]
    · simp [Ledger.releaseKeeps, hstate]
  simp [Ledger.prunable, hkept]

theorem Operation.unfinished_of_waits {o : Operation} (h : o.waits = true) :
    o.unfinished = true := by
  simp only [Operation.waits, Bool.or_eq_true, beq_iff_eq] at h
  rcases h with (h | h) | h
  · simp [Operation.unfinished, h]
  · simp [Operation.unfinished, h]
  · simp [Operation.unfinished, h]

theorem move_content {l' : Ledger} (hs : l.Served) (hwhole : m.Whole l) (h : l.move m = some l') :
    ∀ r' ∈ l'.revisions, r'.prunedAt = none → l'.HasContent r' := by
  intro r' hr' hpruned
  have hartifact : ∀ digest, digest ∈ l.artifacts → r'.artifactDigest = digest →
      digest = "" ∨ digest ∈ l'.artifacts := by
    intro digest hin hname
    rcases move_artifact h hin with hkept | ⟨options, at_, -, hlost⟩
    · exact .inr hkept
    · exact .inl (hlost r' hr' hpruned hname)
  have hstored : r'.artifactDigest = "" ∨ r'.artifactDigest ∈ l.artifacts →
      r'.artifactDigest = "" ∨ r'.artifactDigest ∈ l'.artifacts := by
    rintro (hempty | hin)
    · exact .inl hempty
    · exact hartifact _ hin rfl
  cases move_revision h hr' with
  | kept hr hprune =>
    obtain ⟨hmodel, hdigest⟩ := hs.content r' hr hpruned
    exact ⟨hmodel, hstored hdigest⟩
  | frozen r hr frozenAt heq =>
    have hwas : r.prunedAt = none := by
      rw [heq] at hpruned
      exact hpruned
    obtain ⟨hmodel, hdigest⟩ := hs.content r hr hwas
    refine ⟨?_, hstored ?_⟩
    · rw [heq]
      exact hmodel
    · rw [heq]
      exact hdigest
  | corrected r hr definition hdigest heq =>
    refine ⟨?_, hstored ?_⟩
    · rw [heq]
      exact definition.model_ne
    · rw [heq]
      exact hdigest
  | added hm hid hnew =>
    subst hm
    obtain ⟨hmodel, hdigest⟩ := hwhole
    exact ⟨hmodel, hstored hdigest⟩
  | pruned r hr options at_ hm hprunable heq =>
    rw [heq] at hpruned
    cases hpruned

theorem move_served {l' : Ledger} (hl : l.Sound) (hs : l.Served) (hwhole : m.Whole l)
    (h : l.move m = some l') : l'.Served := by
  refine ⟨move_content hs hwhole h, fun o' ho' hunfinished => ?_, fun r' hr' hstate => ?_⟩
  · have hfrom : ∀ o ∈ l.operations, o.unfinished = true →
        o.input.revisionId = o'.input.revisionId → l'.Unpruned o'.input.revisionId := by
      intro o ho hwas hsame
      refine unpruned_move h (hsame ▸ hs.operations o ho hwas) fun options at_ _ r hr hid => ?_
      exact not_prunable_of_operation ho hwas (hid.trans hsame.symm)
    cases move_operation hl h ho' with
    | kept ho => exact hfrom o' ho hunfinished rfl
    | retried o ho hwaits at_ heq =>
      exact hfrom o ho (Operation.unfinished_of_waits hwaits) (by rw [heq]; rfl)
    | applied o ho hwaits revision at_ hm heq =>
      exact hfrom o ho (Operation.unfinished_of_waits hwaits) (by rw [heq]; rfl)
    | completed o ho hstate heq =>
      rw [heq] at hunfinished
      cases hunfinished
    | queued hm hid hstate hrelease =>
      subst hm
      exact unpruned_move h hwhole nofun
  · cases move_release hl h hr' with
    | kept hr =>
      refine unpruned_move h (hs.releases r' hr hstate) fun options at_ _ r hrow hid => ?_
      exact not_prunable_of_release hr hstate hid
    | retired r hr hwas state hnew heq | dismissed r hr hwas state hnew heq =>
      rw [heq] at hstate
      rcases hnew with rfl | rfl
      · rcases hstate with hbad | hbad
        · cases hbad
        · cases hbad
      · rcases hstate with hbad | hbad
        · cases hbad
        · cases hbad
    | converged r hr hm hwas hover heq =>
      rw [heq]
      subst hm
      exact unpruned_move h (hs.releases r hr (.inl hwas)) nofun
    | asked hm hid hpending hat =>
      subst hm
      exact unpruned_move h hwhole nofun
    | published o ho hwaits revision at_ hm hrevision hat heq =>
      rw [heq]
      subst hm
      exact unpruned_move h (hs.operations o ho (Operation.unfinished_of_waits hwaits)) nofun

theorem moves_served {l' : Ledger} {ms : List Move} (hl : l.Sound) (hs : l.Served)
    (hwhole : EveryStep Ledger.move (fun l m _ => m.Whole l) l ms) (h : moves l ms = some l') :
    l'.Served := by
  have hboth : l'.Sound ∧ l'.Served :=
    exec_invariant_of_guarded (I := fun l => l.Sound ∧ l.Served)
      (fun _ _ _ hI hm h => ⟨move_sound hI.1 h, move_served hI.1 hI.2 hm h⟩) ⟨hl, hs⟩ hwhole h
  exact hboth.2

/-! ### What a step takes up again -/

def sameRevision (l : Ledger) (id : ResourceId) (definition : Definition) : Option RevisionId :=
  ((latestRevision l id).filter fun r => r.versionDigest == definition.versionDigest).map (·.id)

def takesUp (s : State) : Event → Option RevisionId
  | .resume index =>
    match s.requests[index]? with
    | some (.publish _ body _ _) =>
      body.source.bind fun definition => sameRevision s.db.ledger s.db.ledger.next definition
    | some (.configureSettled _ body read _) =>
      match body.source with
      | some definition => sameRevision s.db.ledger read.resource.id definition
      | none => some read.previous.revisionId
    | some (.promoteSettled _ _ read _) => some read.source.revisionId
    | _ => none
  | .createRevision _ id definition => sameRevision s.db.ledger id definition
  | .createVersion _ id _ _ _ => (latestRevision s.db.ledger id).map (·.id)
  | _ => none

def TakesUpContent (s : State) (e : Event) : Prop :=
  ∀ id, takesUp s e = some id → s.db.ledger.Unpruned id

theorem mem_of_foldl {α : Type} {step : Option α → α → Option α}
    (hstep : ∀ best row b, step best row = some b → b = row ∨ best = some b) {rows : List α}
    {best : Option α} {b : α} (h : rows.foldl step best = some b) : b ∈ rows ∨ best = some b := by
  induction rows generalizing best with
  | nil => exact .inr h
  | cons row rows ih =>
    rcases ih h with hrows | hbest
    · exact .inl (List.mem_cons_of_mem _ hrows)
    · rcases hstep _ _ _ hbest with rfl | hbefore
      · exact .inl List.mem_cons_self
      · exact .inr hbefore

theorem latestRevision_mem {id : ResourceId} (h : latestRevision l id = some r) :
    r ∈ l.revisions := by
  have hchosen := mem_of_foldl (fun best row b hb => by
    cases best with
    | none => exact .inl (Option.some.inj hb).symm
    | some was =>
      dsimp only at hb
      split at hb
      · exact .inl (Option.some.inj hb).symm
      · exact .inr hb) h
  rcases hchosen with hrow | hnone
  · exact List.mem_of_mem_filter hrow
  · cases hnone

theorem writeMoves_whole {id : ResourceId} {definition : Definition} (at_ : Nat) (hl : l.Sound)
    (hsame : ∀ rid, sameRevision l id definition = some rid → l.Unpruned rid) :
    EveryStep Ledger.move (fun l m _ => m.Whole l) l (l.writeMoves id definition at_) ∧
      (l.written id definition at_).1.Unpruned (l.written id definition at_).2 ∧
      (l.written id definition at_).2 ∈ (l.written id definition at_).1.revisions.map (·.id) := by
  unfold Ledger.writeMoves Ledger.written
  dsimp only
  cases hlatest : (latestRevision l id).filter fun r =>
      r.versionDigest == definition.versionDigest with
  | some same =>
    have hrid : sameRevision l id definition = some same.id := by
      rw [sameRevision, hlatest]
      rfl
    have hmem := latestRevision_mem (Option.filter_eq_some_iff.mp hlatest).1
    exact ⟨trivial, hsame _ hrid, List.mem_map_of_mem hmem⟩
  | none =>
    have hstored : definition.artifactDigest = "" ∨
        definition.artifactDigest ∈ (l.storeArtifact definition.artifactDigest).artifacts := by
      unfold Ledger.storeArtifact
      split
      next hthere => exact hthere
      next => exact .inr (List.mem_append_right _ List.mem_cons_self)
    have hrevisions : (l.storeArtifact definition.artifactDigest).revisions = l.revisions := by
      unfold Ledger.storeArtifact
      split <;> rfl
    refine ⟨fun mid hmid => ⟨trivial, ?_⟩, fun r hr hid => ?_, ?_⟩
    · obtain rfl := Option.some.inj hmid
      exact fun _ _ => ⟨⟨definition.model_ne, hstored⟩, trivial⟩
    · rcases List.mem_append.mp hr with hold | hnew
      · rw [hrevisions] at hold
        have hlt := hl.revisions.below _ (List.mem_map_of_mem hold)
        exact absurd hid (Nat.ne_of_lt hlt)
      · rw [List.mem_singleton.mp hnew]
        rfl
    · refine List.mem_map.mpr ⟨_, List.mem_append_right _ List.mem_cons_self, ?_⟩
      exact storeArtifact_next l definition.artifactDigest

theorem queueMoves_whole {row : OperationId → Operation} {at_ : Nat}
    (h : l.Unpruned (row l.next).input.revisionId) :
    EveryStep Ledger.move (fun l m _ => m.Whole l) l (queueMoves l row at_) :=
  fun _ _ => ⟨h, fun _ _ => ⟨trivial, trivial⟩⟩

theorem unpruned_of_mem (hl : l.Sound) (hr : r ∈ l.revisions) (hpruned : r.prunedAt = none) :
    l.Unpruned r.id := by
  intro r' hr' hid
  rw [hl.revisions.key_injective hr' hr hid]
  exact hpruned

theorem LedgerWork.whole {app : App} {s : State} {e : Event} {ms : List Move} (hs : s.Sound)
    (hserved : s.db.ledger.Served) (hwork : LedgerWork app s e ms) (htakes : TakesUpContent s e) :
    EveryStep Ledger.move (fun l m _ => m.Whole l) s.db.ledger ms := by
  cases hwork with
  | publish hrequest hcommit hsource =>
    have hnumber : s.db.ledger.move (.number (s.db.ledger.next + 1)) =
        some { s.db.ledger with next := s.db.ledger.next + 1 } := if_pos (Nat.le_succ _)
    have hl := move_sound hs.ledger hnumber
    intro next hnext
    obtain rfl : next = { s.db.ledger with next := s.db.ledger.next + 1 } := by
      rw [hnumber] at hnext
      exact (Option.some.inj hnext).symm
    refine ⟨trivial, ?_⟩
    obtain ⟨hwrite, hunpruned, -⟩ := writeMoves_whole s.db.clock hl fun rid hrid => by
      refine htakes rid ?_
      simp only [takesUp, hrequest, hsource, Option.bind_some]
      exact hrid
    exact hwrite.append (moves_write _ _ _ _) (queueMoves_whole hunpruned)
  | @configure index user body read config hrequest hcommit =>
    have hrevision : EveryStep Ledger.move (fun l m _ => m.Whole l) s.db.ledger
          (configureMoves s.db.ledger read.resource.id body s.db.clock) ∧
        (configureWritten s.db.ledger read.resource.id body read.previous s.db.clock).1.Unpruned
          (configureWritten s.db.ledger read.resource.id body read.previous s.db.clock).2 := by
      have htaken : ∀ rid, takesUp s (.resume index) = some rid → s.db.ledger.Unpruned rid := htakes
      simp only [takesUp, hrequest] at htaken
      unfold configureMoves configureWritten
      cases hsource : body.source with
      | some definition =>
        rw [hsource] at htaken
        obtain ⟨hwrite, hunpruned, -⟩ := writeMoves_whole s.db.clock hs.ledger htaken
        exact ⟨hwrite, hunpruned⟩
      | none =>
        rw [hsource] at htaken
        exact ⟨trivial, htaken _ rfl⟩
    exact hrevision.1.append (moves_configure _ _ _ _ _) (queueMoves_whole hrevision.2)
  | promote hrequest hcommit =>
    refine queueMoves_whole (htakes _ ?_)
    simp only [takesUp, hrequest]
    rfl
  | createRevision user id definition =>
    exact (writeMoves_whole s.db.clock hs.ledger htakes).1
  | @createVersion user id apiVersion copyPolicyFrom createRoutes source hsource =>
    have hmem := latestRevision_mem hsource
    have hunpruned := htakes source.id (by simp only [takesUp, hsource, Option.map_some])
    obtain ⟨hmodel, hdigest⟩ := hserved.content source hmem (hunpruned source hmem rfl)
    intro next hnext
    have hnumber : s.db.ledger.move (.number (s.db.ledger.next + 1)) =
        some { s.db.ledger with next := s.db.ledger.next + 1 } := if_pos (Nat.le_succ _)
    obtain rfl := Option.some.inj (hnumber.symm.trans hnext)
    exact ⟨trivial, fun _ _ => ⟨⟨hmodel, hdigest⟩, trivial⟩⟩
  | @release user id body revision planned next target planId hrevision hplanned htarget =>
    obtain ⟨hfound, hpruned⟩ := revisionFor_ok hrevision
    have hmem : revision ∈ s.db.ledger.revisions := by
      rcases hfound with ⟨n, -, hfind⟩ | ⟨-, hlatest⟩
      · exact List.mem_of_find?_eq_some hfind
      · exact latestRevision_mem hlatest
    have hunpruned := unpruned_of_mem hs.ledger hmem hpruned
    have hasked : ∀ l : Ledger, l.revisions = s.db.ledger.revisions →
        EveryStep Ledger.move (fun l m _ => m.Whole l) l
          [.addRelease (pendingRelease user (id, body.environment) revision planId s.db.clock next),
            .freeze revision.id s.db.clock,
            .enqueueJob (.reconcile (applyJob target.id (id, body.environment) next planId))
              (.apply target.id next) s.db.clock] := by
      intro l hrevisions
      refine fun _ _ => ⟨fun r hr hid => ?_, fun _ _ => ⟨trivial, fun _ _ => ⟨trivial, trivial⟩⟩⟩
      rw [hrevisions] at hr
      exact hunpruned r hr hid
    rcases hplanned with ⟨rfl, -⟩ | ⟨plan, rfl, -⟩
    · exact hasked s.db.ledger rfl
    · intro mid hmid
      obtain rfl := Option.some.inj hmid
      exact ⟨trivial, hasked _ rfl⟩
  | announceDelete user id =>
    refine everyStep_of_events fun m hm l l' => ?_
    obtain ⟨target, -, rfl⟩ := List.mem_map.mp hm
    trivial
  | dismissed release state hbefore =>
    refine everyStep_of_events fun m hm l l' => ?_
    rcases List.mem_append.mp hm with hm | hm
    · rcases hbefore with rfl | ⟨f, rfl⟩
      · cases hm
      · obtain rfl := List.mem_singleton.mp hm
        trivial
    · obtain rfl := List.mem_singleton.mp hm
      trivial
  | nothing => trivial
  | correctRevision => exact fun _ _ => ⟨trivial, fun _ _ => ⟨trivial, trivial⟩⟩
  | dryRun | withdraw | delete | applied | failed | complete | startJob | finishJob | requeueJobs
  | enqueuePrune | administer | prune | removed | converged | threw =>
    exact fun _ _ => ⟨trivial, trivial⟩

theorem step_served {app : App} {s s' : State} {e : Event} (hs : s.Sound)
    (hserved : s.db.ledger.Served) (htakes : TakesUpContent s e) (h : step app s e = some s') :
    s'.db.ledger.Served := by
  obtain ⟨ms, hwork, hmoves⟩ := step_moves hs h
  exact moves_served hs.ledger hserved (hwork.whole hs hserved htakes) hmoves

/-! ### Nothing pruned is put back into service -/

def answers (s : State) : Event → Option RevisionId
  | .resume index =>
    match s.requests[index]? with
    | some (.publish _ body _ _) => body.source.map fun definition =>
      ({ s.db.ledger with next := s.db.ledger.next + 1 }.written s.db.ledger.next definition
        s.db.clock).2
    | some (.configureSettled _ body read _) => body.source.map fun definition =>
      (s.db.ledger.written read.resource.id definition s.db.clock).2
    | _ => none
  | .createRevision _ id definition => some (s.db.ledger.written id definition s.db.clock).2
  | _ => none

/-- No operation is queued for a tombstone and none becomes live, the routes of every document have
their definitions and artifacts, and a definition is answered with a revision that has its
content. -/
structure ServesContent (app : App) (s : State) (e : Event) (s' : State) : Prop where
  queued : ∀ o ∈ s'.db.ledger.operations, o.state = .queued →
    (∀ was ∈ s.db.ledger.operations, was.id ≠ o.id) → s'.db.ledger.Unpruned o.input.revisionId
  live : ∀ r ∈ s'.db.ledger.releases, r.state = .converged → r ∉ s.db.ledger.releases →
    s'.db.ledger.Unpruned r.revisionId
  routes : ∀ environment targetId,
    ∀ route ∈ (buildRoutes app.platform s'.db environment targetId).1,
      ∃ r ∈ s'.db.ledger.revisions, r.id = route.revisionId ∧ r.prunedAt = none ∧
        s'.db.ledger.HasContent r
  answered : ∀ id, answers s e = some id → ∃ r ∈ s'.db.ledger.revisions, r.id = id ∧
    r.prunedAt = none ∧ s'.db.ledger.HasContent r

theorem route_revision {platform : Platform} {db : Database} {environment : Environment}
    {targetId : Option TargetId} {route : ConfigRoute}
    (h : route ∈ (buildRoutes platform db environment targetId).1) :
    ∃ release ∈ db.ledger.releases, release.state = .converged ∧
      ∃ r ∈ db.ledger.revisions, r.id = release.revisionId ∧ route.revisionId = r.id := by
  rw [mem_routes] at h
  obtain ⟨row, hrow, hrendered⟩ := h
  rw [mem_routeRows] at hrow
  obtain ⟨release, hrelease, hjoin⟩ := hrow
  unfold routeRow at hjoin
  split at hjoin
  next hlive =>
    simp only [Option.bind_eq_bind, Option.bind_eq_some_iff] at hjoin
    obtain ⟨resource, -, revision, hrevision, address, -, backend, -, hsome⟩ := hjoin
    have hid : revision.id = release.revisionId := by simpa using List.find?_some hrevision
    refine ⟨release, hrelease, hlive.2, revision, List.mem_of_find?_eq_some hrevision, hid, ?_⟩
    split at hsome
    · obtain rfl := Option.some.inj hsome
      unfold renderRow at hrendered
      dsimp only at hrendered
      split at hrendered
      · cases hrendered
      split at hrendered
      · cases hrendered
      obtain rfl := Except.ok.inj hrendered
      rfl
    · cases hsome
  next => cases hjoin

theorem queue_revision {db db' : Database} {user : User} {body : PublishInput}
    {applicationId : String} {stage : Stage} {kind : OperationKind} {snapshot : Snapshot}
    (h : queue db user body applicationId stage kind snapshot = .ok db')
    (hin : id ∈ db.ledger.revisions.map (·.id)) (hunpruned : db.ledger.Unpruned id) :
    ∃ r ∈ db'.ledger.revisions, r.id = id ∧ r.prunedAt = none := by
  obtain ⟨-, rfl⟩ := queue_ok h
  obtain ⟨r, hr, hid⟩ := List.mem_map.mp hin
  refine ⟨_, List.mem_map_of_mem hr, ?_, ?_⟩
  · split
    · exact hid
    · exact hid
  · split
    · exact hunpruned r hr hid
    · exact hunpruned r hr hid

theorem answered_revision {app : App} {s s' : State} {e : Event} (hs : s.Sound)
    (htakes : TakesUpContent s e) (h : step app s e = some s') (hid : answers s e = some id) :
    ∃ r ∈ s'.db.ledger.revisions, r.id = id ∧ r.prunedAt = none := by
  cases e with
  | resume index =>
    obtain ⟨request, hrequest, ⟨next, hnext, rfl⟩ | ⟨db, hdb, rfl⟩⟩ := step_resume h
    · rcases resumeRequest_settled hnext with ⟨user, body, read, config, rfl, -⟩ |
        ⟨user, body, read, config, rfl, -⟩
      · simp only [answers, hrequest] at hid
        cases hid
      · simp only [answers, hrequest] at hid
        cases hid
    · have htaken : ∀ rid, takesUp s (.resume index) = some rid → s.db.ledger.Unpruned rid := htakes
      rcases resumeRequest_committed hdb with ⟨user, body, environment, config, rfl, hcommit⟩ |
        ⟨user, body, read, config, rfl, hcommit⟩ | ⟨user, body, read, config, rfl, -⟩
      · obtain ⟨definition, taxonomy, hsource, -, hqueue⟩ := publishCommit_ok hcommit
        simp only [answers, hrequest, hsource, Option.map_some, Option.some.injEq] at hid
        simp only [takesUp, hrequest, hsource, Option.bind_some] at htaken
        obtain ⟨hledger, -⟩ := writeRevision_ledger { s.db with
          resources := s.db.resources ++ [body.resourceRow taxonomy s.db.clock s.db.ledger.next]
          ledger := { s.db.ledger with next := s.db.ledger.next + 1 } } s.db.ledger.next definition
        have hnumber : s.db.ledger.move (.number (s.db.ledger.next + 1)) =
            some { s.db.ledger with next := s.db.ledger.next + 1 } := if_pos (Nat.le_succ _)
        have hl := move_sound hs.ledger hnumber
        obtain ⟨-, hunpruned, hin⟩ := writeMoves_whole (l := { s.db.ledger with
          next := s.db.ledger.next + 1 }) s.db.clock hl htaken
        rw [hid] at hunpruned hin
        refine queue_revision hqueue ?_ ?_
        · rw [hledger]
          exact hin
        · rw [hledger]
          exact hunpruned
      · obtain ⟨taxonomy, -, -, hqueue⟩ := configureCommit_ok hcommit
        obtain ⟨definition, hsource, hanswer⟩ : ∃ definition, body.source = some definition ∧
            (s.db.ledger.written read.resource.id definition s.db.clock).2 = id := by
          simp only [answers, hrequest] at hid
          exact Option.map_eq_some_iff.mp hid
        simp only [takesUp, hrequest, hsource] at htaken
        obtain ⟨-, hunpruned, hin⟩ := writeMoves_whole s.db.clock hs.ledger htaken
        obtain ⟨hledger, -, -⟩ :=
          configureRevision_ledger s.db read.resource.id body read.previous
        have hwritten : configureWritten s.db.ledger read.resource.id body read.previous
            s.db.clock = s.db.ledger.written read.resource.id definition s.db.clock := by
          simp only [configureWritten, hsource]
        rw [hwritten] at hledger
        rw [hanswer] at hunpruned hin
        refine queue_revision hqueue ?_ ?_
        · dsimp only [reclassify]
          rw [hledger]
          exact hin
        · dsimp only [reclassify]
          rw [hledger]
          exact hunpruned
      · simp only [answers, hrequest] at hid
        cases hid
  | createRevision user resource definition =>
    obtain ⟨db, hdb, rfl⟩ := State.write_eq_some h
    obtain ⟨written, hwritten, rfl⟩ := map_eq_ok hdb
    obtain ⟨-, rfl⟩ := createRevision_ok hwritten
    obtain rfl := Option.some.inj hid
    obtain ⟨-, hunpruned, hin⟩ := writeMoves_whole s.db.clock hs.ledger htakes
    obtain ⟨r, hr, hrid⟩ := List.mem_map.mp hin
    refine ⟨r, ?_, hrid, hunpruned r hr hrid⟩
    rw [(writeRevision_ledger s.db resource definition).1]
    exact hr
  | _ => cases hid

theorem initial_served : State.initial.db.ledger.Served := by
  refine ⟨fun r hr => ?_, fun o ho => ?_, fun r hr => ?_⟩
  · exact absurd hr List.not_mem_nil
  · exact absurd ho List.not_mem_nil
  · exact absurd hr List.not_mem_nil

theorem step_servesContent {app : App} {s s' : State} {e : Event} (hs : s.Sound)
    (hserved : s.db.ledger.Served) (htakes : TakesUpContent s e) (h : step app s e = some s') :
    ServesContent app s e s' := by
  have hafter := step_served hs hserved htakes h
  refine ⟨fun o ho hstate _ => ?_, fun r hr hstate _ => ?_,
    fun environment targetId route hroute => ?_, fun id hid => ?_⟩
  · exact hafter.operations o ho (by rw [Operation.unfinished, hstate]; rfl)
  · exact hafter.releases r hr (.inr hstate)
  · obtain ⟨release, hrelease, hlive, r, hr, hid, hsame⟩ := route_revision hroute
    have hpruned := hafter.releases release hrelease (.inr hlive) r hr hid
    exact ⟨r, hr, hsame.symm, hpruned, hafter.content r hr hpruned⟩
  · obtain ⟨r, hr, hrid, hpruned⟩ := answered_revision hs htakes h hid
    exact ⟨r, hr, hrid, hpruned, hafter.content r hr hpruned⟩

theorem servesContent_of_takesUp {app : App} {events : List Event}
    (h : EveryStep (step app) (fun s e _ => TakesUpContent s e) State.initial events) :
    EveryStep (step app) (ServesContent app) State.initial events := by
  refine everyStep_of_guarded (I := fun s => s.Sound ∧ s.db.ledger.Served)
    (fun s e s' hs htakes hstep => ?_) ⟨State.initial_sound, initial_served⟩ h
  exact ⟨⟨step_sound hs.1 hstep, step_served hs.1 hs.2 htakes hstep⟩,
    step_servesContent hs.1 hs.2 htakes hstep⟩

def draftDefinition : Definition := ⟨"pets draft", "pets draft", "sha256:draft", "", "[]", by decide⟩

/-- A retention pass, and then the definition of the latest revision submitted again. -/
def resubmitsAfter (milliseconds : Nat) : List Event :=
  [.administer twoGateways, .publish developer publishPets "dev", .resume 0, .operation 5,
    .createRevision developer 3 draftDefinition, .wait milliseconds, .enqueuePrune 0, .startJob 8,
    .executeJob 8 false, .finishJob 8,
    .configure developer 3 { configurePets "dev" "again" with source := some draftDefinition },
    .resume 0]

theorem servesContent_within_the_year : EveryStep (step twoStages) (ServesContent twoStages)
    State.initial (resubmitsAfter 86400000 ++ [.resume 0]) := by
  refine servesContent_of_takesUp (everyStep_of_passes
    (fun s _ => s.db.ledger.revisions.all (·.prunedAt.isNone))
    (fun s e next hseen id _ r hr _ => ?_) (by decide +kernel))
  simpa using List.all_eq_true.mp hseen r hr

theorem tombstone_queued : ¬ EveryStep (step twoStages) (ServesContent twoStages) State.initial
    (resubmitsAfter (366 * 86400000) ++ [.resume 0]) := by
  refine not_everyStep_of_observed (fun a b => b.db.ledger.operations.any fun o =>
    o.state == .queued && !(a.db.ledger.operations.any fun was => was.id == o.id) &&
      b.db.ledger.revisions.any fun r => r.id == o.input.revisionId && r.prunedAt.isSome)
    (fun a b hseen hserves => ?_) (by decide +kernel)
  simp only [List.any_eq_true, Bool.and_eq_true, beq_iff_eq, Bool.not_eq_true',
    List.any_eq_false] at hseen
  obtain ⟨o, ho, ⟨hqueued, hnew⟩, r, hr, hid, hpruned⟩ := hseen
  have hfree := hserves.queued o ho hqueued hnew r hr hid
  rw [hfree] at hpruned
  cases hpruned

end Apim.ControlPlane
