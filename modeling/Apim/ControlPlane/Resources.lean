import Apim.ControlPlane.PolicySteps
import Apim.ControlPlane.Replay

/-!
# The table of APIs

What a step does to the rows of `resource`: it leaves them, sets the `updated_at` of one (`stamps`),
inserts the next one, or deletes one. So the rows stay numbered, no row is newer than the clock, and
the instant of a row never goes back (`Stamped`, `updatedAt_le_of_run`).
-/

namespace Apim.ControlPlane
open Overlay Policy Trace Table

def stamps (s : State) : Event → Option ResourceId
  | .resume index =>
    match s.requests[index]? with
    | some (.configureSettled _ _ read _) => some read.resource.id
    | _ => none
  | .putRoute _ id _ _ _ => some id
  | .putBinding _ id _ _ => some id
  | .createRevision _ id definition =>
    if (latestRevision s.db.ledger id).any fun r => r.versionDigest == definition.versionDigest then
      none
    else some id
  | .correctRevision _ id _ _ => (revisionOf s.db.ledger id).map (·.resourceId)
  | _ => none

inductive ResourceStep (s : State) (e : Event) (s' : State) : Prop where
  | kept (hnone : stamps s e = none) (h : s'.db.resources = s.db.resources)
  | stamped (id : ResourceId) (hstamps : stamps s e = some id) (f : Resource → Resource)
      (hf : ∀ r, (f r).id = r.id ∧
        (f r).updatedAt = if r.id = id then s.db.clock else r.updatedAt)
      (h : s'.db.resources = s.db.resources.map f)
  | added (row : Resource) (hnone : stamps s e = none) (hid : row.id = s.db.ledger.next)
      (hstamp : row.updatedAt = s.db.clock) (hnext : s.db.ledger.next < s'.db.ledger.next)
      (h : s'.db.resources = s.db.resources ++ [row])
  | removed (user : User) (id : ResourceId) (he : e = .delete user id)
      (h : s'.db.resources = s.db.resources.filter fun r => r.id != id)

/-! ### The writers -/

def stampRow (id : ResourceId) (at_ : Nat) (r : Resource) : Resource :=
  if r.id = id then { r with updatedAt := at_ } else r

theorem stampRow_spec (id : ResourceId) (at_ : Nat) (r : Resource) :
    (stampRow id at_ r).id = r.id ∧
      (stampRow id at_ r).updatedAt = if r.id = id then at_ else r.updatedAt := by
  unfold stampRow
  split
  · exact ⟨rfl, rfl⟩
  · exact ⟨rfl, rfl⟩

theorem stampRow_other {id : ResourceId} {at_ : Nat} {rows : List Resource}
    (h : ∀ r ∈ rows, r.id ≠ id) : rows.map (stampRow id at_) = rows := by
  have hsame : ∀ r ∈ rows, stampRow id at_ r = r := fun r hr => if_neg (h r hr)
  exact (List.map_congr_left hsame).trans (List.map_id' rows)

theorem touch_resources (db : Database) (id : ResourceId) :
    (touch db id).resources = db.resources.map (stampRow id db.clock) := rfl

theorem writeRevision_resources (db : Database) (id : ResourceId) (definition : Definition) :
    (writeRevision db id definition).1.resources =
      if (latestRevision db.ledger id).any fun r => r.versionDigest == definition.versionDigest then
        db.resources
      else db.resources.map (stampRow id db.clock) := by
  unfold writeRevision
  cases hlatest : latestRevision db.ledger id with
  | none => rfl
  | some latest =>
    by_cases hsame : latest.versionDigest = definition.versionDigest
    · simp [hsame, Option.filter]
    · simp [hsame, Option.filter, touch_resources]

variable {body : PublishInput}

theorem queue_resources {db db' : Database} {user : User} {applicationId : String} {stage : Stage}
    {kind : OperationKind} {snapshot : Snapshot}
    (h : queue db user body applicationId stage kind snapshot = .ok db') :
    db'.resources = db.resources ∧ db.ledger.next < db'.ledger.next := by
  obtain ⟨-, rfl⟩ := queue_ok h
  exact ⟨rfl, Nat.lt_succ_self _⟩

theorem reclassify_resources (db : Database) (id : ResourceId) (taxonomy : Taxonomy) :
    ∃ f : Resource → Resource, (reclassify db id taxonomy).resources = db.resources.map f ∧
      ∀ r, (f r).id = r.id ∧ (f r).updatedAt = if r.id = id then db.clock else r.updatedAt := by
  refine ⟨_, rfl, fun r => ?_⟩
  split
  · exact ⟨rfl, rfl⟩
  · exact ⟨rfl, rfl⟩

variable {app : App}

theorem configureCommit_resources {db db' : Database} {user : User} {read : ConfigureRead}
    {config : Settings} (h : configureCommit app db user body read config = .ok db') :
    ∃ f : Resource → Resource, db'.resources = db.resources.map f ∧
      ∀ r, (f r).id = r.id ∧
        (f r).updatedAt = if r.id = read.resource.id then db.clock else r.updatedAt := by
  obtain ⟨taxonomy, -, -, hqueue⟩ := configureCommit_ok h
  obtain ⟨hclock, -⟩ := configureRevision_frame db read.resource.id body read.previous
  obtain ⟨f, hf, hspec⟩ := reclassify_resources
    (configureRevision db read.resource.id body read.previous).1 read.resource.id taxonomy
  have hwritten := (queue_resources hqueue).1
  dsimp only at hwritten
  rw [hwritten, hf]
  rw [hclock] at hspec
  have hrows : (configureRevision db read.resource.id body read.previous).1.resources =
      db.resources ∨ (configureRevision db read.resource.id body read.previous).1.resources =
        db.resources.map (stampRow read.resource.id db.clock) := by
    unfold configureRevision
    split
    · rw [writeRevision_resources]
      split
      · exact .inl rfl
      · exact .inr rfl
    · exact .inl rfl
  rcases hrows with hrows | hrows
  · rw [hrows]
    exact ⟨f, rfl, hspec⟩
  · rw [hrows, List.map_map]
    refine ⟨_, rfl, fun r => ?_⟩
    obtain ⟨hid, hstamp⟩ := hspec (stampRow read.resource.id db.clock r)
    obtain ⟨hid', hstamp'⟩ := stampRow_spec read.resource.id db.clock r
    rw [Function.comp_apply, hid, hid', hstamp, hid', hstamp']
    refine ⟨rfl, ?_⟩
    split <;> rfl

theorem publishCommit_resources {db db' : Database} {user : User} {environment : Environment}
    {config : Settings} (hids : Numbered (db.resources.map (·.id)) db.ledger.next)
    (h : publishCommit app db user body environment config = .ok db') :
    ∃ row : Resource, row.id = db.ledger.next ∧ row.updatedAt = db.clock ∧
      db'.resources = db.resources ++ [row] := by
  obtain ⟨definition, taxonomy, -, -, hqueue⟩ := publishCommit_ok h
  have hold : ∀ r ∈ db.resources, r.id ≠ db.ledger.next := fun r hr =>
    Nat.ne_of_lt (hids.below r.id (List.mem_map_of_mem hr))
  refine ⟨body.resourceRow taxonomy db.clock db.ledger.next, rfl, rfl, ?_⟩
  rw [(queue_resources hqueue).1, writeRevision_resources]
  split
  · rfl
  · rw [List.map_append, stampRow_other hold]
    simp [stampRow, PublishInput.resourceRow]

/-! ### Steps -/

variable {s s' : State}

theorem step_resume_resources {index : Nat}
    (hids : Numbered (s.db.resources.map (·.id)) s.db.ledger.next)
    (h : step app s (.resume index) = some s') : ResourceStep s (.resume index) s' := by
  obtain ⟨request, hrequest, ⟨next, hnext, rfl⟩ | ⟨db, hdb, rfl⟩⟩ := step_resume h
  · refine .kept ?_ rfl
    rcases resumeRequest_settled hnext with ⟨user, body, read, config, rfl, -⟩ |
      ⟨user, body, read, config, rfl, -⟩
    · simp only [stamps, hrequest]
    · simp only [stamps, hrequest]
  · rcases resumeRequest_committed hdb with ⟨user, body, environment, config, rfl, hcommit⟩ |
      ⟨user, body, read, config, rfl, hcommit⟩ | ⟨user, body, read, config, rfl, hcommit⟩
    · obtain ⟨row, hid, hstamp, hrows⟩ := publishCommit_resources hids hcommit
      obtain ⟨definition, taxonomy, -, -, hqueue⟩ := publishCommit_ok hcommit
      have hnext : s.db.ledger.next < db.ledger.next := by
        have hqueued := (queue_resources hqueue).2
        rcases writeRevision_cases { s.db with
          resources := s.db.resources ++ [body.resourceRow taxonomy s.db.clock s.db.ledger.next]
          ledger := { s.db.ledger with next := s.db.ledger.next + 1 } } s.db.ledger.next definition
          with ⟨same, -, -, hw⟩ | ⟨rev, hw⟩
        · rw [hw] at hqueued
          exact Nat.lt_of_succ_lt hqueued
        · rw [hw] at hqueued
          have hadded : s.db.ledger.next + 1 + 1 < db.ledger.next := by
            simpa [touch, Ledger.addRevision, Ledger.storeArtifact, apply_ite] using hqueued
          omega
      exact .added row (by simp only [stamps, hrequest]) hid hstamp hnext hrows
    · obtain ⟨f, hrows, hf⟩ := configureCommit_resources hcommit
      exact .stamped read.resource.id (by simp only [stamps, hrequest]) f hf hrows
    · obtain ⟨-, hqueue⟩ := promoteCommit_ok hcommit
      exact .kept (by simp only [stamps, hrequest]) (queue_resources hqueue).1

theorem executeJob_resources (app : App) (db : Database) (j : Job) (leased : Bool) :
    (executeJob app db j leased).1.resources = db.resources := by
  cases hwork : j.work with
  | prune => simp only [executeJob_prune hwork]
  | reconcile payload =>
    rcases executeJob_reconcile app db leased hwork with
      ⟨hrun, hdone⟩ | ⟨after, hrun, hdone⟩ | ⟨failure, hrun, hdone⟩
    · rw [hdone]
    · rw [hdone]
      obtain ⟨environment, -, ⟨-, rfl⟩ | ⟨-, happly⟩⟩ := reconcile_ok hrun
      · rfl
      · obtain ⟨release, -, -, ⟨-, rfl⟩ | ⟨-, live, route, -, -, -, rfl⟩⟩ := applyRelease_ok happly
        · rfl
        · rfl
    · rw [hdone]

theorem runOperation_resources (app : App) (db : Database) (o : Operation) :
    (runOperation app db o).resources = db.resources := by
  cases hrun : applyOperation app db o with
  | error failure => simp only [runOperation, hrun]
  | ok result =>
    cases result with
    | none => simp only [runOperation, hrun]
    | some db' =>
      obtain ⟨revision, route, -, -, -, -, -, -, hdb⟩ := applyOperation_ok hrun
      simp only [runOperation, hrun, hdb]

variable {e : Event}

theorem stamped_of_touch {id : ResourceId} (he : stamps s e = some id)
    (h : s'.db.resources = s.db.resources.map (stampRow id s.db.clock)) : ResourceStep s e s' :=
  .stamped id he _ (stampRow_spec id s.db.clock) h

theorem step_resources (hids : Numbered (s.db.resources.map (·.id)) s.db.ledger.next)
    (h : step app s e = some s') : ResourceStep s e s' := by
  cases e with
  | publish | configure | promote =>
    obtain ⟨request, -, rfl⟩ := State.waiting_eq_some h
    exact .kept rfl rfl
  | resume index => exact step_resume_resources hids h
  | putUnit user id environment unit value =>
    obtain ⟨db, hdb, rfl⟩ := State.write_eq_some h
    obtain ⟨-, rfl⟩ := putUnit_ok hdb
    exact .kept rfl rfl
  | deleteUnit user id environment unit =>
    obtain ⟨db, hdb, rfl⟩ := State.write_eq_some h
    obtain ⟨-, rfl⟩ := deleteUnit_ok hdb
    exact .kept rfl rfl
  | copyFrom user id source environment units =>
    obtain ⟨db, hdb, rfl⟩ := State.write_eq_some h
    obtain ⟨-, -, rfl⟩ := copyFrom_ok hdb
    exact .kept rfl rfl
  | putGlobalUnit user environment unit value =>
    obtain ⟨db, hdb, rfl⟩ := State.write_eq_some h
    obtain ⟨-, -, -, rfl⟩ := putGlobalUnit_ok hdb
    exact .kept rfl rfl
  | deleteGlobalUnit user environment unit =>
    obtain ⟨db, hdb, rfl⟩ := State.write_eq_some h
    obtain ⟨-, -, rfl⟩ := deleteGlobalUnit_ok hdb
    exact .kept rfl rfl
  | copyGlobals user source environment =>
    obtain ⟨db, hdb, rfl⟩ := State.write_eq_some h
    obtain ⟨-, -, rfl⟩ := copyGlobals_ok hdb
    exact .kept rfl rfl
  | putRoute user id environment host basePath =>
    obtain ⟨db, hdb, rfl⟩ := State.write_eq_some h
    simp only [putRoute, bind_ok, orRefuse_ok, require_ok] at hdb
    obtain ⟨resource, -, -, -, -, -, domain, -, address, -, -, -, hdb⟩ := hdb
    obtain rfl := Except.ok.inj hdb
    exact stamped_of_touch rfl rfl
  | putBinding user id environment backend =>
    obtain ⟨db, hdb, rfl⟩ := State.write_eq_some h
    simp only [putBinding, bind_ok, orRefuse_ok, require_ok] at hdb
    obtain ⟨resource, -, -, -, -, -, -, -, hdb⟩ := hdb
    obtain rfl := Except.ok.inj hdb
    exact stamped_of_touch rfl rfl
  | createRevision user id definition =>
    obtain ⟨db, hdb, rfl⟩ := State.write_eq_some h
    obtain ⟨written, hwritten, rfl⟩ := map_eq_ok hdb
    obtain ⟨-, rfl⟩ := createRevision_ok hwritten
    have hrows := writeRevision_resources s.db id definition
    split at hrows
    next hsame => exact .kept (if_pos hsame) hrows
    next hnew => exact stamped_of_touch (if_neg hnew) hrows
  | correctRevision user id readDigest definition =>
    obtain ⟨db, hdb, rfl⟩ := State.write_eq_some h
    simp only [correctRevision, bind_ok, orRefuse_ok, require_ok] at hdb
    obtain ⟨revision, hrevision, resource, hresource, -, -, -, -, -, -, -, -, -, -, hdb⟩ := hdb
    obtain rfl := Except.ok.inj hdb
    have hid : resource.id = revision.resourceId := by simpa using List.find?_some hresource
    refine stamped_of_touch ?_ rfl
    simp only [stamps, hrevision, Option.map_some, hid]
  | createVersion user id apiVersion copyPolicyFrom createRoutes =>
    obtain ⟨db, hdb, rfl⟩ := State.write_eq_some h
    simp only [createVersion, bind_ok, orRefuse_ok, require_ok] at hdb
    obtain ⟨resource, -, -, -, -, -, source, -, -, -, -, -, hdb⟩ := hdb
    obtain rfl := Except.ok.inj hdb
    have hnext : s.db.ledger.next < s.db.ledger.next + 1 + 1 := by omega
    exact .added _ rfl rfl rfl hnext rfl
  | dryRun user id body =>
    obtain ⟨db, hdb, rfl⟩ := State.write_eq_some h
    obtain ⟨plan, rfl⟩ := dryRunRelease_ok hdb
    exact .kept rfl rfl
  | release user id body =>
    obtain ⟨db, hdb, rfl⟩ := State.write_eq_some h
    obtain ⟨revision, target, -, confirmed, plan, -, -, rfl⟩ := requestRelease_ok hdb
    exact .kept rfl rfl
  | withdraw user id environment =>
    obtain ⟨db, hdb, rfl⟩ := State.write_eq_some h
    obtain ⟨target, -, rfl⟩ := withdraw_ok hdb
    exact .kept rfl rfl
  | announceDelete user id =>
    obtain ⟨db, hdb, rfl⟩ := State.write_eq_some h
    obtain rfl := announceDelete_ok hdb
    exact .kept rfl rfl
  | delete user id =>
    obtain ⟨db, hdb, rfl⟩ := State.write_eq_some h
    obtain rfl := deleteApi_ok hdb
    exact .removed user id rfl rfl
  | operation id =>
    obtain ⟨o, -, -, rfl⟩ := step_operation h
    exact .kept rfl (runOperation_resources app s.db o)
  | complete environment =>
    obtain rfl := Option.some.inj h
    dsimp only [completeEnvironment]
    split <;> exact .kept rfl rfl
  | startJob id =>
    obtain ⟨j, -, -, rfl⟩ := step_startJob h
    exact .kept rfl rfl
  | executeJob id leased =>
    obtain ⟨j, -, -, rfl⟩ := step_executeJob h
    exact .kept rfl (executeJob_resources app s.db j leased)
  | finishJob id =>
    obtain ⟨-, rfl⟩ := step_finishJob h
    exact .kept rfl rfl
  | administer estate =>
    obtain ⟨-, rfl⟩ := step_administer h
    exact .kept rfl rfl
  | requeueJobs | crash | enqueuePrune | wait =>
    obtain rfl := Option.some.inj h
    exact .kept rfl rfl

/-! ### What a step leaves -/

theorem ResourceStep.numbered (h : ResourceStep s e s')
    (hids : Numbered (s.db.resources.map (·.id)) s.db.ledger.next)
    (hnext : s.db.ledger.next ≤ s'.db.ledger.next) :
    Numbered (s'.db.resources.map (·.id)) s'.db.ledger.next := by
  cases h with
  | kept hnone h =>
    rw [h]
    exact hids.mono hnext
  | stamped id hstamps f hf h =>
    have hsame : (s.db.resources.map f).map (·.id) = s.db.resources.map (·.id) := by
      rw [List.map_map]
      exact List.map_congr_left fun r _ => (hf r).1
    rw [h, hsame]
    exact hids.mono hnext
  | added row hnone hid hstamp hlate h =>
    rw [h, List.map_append, List.map_singleton, hid]
    exact hids.append.mono hlate
  | removed user id he h =>
    rw [h]
    exact (hids.sublist (List.filter_sublist.map _)).mono hnext

theorem ResourceStep.origin (h : ResourceStep s e s') {r' : Resource} (hr' : r' ∈ s'.db.resources) :
    (∃ r ∈ s.db.resources, r.id = r'.id ∧
        r'.updatedAt = if stamps s e = some r.id then s.db.clock else r.updatedAt) ∨
      (r'.id = s.db.ledger.next ∧ r'.updatedAt = s.db.clock) := by
  cases h with
  | kept hnone h =>
    rw [h] at hr'
    exact .inl ⟨r', hr', rfl, by rw [hnone]; rfl⟩
  | stamped id hstamps f hf h =>
    rw [h] at hr'
    obtain ⟨r, hr, rfl⟩ := List.mem_map.mp hr'
    obtain ⟨hid, hstamp⟩ := hf r
    refine .inl ⟨r, hr, hid.symm, ?_⟩
    rw [hstamp, hstamps]
    by_cases hsame : r.id = id
    · rw [if_pos hsame, if_pos (by rw [hsame])]
    · rw [if_neg hsame, if_neg fun heq => hsame (Option.some.inj heq).symm]
  | added row hnone hid hstamp hlate h =>
    rw [h] at hr'
    rcases List.mem_append.mp hr' with hold | hnew
    · exact .inl ⟨r', hold, rfl, by rw [hnone]; rfl⟩
    · obtain rfl := List.mem_singleton.mp hnew
      exact .inr ⟨hid, hstamp⟩
  | removed user id he h =>
    rw [h] at hr'
    refine .inl ⟨r', (List.mem_filter.mp hr').1, rfl, ?_⟩
    rw [he]
    rfl

theorem ResourceStep.stays (h : ResourceStep s e s') {r : Resource} (hr : r ∈ s.db.resources)
    (hkept : ∀ user, e ≠ .delete user r.id) : ∃ r' ∈ s'.db.resources, r'.id = r.id := by
  cases h with
  | kept hnone h => exact ⟨r, h ▸ hr, rfl⟩
  | stamped id hstamps f hf h => exact ⟨f r, h ▸ List.mem_map_of_mem hr, (hf r).1⟩
  | added row hnone hid hstamp hlate h => exact ⟨r, h ▸ List.mem_append_left _ hr, rfl⟩
  | removed user id he h =>
    have hne : r.id ≠ id := fun heq => hkept user (by rw [he, heq])
    refine ⟨r, ?_, rfl⟩
    rw [h]
    exact List.mem_filter.mpr ⟨hr, by simpa using hne⟩

/-! ### The instants of a run -/

structure Stamped (s : State) : Prop where
  sound : s.Sound
  ids : Numbered (s.db.resources.map (·.id)) s.db.ledger.next
  past : ∀ r ∈ s.db.resources, r.updatedAt ≤ s.db.clock

theorem State.initial_stamped : Stamped State.initial :=
  ⟨State.initial_sound, .nil 1, nofun⟩

theorem step_stamped (hs : Stamped s) (h : step app s e = some s') : Stamped s' := by
  obtain ⟨ms, -, hmoves⟩ := step_moves hs.sound h
  have hclock := (step_frame h).1
  have hrows := step_resources hs.ids h
  refine ⟨step_sound hs.sound h, hrows.numbered hs.ids (moves_next hmoves), fun r' hr' => ?_⟩
  rcases hrows.origin hr' with ⟨r, hr, -, hstamp⟩ | ⟨-, hstamp⟩
  · have hpast := hs.past r hr
    rw [hstamp]
    split
    · exact hclock
    · exact hpast.trans hclock
  · rw [hstamp]
    exact hclock

theorem Stamped.unique (hs : Stamped s) {r r' : Resource} (hr : r ∈ s.db.resources)
    (hr' : r' ∈ s.db.resources) (hid : r.id = r'.id) : r = r' :=
  hs.ids.key_injective hr hr' hid

theorem updatedAt_le_of_run {events : List Event} (hs : Stamped s) (h : run app s events = some s')
    {r' : Resource} (hr' : r' ∈ s'.db.resources) (hold : r'.id < s.db.ledger.next) :
    ∃ r ∈ s.db.resources, r.id = r'.id ∧ r.updatedAt ≤ r'.updatedAt := by
  induction events generalizing s with
  | nil =>
    obtain rfl := Option.some.inj h
    exact ⟨r', hr', rfl, le_rfl⟩
  | cons e events ih =>
    obtain ⟨mid, hmid, hrest⟩ := exec_cons_eq_some h
    obtain ⟨ms, -, hmoves⟩ := step_moves hs.sound hmid
    have hlate := moves_next hmoves
    obtain ⟨m, hm, hmId, hle⟩ := ih (step_stamped hs hmid) hrest (Nat.lt_of_lt_of_le hold hlate)
    rcases (step_resources hs.ids hmid).origin hm with ⟨r, hr, hrId, hstamp⟩ | ⟨hnew, -⟩
    · refine ⟨r, hr, hrId.trans hmId, ?_⟩
      have hpast := hs.past r hr
      split at hstamp <;> omega
    · exact absurd (hnew.symm.trans hmId) (Nat.ne_of_gt hold)

end Apim.ControlPlane
