import Apim.ControlPlane.Resources
import Apim.ControlPlane.Settled

/-!
# Updates under If-Match

A configure presents the ETag of the API it has read, and is checked against the row once more
inside its transaction (`operations.ts:811-848`). The ETag is over `updated_at`
(`api/common.ts:87-89`), which is a number of milliseconds: where every write is made in a later
millisecond than the change before it (`FreshWrite`), an ETag names one state of the API and no
update is lost (`no_lost_update`); two writes of one millisecond leave the ETag as it was.
-/

namespace Apim.ControlPlane
open Overlay Policy Trace Table

/-- `etagOf` (`api/common.ts:87-89`): the digest of the API's id and instant, which stands here for
that instant. -/
def etagOf (row : Resource) : EntityTag := .updatedAt row.updatedAt

def Accepts (s : State) (e : Event) (id : ResourceId) (tags : List EntityTag) : Prop :=
  ∃ index user body read config, e = .resume index ∧
    s.requests[index]? = some (.configureSettled user body read config) ∧
    read.resource.id = id ∧ body.generated = false ∧ body.ifMatch = some tags

structure Stretch (app : App) (events : List Event) (s₁ : State) (middle : List Event)
    (s₂ : State) (e : Event) : Prop where
  inside : ∃ front back, events = front ++ (middle ++ e :: back) ∧
    run app State.initial front = some s₁
  run : run app s₁ middle = some s₂
  enabled : (step app s₂ e).isSome

structure NoLostUpdate (app : App) (events : List Event) (id : ResourceId) : Prop where
  once : ∀ {s₁ s₂ e e' middle t}, Stretch app events s₁ (e :: middle) s₂ e' →
    Accepts s₁ e id [.updatedAt t] → ¬ Accepts s₂ e' id [.updatedAt t]
  current : ∀ {s₁ s₂ e middle tags}, Stretch app events s₁ middle s₂ e →
    Accepts s₂ e id tags → .any ∉ tags →
      ∃ row₂, resourceOf s₂.db id = some row₂ ∧ etagOf row₂ ∈ tags ∧
        ∀ row₁, resourceOf s₁.db id = some row₁ → etagOf row₁ = etagOf row₂ →
          EveryStep (step app) (fun s e _ => stamps s e ≠ some id) s₁ middle

/-- A write is made in a later millisecond than the change of the API before it. -/
def FreshWrite (s : State) (e : Event) : Prop :=
  ∀ id row, stamps s e = some id → resourceOf s.db id = some row → row.updatedAt < s.db.clock

/-! ### A request that is accepted -/

theorem resourceOf_eq_some {s : State} (hs : Stamped s) {id : ResourceId} {row : Resource} :
    resourceOf s.db id = some row ↔ row ∈ s.db.resources ∧ row.id = id := by
  constructor
  · intro h
    exact ⟨List.mem_of_find?_eq_some h, by simpa using List.find?_some h⟩
  · rintro ⟨hrow, rfl⟩
    exact hs.ids.find?_of_mem hrow

theorem ifMatch_ok {row : Resource} {body : PublishInput} {tags : List EntityTag}
    (htags : body.ifMatch = some tags) (h : ifMatch row body = .ok ()) :
    .any ∈ tags ∨ etagOf row ∈ tags := by
  simp only [ifMatch, htags] at h
  obtain ⟨tag, htag, hmatch⟩ := List.any_eq_true.mp (require_ok.mp h)
  simp only [Bool.or_eq_true, beq_iff_eq] at hmatch
  rcases hmatch with rfl | rfl
  · exact .inl htag
  · exact .inr htag

theorem configureCommit_matched {app : App} {db db' : Database} {user : User} {body : PublishInput}
    {read : ConfigureRead} {config : Settings} (hgenerated : body.generated = false)
    (h : configureCommit app db user body read config = .ok db') :
    ∃ row, resourceOf db read.resource.id = some row ∧ ifMatch row body = .ok () := by
  simp only [configureCommit, bind_ok, orRefuse_ok, require_ok] at h
  obtain ⟨row, hrow, matched, hmatched, -⟩ := h
  simp only [assertMatch, hgenerated, Bool.false_eq_true, if_false] at hmatched
  exact ⟨row, hrow, hmatched⟩

theorem Accepts.matched {app : App} {s s' : State} {e : Event} {id : ResourceId}
    {tags : List EntityTag} (h : Accepts s e id tags) (hstep : step app s e = some s') :
    stamps s e = some id ∧
      ∃ row, resourceOf s.db id = some row ∧ (.any ∈ tags ∨ etagOf row ∈ tags) := by
  obtain ⟨index, user, body, read, config, rfl, hrequest, rfl, hgenerated, htags⟩ := h
  refine ⟨by simp only [stamps, hrequest], ?_⟩
  obtain ⟨request, hfound, hstage⟩ := step_resume hstep
  obtain rfl := Option.some.inj (hfound.symm.trans hrequest)
  rcases hstage with ⟨next, hnext, -⟩ | ⟨db, hdb, -⟩
  · rcases resumeRequest_settled hnext with ⟨_, _, _, _, hbad, -⟩ | ⟨_, _, _, _, hbad, -⟩
    · cases hbad
    · cases hbad
  · obtain ⟨committed, hcommit, -⟩ := map_eq_ok hdb
    obtain ⟨row, hrow, hmatch⟩ := configureCommit_matched hgenerated hcommit
    exact ⟨row, hrow, ifMatch_ok htags hmatch⟩

/-! ### An ETag names a state -/

theorem unwritten_of_etag {app : App} {s₁ s₂ : State} {middle : List Event} (hs : Stamped s₁)
    (hfresh : EveryStep (step app) (fun s e _ => FreshWrite s e) s₁ middle)
    (hrun : run app s₁ middle = some s₂) {row₁ row₂ : Resource} (hrow₁ : row₁ ∈ s₁.db.resources)
    (hrow₂ : row₂ ∈ s₂.db.resources) (hid : row₁.id = row₂.id)
    (hetag : row₂.updatedAt ≤ row₁.updatedAt) :
    EveryStep (step app) (fun s e _ => stamps s e ≠ some row₁.id) s₁ middle := by
  induction middle generalizing s₁ row₁ with
  | nil => trivial
  | cons e middle ih =>
    intro next hstep
    obtain ⟨mid, hmid, hrest⟩ := exec_cons_eq_some hrun
    obtain rfl := Option.some.inj (hmid.symm.trans hstep)
    obtain ⟨hwrite, hlater⟩ := hfresh mid hmid
    have hold : row₂.id < s₁.db.ledger.next := hid ▸ hs.ids.below _ (List.mem_map_of_mem hrow₁)
    have hmids := step_stamped hs hmid
    obtain ⟨ms, -, hmoves⟩ := step_moves hs.sound hmid
    have hlate := Nat.lt_of_lt_of_le hold (moves_next hmoves)
    obtain ⟨row, hrow, hrowId, hle⟩ := updatedAt_le_of_run hmids hrest hrow₂ hlate
    have hsame : row.id = row₁.id := hrowId.trans hid.symm
    -- the row in between is the row of before, with its instant or the one of a write
    rcases (step_resources hs.ids hmid).origin hrow with ⟨was, hwas, hwasId, hstamp⟩ | ⟨hnew, -⟩
    · obtain rfl := hs.unique hwas hrow₁ (hwasId.trans hsame)
      have hkept : stamps s₁ e ≠ some was.id := by
        intro hstamps
        have hbefore := hwrite was.id was hstamps ((resourceOf_eq_some hs).mpr ⟨hwas, rfl⟩)
        rw [if_pos hstamps] at hstamp
        omega
      rw [if_neg hkept] at hstamp
      refine ⟨hkept, ?_⟩
      rw [hwasId]
      exact ih hmids hlater hrest hrow (hsame.trans hid) (hetag.trans hstamp.ge)
    · exact absurd (hnew.symm.trans hrowId) (Nat.ne_of_gt hold)

theorem Stretch.fresh {app : App} {events middle : List Event} {s₁ s₂ : State} {e : Event}
    (h : Stretch app events s₁ middle s₂ e)
    (hfresh : EveryStep (step app) (fun s e _ => FreshWrite s e) State.initial events) :
    Stamped s₁ ∧ Stamped s₂ ∧ EveryStep (step app) (fun s e _ => FreshWrite s e) s₁ middle := by
  obtain ⟨front, back, rfl, hfront⟩ := h.inside
  have hs₁ : Stamped s₁ :=
    exec_invariant (fun _ _ _ hs hstep => step_stamped hs hstep) State.initial_stamped hfront
  have hs₂ : Stamped s₂ := exec_invariant (fun _ _ _ hs hstep => step_stamped hs hstep) hs₁ h.run
  exact ⟨hs₁, hs₂, EveryStep.prefix (hfresh.suffix hfront)⟩

/-- A configure of the API of `publishPets` that presents the ETag of an instant. -/
def configureAt (key : String) (at_ : Nat) : PublishInput :=
  { configurePets "dev" key with ifMatch := some [.updatedAt at_] }

def writesFresh (s : State) (e : Event) : Bool :=
  (stamps s e).all fun id => (resourceOf s.db id).all fun row => row.updatedAt < s.db.clock

theorem freshWrite_of_writesFresh {s : State} {e : Event} (h : writesFresh s e = true) :
    FreshWrite s e := by
  intro id row hstamps hrow
  simpa [writesFresh, hstamps, hrow] using h

def presents (s : State) (index : Nat) (id : ResourceId) (tags : List EntityTag) : Bool :=
  match s.requests[index]? with
  | some (.configureSettled _ body read _) =>
    read.resource.id == id && !body.generated && body.ifMatch == some tags
  | _ => false

theorem accepts_of_presents {s : State} {index : Nat} {id : ResourceId} {tags : List EntityTag}
    (h : presents s index id tags = true) : Accepts s (.resume index) id tags := by
  unfold presents at h
  split at h
  next user body read config hrequest =>
    simp only [Bool.and_eq_true, beq_iff_eq, Bool.not_eq_true'] at h
    obtain ⟨⟨hid, hgenerated⟩, htags⟩ := h
    exact ⟨index, user, body, read, config, rfl, hrequest, hid, hgenerated, htags⟩
  next => cases h

/-- Two configures that present the ETag of the publish, both settled in its millisecond. -/
def configuredTwice : List Event :=
  publishedPets ++ [.configure developer 3 (configureAt "first" 0),
    .configure administrator 3 (configureAt "second" 0), .resume 0, .resume 1]

end Apim.ControlPlane
