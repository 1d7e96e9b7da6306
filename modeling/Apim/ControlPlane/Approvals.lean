import Apim.Lib.Table
import Apim.Lib.Trace
import Apim.ControlPlane.Catalog
import Apim.ControlPlane.Ownership

/-!
# Who can decide a pending request

The owner of a product decides who subscribes to it. The event that asks for the decision holds the
application it was asked of, and the product may have moved since. What is to hold of every run: a
member of the application that owns the product now can decide each pending subscription
(`Answerable`), and a subscription changes its state only as `Moves` allows, which leaves no way
out of the last states and no way in without an approval. It holds exactly when no transfer moves
a product that somebody is waiting for (`Unawaited`): `decidable_iff_unawaited`.
-/

namespace Apim.Catalog
open Guard Trace Table
open ControlPlane (User can)

structure IntegrationEvent.Asks (e : IntegrationEvent) (id : Nat) : Prop where
  integration : e.integration = "skonet"
  kind : e.kind = "subscription.request"
  subject : e.subject = .subscription id

def IntegrationEvent.Open (e : IntegrationEvent) : Prop :=
  e.state = .queued ∨ e.state = .retrying ∨ e.state = .awaitingDecision

def Answerable (s : Portal) (sub : Subscription) : Prop :=
  ∃ p ∈ s.products, p.id = sub.productId ∧ ∃ e ∈ s.events, e.Asks sub.id ∧ e.Open ∧
    ∀ user, can user p.applicationId = true → openDecision s user e.id = .ok (.decision user e) ∧
      ∀ decision, ∃ s', decide s { e with state := .awaitingDecision } decision = .ok s'

inductive Moves (s : Portal) : Event → Subscription → SubscriptionState → Prop
  | same (event : Event) (sub : Subscription) : Moves s event sub sub.state
  | decided (index : Nat) (decision : Decision) (user : User) (row : IntegrationEvent)
      (sub : Subscription) (p : Product) :
      s.suspended[index]? = some (.decision user row) → row.Asks sub.id → p ∈ s.products →
      p.id = sub.productId → can user p.applicationId = true → sub.state = .pending →
      Moves s (.resumeDecision index decision) sub decision.subscription
  | cancelled (user : User) (sub : Subscription) :
      sub.state = .pending → Moves s (.cancel user sub.id) sub .cancelled
  | withdrawn (user : User) (sub : Subscription) :
      sub.state = .activating ∨ sub.state = .active → Moves s (.cancel user sub.id) sub .revoking
  | activated (sub : Subscription) :
      sub.state = .activating → Moves s (.activate sub.environment) sub .active
  | revoked (sub : Subscription) :
      sub.state = .revoking → Moves s (.activate sub.environment) sub .revoked

def Requested (s : Portal) (sub : Subscription) : Prop :=
  (∀ old ∈ s.subscriptions, old.id ≠ sub.id) ∧
    (sub.state = .pending ∨ sub.state = .activating ∧
      ∃ p ∈ s.products, p.id = sub.productId ∧ p.applicationId = sub.applicationId)

def Moved (s : Portal) (event : Event) (s' : Portal) : Prop :=
  ∀ sub' ∈ s'.subscriptions,
    (∃ sub ∈ s.subscriptions, ∃ state, sub' = { sub with state := state } ∧ Moves s event sub state) ∨
      Requested s sub'

structure Governed (s : Portal) (event : Event) (s' : Portal) : Prop where
  answerable : ∀ sub ∈ s'.subscriptions, sub.state = .pending → Answerable s' sub
  moves : Moved s event s'

/-- A transfer that is accepted moves no product with a pending subscription. -/
def Unawaited (s : Portal) : Event → Portal → Prop
  | .resumeOwner index body _, _ =>
    ∀ user row, s.suspended[index]? = some (.owner user row) →
      assertTransfer s user row body body.target = .ok () →
        ∀ p ∈ s.selling ((s.family row.applicationId row.name).map (·.id)),
          p.applicationId ≠ body.target →
            ∀ sub ∈ s.subscriptions, sub.productId = p.id → sub.state ≠ .pending
  | _, _ => True

structure IntegrationEvent.Copied (e copy : IntegrationEvent) : Prop where
  id : e.id = copy.id
  applicationId : e.applicationId = copy.applicationId
  integration : e.integration = copy.integration
  kind : e.kind = copy.kind
  subject : e.subject = copy.subject

structure Filed (s : Portal) : Prop where
  products : Numbered (s.products.map (·.id)) s.next
  subscriptions : Numbered (s.subscriptions.map (·.id)) s.next
  events : Numbered (s.events.map (·.id)) s.next
  subjects : ∀ e ∈ s.events, ∀ id, e.subject = .subscription id → id < s.next
  once : ∀ e ∈ s.events, ∀ e' ∈ s.events, e.integration = e'.integration → e.kind = e'.kind →
    e.subject = e'.subject → e = e'
  read : ∀ user copy, .decision user copy ∈ s.suspended →
    can user copy.applicationId = true ∧ copy.integration = "skonet" ∧ ∃ e ∈ s.events, e.Copied copy

def Awaits (s : Portal) (sub : Subscription) : Prop :=
  ∃ p ∈ s.products, p.id = sub.productId ∧
    ∃ e ∈ s.events, e.Asks sub.id ∧ e.Open ∧ e.applicationId = p.applicationId

structure Queued (s : Portal) : Prop extends Filed s where
  awaits : ∀ sub ∈ s.subscriptions, sub.state = .pending → Awaits s sub

variable {id now : Nat} {s' : Portal} {sub : Subscription} {user : User} {event : Event}
  {decision : Decision} {body : OwnerBody} {row : Api} {copy : IntegrationEvent}
  {chain : List String}

section
variable {s : Portal}

theorem IntegrationEvent.Asks.unique {e e' : IntegrationEvent} (h : Filed s) (he : e ∈ s.events)
    (he' : e' ∈ s.events) (hasks : e.Asks id) (hasks' : e'.Asks id) : e = e' :=
  h.once e he e' he' (hasks.integration.trans hasks'.integration.symm)
    (hasks.kind.trans hasks'.kind.symm) (hasks.subject.trans hasks'.subject.symm)

theorem Awaits.mono (h : Awaits s sub) (hproducts : s.products ⊆ s'.products)
    (hevents : s.events ⊆ s'.events) : Awaits s' sub := by
  obtain ⟨p, hp, hpid, e, he, hasks, hopen, howner⟩ := h
  exact ⟨p, hproducts hp, hpid, e, hevents he, hasks, hopen, howner⟩

/-! ### Deciding -/

theorem openDecision_eq_ok {handler : Suspended} :
    openDecision s user id = .ok handler ↔ ∃ e, s.events.find? (·.id == id) = some e ∧
      e.integration = "skonet" ∧ can user e.applicationId = true ∧ handler = .decision user e := by
  simp only [openDecision, assertCan, bind_eq_ok, demand_eq_ok, ensure_eq_ok, pure_eq_ok,
    decide_eq_true_eq]
  constructor
  · rintro ⟨e, he, -, hintegration, -, hcan, rfl⟩
    exact ⟨e, he, hintegration, hcan, rfl⟩
  · rintro ⟨e, he, hintegration, hcan, rfl⟩
    exact ⟨e, he, (), hintegration, (), hcan, rfl⟩

theorem decided_eq_ok {event : IntegrationEvent} :
    decided s event decision id = .ok s' ↔
      ∃ sub, s.subscriptions.find? (·.id == id) = some sub ∧ sub.state = .pending ∧
        (∃ p, s.product sub.productId = some p ∧ p.applicationId = event.applicationId) ∧
        s' = ((s.setState id decision.subscription).setEvent event.id decision.event).emit
          event.consumer "email" decision.kind (.subscription id) "" := by
  simp only [decided, bind_eq_ok, demand_eq_ok, ensure_eq_ok, pure_eq_ok, decide_eq_true_eq,
    Option.any_eq_true, beq_iff_eq]
  constructor
  · rintro ⟨sub, hsub, -, hpending, -, howner, rfl⟩
    exact ⟨sub, hsub, hpending, howner, rfl⟩
  · rintro ⟨sub, hsub, hpending, howner, rfl⟩
    exact ⟨sub, hsub, (), hpending, (), howner, rfl⟩

theorem decide_asked {event : IntegrationEvent} (hasks : event.Asks id)
    (hstate : event.state = .awaitingDecision) :
    decide s event decision = decided s event decision id := by
  have hne : event.state ≠ decision.event := by
    rw [hstate]
    cases decision <;> exact fun h => nomatch h
  rw [decide, if_neg hne, hstate, hasks.kind, hasks.subject]
  rfl

theorem answerable_of_awaits (h : Filed s) (hsub : sub ∈ s.subscriptions)
    (hpending : sub.state = .pending) (hawaits : Awaits s sub) : Answerable s sub := by
  obtain ⟨p, hp, hpid, e, he, hasks, hopen, howner⟩ := hawaits
  refine ⟨p, hp, hpid, e, he, hasks, hopen, fun user hcan => ⟨?_, fun decision => ?_⟩⟩
  · have hfound := h.events.find?_of_mem he
    exact openDecision_eq_ok.mpr ⟨e, hfound, hasks.integration, howner ▸ hcan, rfl⟩
  · have hasked : IntegrationEvent.Asks { e with state := .awaitingDecision } sub.id :=
      ⟨hasks.integration, hasks.kind, hasks.subject⟩
    rw [decide_asked hasked rfl]
    have hrow : s.subscriptions.find? (·.id == sub.id) = some sub := h.subscriptions.find?_of_mem hsub
    have hproduct : s.product sub.productId = some p := by
      rw [← hpid]
      exact h.products.find?_of_mem hp
    exact ⟨_, decided_eq_ok.mpr ⟨sub, hrow, hpending, ⟨p, hproduct, howner.symm⟩, rfl⟩⟩

theorem answerable_of_queued (h : Queued s) (hsub : sub ∈ s.subscriptions)
    (hpending : sub.state = .pending) : Answerable s sub :=
  answerable_of_awaits h.toFiled hsub hpending (h.awaits sub hsub hpending)

/-! ### Writing an event -/

theorem events_subset_emit (s : Portal) (applicationId integration kind : String) (subject : Subject)
    (consumer : String) : s.events ⊆ (s.emit applicationId integration kind subject consumer).events := by
  unfold Portal.emit
  split
  · exact List.Subset.refl _
  · exact List.subset_append_left _ _

theorem Filed.emit (h : Filed s) (applicationId integration kind : String) (subject : Subject)
    (consumer : String) (hsubject : ∀ id, subject = .subscription id → id < s.next) :
    Filed (s.emit applicationId integration kind subject consumer) := by
  unfold Portal.emit
  split
  · exact h
  rename_i hnew
  have hfresh : ∀ e ∈ s.events, e.integration = integration → e.kind = kind → e.subject ≠ subject := by
    intro e he hintegration hkind hsame
    refine hnew (List.any_eq_true.mpr ⟨e, he, ?_⟩)
    simp [hintegration, hkind, hsame]
  refine ⟨h.products.mono (Nat.le_succ _), h.subscriptions.mono (Nat.le_succ _), ?_, ?_, ?_, ?_⟩
  · simpa using h.events.append
  · intro e he id hid
    rcases List.mem_append.mp he with hold | hadded
    · exact Nat.lt_succ_of_lt (h.subjects e hold id hid)
    · rw [List.mem_singleton.mp hadded] at hid
      exact Nat.lt_succ_of_lt (hsubject id hid)
  · intro e he e' he' hintegration hkind hsame
    rcases List.mem_append.mp he with hold | hadded <;>
      rcases List.mem_append.mp he' with hold' | hadded'
    · exact h.once e hold e' hold' hintegration hkind hsame
    · rw [List.mem_singleton.mp hadded'] at hintegration hkind hsame
      exact absurd hsame (hfresh e hold hintegration hkind)
    · rw [List.mem_singleton.mp hadded] at hintegration hkind hsame
      exact absurd hsame.symm (hfresh e' hold' hintegration.symm hkind.symm)
    · rw [List.mem_singleton.mp hadded, List.mem_singleton.mp hadded']
  · intro user copy hcopy
    obtain ⟨hcan, hskonet, e, he, hcopied⟩ := h.read user copy hcopy
    exact ⟨hcan, hskonet, e, List.mem_append_left _ he, hcopied⟩

theorem emit_rows (s : Portal) (applicationId integration kind : String) (subject : Subject)
    (consumer : String) :
    (s.emit applicationId integration kind subject consumer).products = s.products ∧
      (s.emit applicationId integration kind subject consumer).subscriptions = s.subscriptions ∧
      s.next ≤ (s.emit applicationId integration kind subject consumer).next := by
  unfold Portal.emit
  split
  · exact ⟨rfl, rfl, Nat.le_refl _⟩
  · exact ⟨rfl, rfl, Nat.le_succ _⟩

theorem Queued.emit (h : Queued s) (applicationId integration kind : String) (subject : Subject)
    (consumer : String) (hsubject : ∀ id, subject = .subscription id → id < s.next) :
    Queued (s.emit applicationId integration kind subject consumer) := by
  obtain ⟨hproducts, hsubscriptions, -⟩ := emit_rows s applicationId integration kind subject consumer
  refine ⟨h.toFiled.emit _ _ _ _ _ hsubject, fun sub hsub hpending => ?_⟩
  rw [hsubscriptions] at hsub
  refine (h.awaits sub hsub hpending).mono ?_ (events_subset_emit ..)
  rw [hproducts]
  exact List.Subset.refl _

theorem mem_emit_of_new {applicationId integration kind consumer : String} {subject : Subject}
    (hnew : ∀ e ∈ s.events, e.subject ≠ subject) :
    ⟨s.next, applicationId, integration, kind, subject, .queued, 0, consumer, 0⟩ ∈
      (s.emit applicationId integration kind subject consumer).events := by
  unfold Portal.emit
  split
  · rename_i hany
    obtain ⟨e, he, hsame⟩ := List.any_eq_true.mp hany
    simp only [Bool.and_eq_true, beq_iff_eq] at hsame
    exact absurd hsame.2 (hnew e he)
  · exact List.mem_append_right _ (List.mem_singleton_self _)

/-! ### Steps that leave subscriptions and events -/

structure Kept (s s' : Portal) : Prop where
  products : Numbered (s'.products.map (·.id)) s'.next
  subset : s.products ⊆ s'.products
  subscriptions : s'.subscriptions = s.subscriptions
  events : s'.events = s.events
  suspended : s'.suspended = s.suspended
  next : s.next ≤ s'.next

theorem Queued.kept (h : Queued s) (hkept : Kept s s') : Queued s' := by
  obtain ⟨hproducts, hsubset, hsubscriptions, hevents, hsuspended, hnext⟩ := hkept
  refine ⟨⟨hproducts, ?_, ?_, ?_, ?_, ?_⟩, ?_⟩
  · rw [hsubscriptions]
    exact h.subscriptions.mono hnext
  · rw [hevents]
    exact h.events.mono hnext
  · rw [hevents]
    exact fun e he id hid => Nat.lt_of_lt_of_le (h.subjects e he id hid) hnext
  · rw [hevents]
    exact h.once
  · rw [hevents, hsuspended]
    exact h.read
  · rw [hsubscriptions]
    exact fun sub hsub hpending =>
      (h.awaits sub hsub hpending).mono hsubset (hevents ▸ List.Subset.refl _)

theorem kept_createProduct {body : ProductBody} (h : Queued s)
    (hok : createProduct s user body = .ok s') : Kept s s' := by
  simp only [createProduct, bind_eq_ok, demand_eq_ok, ensure_eq_ok, pure_eq_ok, each_eq_ok] at hok
  obtain ⟨-, -, applicationId, -, -, -, -, -, -, -, -, -, -, -, rfl⟩ := hok
  refine ⟨?_, List.subset_append_left _ _, rfl, rfl, rfl, Nat.le_succ _⟩
  simpa using h.products.append

theorem kept_publish {body : PublishBody} (h : Queued s) (hok : publish s user body now = .ok s') :
    Kept s s' := by
  simp only [publish, bind_eq_ok, ensure_eq_ok, pure_eq_ok, Prod.exists] at hok
  obtain ⟨-, -, -, -, -, -, -, -, -, -, -, -, mid, productId, hproduct, rfl⟩ := hok
  rcases (productFor_ok hproduct).2 with rfl | ⟨name, rfl⟩
  · exact ⟨h.products.mono (Nat.le_succ _), List.Subset.refl _, rfl, rfl, rfl, Nat.le_succ _⟩
  · refine ⟨?_, List.subset_append_left _ _, rfl, rfl, rfl, Nat.le_add_right _ 2⟩
    have hnumbered := h.products.append.mono (Nat.le_succ _)
    simpa [Portal.withProduct] using hnumbered

theorem kept_createVersion {apiVersion : String} (h : Queued s)
    (hok : createVersion s row apiVersion now = .ok s') : Kept s s' := by
  simp only [createVersion, bind_eq_ok, ensure_eq_ok, pure_eq_ok] at hok
  obtain ⟨-, -, -, -, -, -, rfl⟩ := hok
  exact ⟨h.products.mono (Nat.le_succ _), List.Subset.refl _, rfl, rfl, rfl, Nat.le_succ _⟩

theorem kept_putMembers {product : Product} {resourceIds : List Nat} (h : Queued s)
    (hok : putMembers s user product resourceIds = .ok s') : Kept s s' := by
  obtain ⟨-, -, -, rfl⟩ := putMembers_eq_ok.mp hok
  exact ⟨h.products, List.Subset.refl _, rfl, rfl, rfl, Nat.le_refl _⟩

/-! ### Steps that rewrite subscriptions and events in place -/

theorem Filed.inPlace (h : Filed s) (state : Subscription → SubscriptionState)
    (g : IntegrationEvent → IntegrationEvent) (hg : ∀ e, (g e).Copied e) :
    Filed { s with
      subscriptions := s.subscriptions.map fun sub => { sub with state := state sub }
      events := s.events.map g } := by
  refine ⟨h.products, ?_, ?_, ?_, ?_, ?_⟩
  · have hids : (s.subscriptions.map fun sub => { sub with state := state sub }).map (·.id) =
        s.subscriptions.map (·.id) := map_key_map _ fun _ _ => rfl
    exact hids ▸ h.subscriptions
  · have hids : (s.events.map g).map (·.id) = s.events.map (·.id) :=
      map_key_map g fun e _ => (hg e).id
    exact hids ▸ h.events
  · intro e he id hid
    obtain ⟨old, hold, rfl⟩ := List.mem_map.mp he
    exact h.subjects old hold id ((hg old).subject.symm.trans hid)
  · intro e he e' he' hintegration hkind hsubject
    obtain ⟨old, hold, rfl⟩ := List.mem_map.mp he
    obtain ⟨old', hold', rfl⟩ := List.mem_map.mp he'
    rw [h.once old hold old' hold']
    · rw [← (hg old).integration, hintegration, (hg old').integration]
    · rw [← (hg old).kind, hkind, (hg old').kind]
    · rw [← (hg old).subject, hsubject, (hg old').subject]
  · intro user copy hcopy
    obtain ⟨hcan, hskonet, e, he, hcopied⟩ := h.read user copy hcopy
    refine ⟨hcan, hskonet, g e, List.mem_map_of_mem he, ?_⟩
    exact ⟨(hg e).id.trans hcopied.id, (hg e).applicationId.trans hcopied.applicationId,
      (hg e).integration.trans hcopied.integration, (hg e).kind.trans hcopied.kind,
      (hg e).subject.trans hcopied.subject⟩

theorem Queued.inPlace (h : Queued s) (state : Subscription → SubscriptionState)
    (g : IntegrationEvent → IntegrationEvent) (hg : ∀ e, (g e).Copied e)
    (hpending : ∀ sub ∈ s.subscriptions, state sub = .pending → sub.state = .pending)
    (hopen : ∀ sub ∈ s.subscriptions, state sub = .pending → ∀ e ∈ s.events, e.Asks sub.id →
      e.Open → (g e).Open) :
    Queued { s with
      subscriptions := s.subscriptions.map fun sub => { sub with state := state sub }
      events := s.events.map g } := by
  refine ⟨h.toFiled.inPlace state g hg, fun sub hsub hstate => ?_⟩
  obtain ⟨old, hold, rfl⟩ := List.mem_map.mp hsub
  obtain ⟨p, hp, hpid, e, he, hasks, heopen, howner⟩ := h.awaits old hold (hpending old hold hstate)
  refine ⟨p, hp, hpid, g e, List.mem_map_of_mem he, ?_, hopen old hold hstate e he hasks heopen,
    (hg e).applicationId.trans howner⟩
  exact ⟨(hg e).integration.trans hasks.integration, (hg e).kind.trans hasks.kind,
    (hg e).subject.trans hasks.subject⟩

theorem IntegrationEvent.Copied.refl (e : IntegrationEvent) : e.Copied e := ⟨rfl, rfl, rfl, rfl, rfl⟩

theorem queued_deliver (h : Queued s) (id : Nat) : Queued (deliver s id) := by
  have hcopied : ∀ e : IntegrationEvent,
      (if e.id = id ∧ e.waits then e.delivered else e).Copied e := by
    intro e
    split
    · unfold IntegrationEvent.delivered
      dsimp only
      split <;> exact ⟨rfl, rfl, rfl, rfl, rfl⟩
    · exact .refl e
  have hkept := h.inPlace (·.state) _ hcopied (fun _ _ hpending => hpending) ?_
  · have hsame : (s.subscriptions.map fun sub => { sub with state := sub.state }) =
        s.subscriptions := List.map_id _
    rw [hsame] at hkept
    exact hkept
  · intro sub _ _ e _ hasks hopen
    split
    · unfold IntegrationEvent.delivered
      dsimp only
      split
      · exact .inr (.inl rfl)
      · rw [if_pos hasks.integration]
        exact .inr (.inr rfl)
    · exact hopen

theorem Queued.states (h : Queued s) (state : Subscription → SubscriptionState)
    (hpending : ∀ sub ∈ s.subscriptions, state sub = .pending → sub.state = .pending) :
    Queued { s with subscriptions := s.subscriptions.map fun sub => { sub with state := state sub } } := by
  have hkept := h.inPlace state id (fun e => .refl e) hpending fun _ _ _ _ _ _ hopen => hopen
  rw [List.map_id] at hkept
  exact hkept

def Subscription.activated (environment : String) (sub : Subscription) : SubscriptionState :=
  if sub.environment = environment ∧ sub.state = .activating then .active
  else if sub.environment = environment ∧ sub.state = .revoking then .revoked
  else sub.state

theorem activate_eq (s : Portal) (environment : String) :
    activate s environment = { s with
      subscriptions := s.subscriptions.map fun sub =>
        { sub with state := sub.activated environment } } := by
  unfold activate
  congr 1
  refine List.map_congr_left fun sub _ => ?_
  unfold Subscription.activated
  split
  · rfl
  · split <;> rfl

theorem queued_activate (h : Queued s) (environment : String) : Queued (activate s environment) := by
  rw [activate_eq]
  refine h.states _ fun sub _ hpending => ?_
  unfold Subscription.activated at hpending
  split at hpending
  · cases hpending
  · split at hpending
    · cases hpending
    · exact hpending

def Subscription.set (id : Nat) (state : SubscriptionState) (sub : Subscription) : SubscriptionState :=
  if sub.id = id then state else sub.state

theorem setState_eq (s : Portal) (id : Nat) (state : SubscriptionState) :
    s.setState id state = { s with
      subscriptions := s.subscriptions.map fun sub => { sub with state := sub.set id state } } := by
  unfold Portal.setState
  congr 1
  refine List.map_congr_left fun sub _ => ?_
  unfold Subscription.set
  split <;> rfl

theorem cancel_eq_ok (hok : cancel s user id = .ok s') :
    ∃ sub, s.subscriptions.find? (·.id == id) = some sub ∧
      s' = (s.setState id sub.state.withdrawn).emit sub.applicationId "email" "subscription.revoked"
        (.subscription id) "" := by
  simp only [cancel, bind_eq_ok, demand_eq_ok, ensure_eq_ok, pure_eq_ok] at hok
  obtain ⟨sub, hsub, -, -, -, -, rfl⟩ := hok
  exact ⟨sub, hsub, rfl⟩

theorem of_subscription (h : s.subscriptions.find? (·.id == id) = some sub) :
    sub ∈ s.subscriptions ∧ sub.id = id :=
  ⟨List.mem_of_find?_eq_some h, by simpa using List.find?_some h⟩

theorem queued_cancel (h : Queued s) (hok : cancel s user id = .ok s') : Queued s' := by
  obtain ⟨sub, hsub, rfl⟩ := cancel_eq_ok hok
  obtain ⟨hmem, hid⟩ := of_subscription hsub
  rw [setState_eq]
  apply Queued.emit
  · refine h.states _ fun old hold hpending => ?_
    unfold Subscription.set at hpending
    split at hpending
    · cases hstate : sub.state <;> rw [hstate] at hpending <;> cases hpending
    · exact hpending
  · intro id' heq
    cases heq
    exact h.subscriptions.below id (hid ▸ List.mem_map_of_mem hmem)

/-! ### Decisions -/

theorem decide_eq_ok {event : IntegrationEvent} (hok : decide s event decision = .ok s') :
    s' = s ∨ ∃ id, event.kind = "subscription.request" ∧ event.subject = .subscription id ∧
      decided s event decision id = .ok s' := by
  unfold decide at hok
  split at hok
  · cases hok
    exact .inl rfl
  · simp only [bind_eq_ok, ensure_eq_ok] at hok
    obtain ⟨-, -, hok⟩ := hok
    split at hok
    · rename_i id hkind hsubject
      exact .inr ⟨id, hkind, hsubject, hok⟩
    · cases hok

theorem queued_decided (h : Queued s) (hread : ∃ e ∈ s.events, e.Copied copy)
    (hsubject : copy.subject = .subscription id) (hok : decided s copy decision id = .ok s') :
    Queued s' := by
  obtain ⟨sub, hsub, -, -, rfl⟩ := decided_eq_ok.mp hok
  obtain ⟨hmem, hid⟩ := of_subscription hsub
  obtain ⟨row, hrow, hcopied⟩ := hread
  apply Queued.emit
  · rw [setState_eq]
    refine h.inPlace (·.set id decision.subscription)
      (fun e => if e.id = copy.id then { e with state := decision.event } else e) ?_ ?_ ?_
    · intro e
      split
      · exact ⟨rfl, rfl, rfl, rfl, rfl⟩
      · exact .refl e
    · intro old _ hpending
      unfold Subscription.set at hpending
      split at hpending
      · cases decision <;> cases hpending
      · exact hpending
    · intro old _ hpending e he hasks hopen
      unfold Subscription.set at hpending
      split at hpending
      · cases decision <;> cases hpending
      · rename_i hother
        -- the event that is decided asks about another subscription
        rw [if_neg fun hsame => hother ?_]
        · exact hopen
        · have heq : e = row := h.events.key_injective he hrow (hsame.trans hcopied.id.symm)
          have hboth := hasks.subject.symm.trans (heq ▸ hcopied.subject.trans hsubject)
          exact Subject.subscription.inj hboth
  · intro id' heq
    cases heq
    exact h.subscriptions.below id (hid ▸ List.mem_map_of_mem hmem)

theorem queued_decide (h : Queued s) (hread : ∃ e ∈ s.events, e.Copied copy)
    (hok : decide s copy decision = .ok s') : Queued s' := by
  rcases decide_eq_ok hok with rfl | ⟨id, -, hsubject, hdecided⟩
  · exact h
  · exact queued_decided h hread hsubject hdecided

/-! ### Subscriptions -/

def Portal.withSubscription (s : Portal) (productId : Nat) (applicationId environment : String)
    (state : SubscriptionState) : Portal :=
  { s with
    subscriptions := s.subscriptions ++ [⟨s.next, productId, applicationId, environment, state⟩]
    next := s.next + 1 }

theorem filed_withSubscription (h : Filed s) (productId : Nat) (applicationId environment : String)
    (state : SubscriptionState) :
    Filed (s.withSubscription productId applicationId environment state) := by
  refine ⟨h.products.mono (Nat.le_succ _), ?_, h.events.mono (Nat.le_succ _), ?_, h.once, h.read⟩
  · have hnumbered := h.subscriptions.append
    simpa [Portal.withSubscription] using hnumbered
  · exact fun e he id hid => Nat.lt_succ_of_lt (h.subjects e he id hid)

theorem filed_requestApproval (h : Filed s) (consumer publisher : String) (hid : id < s.next) :
    Filed (s.requestApproval consumer publisher id) := by
  have hlt : ∀ {t : Portal}, s.next ≤ t.next → ∀ id', Subject.subscription id = .subscription id' →
      id' < t.next := by
    intro t hle id' heq
    cases heq
    omega
  unfold Portal.requestApproval
  have h₁ := h.emit publisher "skonet" "subscription.request" (.subscription id) consumer
    (hlt (Nat.le_refl _))
  have hle₁ := (emit_rows s publisher "skonet" "subscription.request" (.subscription id) consumer).2.2
  have h₂ := h₁.emit consumer "email" "subscription.requested" (.subscription id) "" (hlt hle₁)
  have hle₂ := hle₁.trans (emit_rows _ consumer "email" "subscription.requested"
    (.subscription id) "").2.2
  have h₃ := h₂.emit publisher "email" "subscription.approval-needed" (.subscription id) "" (hlt hle₂)
  have h₄ := h₃.emit consumer "ldapws" "contacts" (.application consumer) "" (fun _ heq => nomatch heq)
  exact h₄.emit publisher "leanix" "metadata" (.application publisher) "" fun _ heq => nomatch heq

theorem requestApproval_rows (s : Portal) (consumer publisher : String) (id : Nat) :
    (s.requestApproval consumer publisher id).products = s.products ∧
      (s.requestApproval consumer publisher id).subscriptions = s.subscriptions ∧
      (s.emit publisher "skonet" "subscription.request" (.subscription id) consumer).events ⊆
        (s.requestApproval consumer publisher id).events := by
  unfold Portal.requestApproval
  refine ⟨?_, ?_, ?_⟩
  · rw [(emit_rows ..).1, (emit_rows ..).1, (emit_rows ..).1, (emit_rows ..).1, (emit_rows ..).1]
  · rw [(emit_rows ..).2.1, (emit_rows ..).2.1, (emit_rows ..).2.1, (emit_rows ..).2.1,
      (emit_rows ..).2.1]
  · refine List.Subset.trans ?_ (events_subset_emit ..)
    refine List.Subset.trans ?_ (events_subset_emit ..)
    refine List.Subset.trans ?_ (events_subset_emit ..)
    exact events_subset_emit ..

theorem subscribe_eq_ok {body : SubscribeBody} (hok : subscribe chain s user body = .ok s') :
    ∃ product, s.product body.productId = some product ∧
      ((product.applicationId = body.applicationId ∧
          s' = (s.withSubscription product.id body.applicationId body.environment .activating).emit
            body.applicationId "email" "subscription.approved" (.subscription s.next) "") ∨
        s' = (s.withSubscription product.id body.applicationId body.environment
          .pending).requestApproval body.applicationId product.applicationId s.next) := by
  simp only [subscribe, bind_eq_ok, demand_eq_ok, ensure_eq_ok, pure_eq_ok] at hok
  obtain ⟨-, -, product, hproduct, -, -, -, -, -, -, -, -, -, -, -, -, rfl⟩ := hok
  refine ⟨product, hproduct, ?_⟩
  by_cases hown : product.applicationId = body.applicationId
  · have hbeq : (product.applicationId == body.applicationId) = true := beq_iff_eq.mpr hown
    rw [hbeq]
    exact .inl ⟨hown, rfl⟩
  · have hbeq : (product.applicationId == body.applicationId) = false := beq_eq_false_iff_ne.mpr hown
    rw [hbeq]
    exact .inr rfl

theorem queued_subscribe {body : SubscribeBody} (h : Queued s)
    (hok : subscribe chain s user body = .ok s') : Queued s' := by
  obtain ⟨product, hproduct, ⟨-, rfl⟩ | rfl⟩ := subscribe_eq_ok hok
  · apply Queued.emit
    · refine ⟨filed_withSubscription h.toFiled .., fun sub hsub hpending => ?_⟩
      rcases List.mem_append.mp hsub with hold | hnew
      · exact (h.awaits sub hold hpending).mono (List.Subset.refl _) (List.Subset.refl _)
      · rw [List.mem_singleton.mp hnew] at hpending
        cases hpending
    · intro id heq
      cases heq
      exact Nat.lt_succ_self _
  · have hfiled := filed_withSubscription h.toFiled product.id body.applicationId body.environment
      .pending
    obtain ⟨hproducts, hsubscriptions, hevents⟩ := requestApproval_rows
      (s.withSubscription product.id body.applicationId body.environment .pending)
      body.applicationId product.applicationId s.next
    refine ⟨filed_requestApproval hfiled _ _ (Nat.lt_succ_self _), fun sub hsub hpending => ?_⟩
    rw [hsubscriptions] at hsub
    rcases List.mem_append.mp hsub with hold | hnew
    · refine (h.awaits sub hold hpending).mono ?_ ?_
      · rw [hproducts]
        exact List.Subset.refl _
      · refine List.Subset.trans ?_ hevents
        exact events_subset_emit (s.withSubscription product.id body.applicationId body.environment
          .pending) ..
    · obtain ⟨hmem, hid⟩ := of_product hproduct
      have hfresh : ∀ e ∈ (s.withSubscription product.id body.applicationId body.environment
          .pending).events, e.subject ≠ .subscription s.next := by
        intro e he heq
        exact Nat.lt_irrefl _ (h.subjects e he _ heq)
      rw [List.mem_singleton.mp hnew]
      refine ⟨product, hproducts ▸ hmem, rfl, _, hevents (mem_emit_of_new hfresh), ⟨rfl, rfl, rfl⟩,
        .inl rfl, rfl⟩

/-! ### Products -/

theorem queued_deleteProduct (h : Queued s) (hok : deleteProduct s user id = .ok s') : Queued s' := by
  simp only [deleteProduct, bind_eq_ok, demand_eq_ok, ensure_eq_ok, pure_eq_ok] at hok
  obtain ⟨-, -, -, -, -, -, rfl⟩ := hok
  refine ⟨⟨h.products.filter _, h.subscriptions.filter _, h.events, h.subjects, h.once, h.read⟩, ?_⟩
  intro sub hsub hpending
  obtain ⟨hmem, hother⟩ := List.mem_filter.mp hsub
  obtain ⟨p, hp, hpid, hevent⟩ := h.awaits sub hmem hpending
  refine ⟨p, List.mem_filter.mpr ⟨hp, ?_⟩, hpid, hevent⟩
  rw [hpid]
  exact hother

def Product.given (moving : List Nat) (target : String) (p : Product) : Product :=
  if moving.contains p.id then { p with applicationId := target } else p

theorem Product.given_id (moving : List Nat) (target : String) (p : Product) :
    (p.given moving target).id = p.id := by
  unfold Product.given
  split <;> rfl

def Portal.moving (s : Portal) (row : Api) (target : String) : List Nat :=
  ((s.selling ((s.family row.applicationId row.name).map (·.id))).filter
    (·.applicationId ≠ target)).map (·.id)

theorem transfer_eq_ok (hok : transfer s user row body now = .ok s') :
    assertTransfer s user row body body.target = .ok () ∧ s'.subscriptions = s.subscriptions ∧
      s'.events = s.events ∧ s'.suspended = s.suspended ∧ s'.next = s.next ∧
      s'.products = s.products.map (·.given (s.moving row body.target) body.target) := by
  simp only [transfer, bind_eq_ok, pure_eq_ok] at hok
  obtain ⟨⟨⟩, hassert, rfl⟩ := hok
  exact ⟨hassert, rfl, rfl, rfl, rfl, rfl⟩

theorem transfer_of_assert (now : Nat)
    (hassert : assertTransfer s user row body body.target = .ok ()) :
    ∃ s', transfer s user row body now = .ok s' := by
  have hassert : assertTransfer s user row body (Groups.trimmed (body.applicationId.getD "")) = .ok () :=
    hassert
  unfold transfer
  dsimp only
  rw [hassert]
  exact ⟨_, rfl⟩

theorem queued_transfer
    (h : Queued s) (hunawaited : ∀ p ∈ s.selling ((s.family row.applicationId row.name).map (·.id)),
      p.applicationId ≠ body.target →
      ∀ sub ∈ s.subscriptions, sub.productId = p.id → sub.state ≠ .pending)
    (hok : transfer s user row body now = .ok s') : Queued s' := by
  obtain ⟨-, hsubscriptions, hevents, hsuspended, hnext, hproducts⟩ := transfer_eq_ok hok
  have hids : (s.products.map (·.given (s.moving row body.target) body.target)).map (·.id) =
      s.products.map (·.id) := map_key_map _ fun p _ => Product.given_id ..
  refine ⟨⟨?_, ?_, ?_, ?_, ?_, ?_⟩, ?_⟩
  · rw [hproducts, hids, hnext]
    exact h.products
  · rw [hsubscriptions, hnext]
    exact h.subscriptions
  · rw [hevents, hnext]
    exact h.events
  · rw [hevents, hnext]
    exact h.subjects
  · rw [hevents]
    exact h.once
  · rw [hevents, hsuspended]
    exact h.read
  · intro sub hsub hpending
    rw [hsubscriptions] at hsub
    obtain ⟨p, hp, hpid, e, he, hasks, hopen, howner⟩ := h.awaits sub hsub hpending
    have hstays : p.id ∉ s.moving row body.target := by
      intro hmoves
      obtain ⟨p', hp', hsame⟩ := List.mem_map.mp hmoves
      obtain ⟨hselling, hne⟩ := List.mem_filter.mp hp'
      exact hunawaited p' hselling (by simpa using hne) sub hsub (hpid.symm.trans hsame.symm) hpending
    have hgiven : p.given (s.moving row body.target) body.target = p :=
      if_neg fun hc => hstays (List.contains_iff_mem.mp hc)
    refine ⟨p, ?_, hpid, e, hevents ▸ he, hasks, hopen, howner⟩
    rw [hproducts]
    exact hgiven ▸ List.mem_map_of_mem hp

/-! ### Steps -/

theorem Queued.suspend {handler : Except HttpError Suspended} (h : Queued s)
    (hread : ∀ user copy, handler = .ok (.decision user copy) →
      can user copy.applicationId = true ∧ copy.integration = "skonet" ∧
        ∃ e ∈ s.events, e.Copied copy) : Queued (s.suspend handler) := by
  cases handler with
  | error e => exact h
  | ok handler =>
    refine ⟨⟨h.products, h.subscriptions, h.events, h.subjects, h.once, ?_⟩, h.awaits⟩
    intro user copy hcopy
    rcases List.mem_append.mp hcopy with hold | hnew
    · exact h.read user copy hold
    · rw [← List.mem_singleton.mp hnew] at hread
      exact hread user copy rfl

theorem queued_resumed (h : Queued s) (index : Nat) : Queued (s.resumed index) :=
  ⟨⟨h.products, h.subscriptions, h.events, h.subjects, h.once, fun user copy hcopy =>
    h.read user copy (List.mem_of_mem_eraseIdx hcopy)⟩, h.awaits⟩

theorem read_of_openDecision {user' : User}
    (hok : openDecision s user id = .ok (.decision user' copy)) :
    can user' copy.applicationId = true ∧ copy.integration = "skonet" ∧
      ∃ e ∈ s.events, e.Copied copy := by
  obtain ⟨e, he, hskonet, hcan, heq⟩ := openDecision_eq_ok.mp hok
  cases heq
  exact ⟨hcan, hskonet, _, List.mem_of_find?_eq_some he, .refl _⟩

theorem not_decision_of_openMembers {user' : User} :
    openMembers s user id ≠ .ok (.decision user' copy) := by
  intro h
  simp only [openMembers, bind_eq_ok, demand_eq_ok, pure_eq_ok, reduceCtorEq, and_false,
    exists_false] at h

theorem not_decision_of_openVersion {user' : User} :
    openVersion s user id ≠ .ok (.decision user' copy) := by
  intro h
  simp only [openVersion, bind_eq_ok, demand_eq_ok, pure_eq_ok, reduceCtorEq, and_false,
    exists_false] at h

theorem not_decision_of_openOwner {user' : User} :
    openOwner s user id ≠ .ok (.decision user' copy) := by
  intro h
  simp only [openOwner, bind_eq_ok, demand_eq_ok, pure_eq_ok, reduceCtorEq, and_false,
    exists_false] at h

theorem orSame_of {P : Portal → Prop} {outcome : Except HttpError Portal} (h : P s)
    (hok : ∀ s', outcome = .ok s' → P s') : P (s.orSame outcome) := by
  cases outcome with
  | ok s' => exact hok s' rfl
  | error e => exact h

theorem queued_step (h : Queued s) (hunawaited : Unawaited s event s')
    (hstep : step chain s event = some s') : Queued s' := by
  cases event with
  | createProduct user body =>
    cases hstep
    exact orSame_of h fun _ hok => h.kept (kept_createProduct h hok)
  | deleteProduct user id =>
    cases hstep
    exact orSame_of h fun _ => queued_deleteProduct h
  | publish user body now =>
    cases hstep
    exact orSame_of h fun _ hok => h.kept (kept_publish h hok)
  | openMembers user id =>
    cases hstep
    exact h.suspend fun _ _ hok => absurd hok not_decision_of_openMembers
  | openVersion user id =>
    cases hstep
    exact h.suspend fun _ _ hok => absurd hok not_decision_of_openVersion
  | openOwner user id =>
    cases hstep
    exact h.suspend fun _ _ hok => absurd hok not_decision_of_openOwner
  | openDecision user id =>
    cases hstep
    exact h.suspend fun _ _ => read_of_openDecision
  | resumeMembers index resourceIds =>
    simp only [step] at hstep
    split at hstep
    · cases hstep
      have hresumed := queued_resumed h index
      exact orSame_of hresumed fun _ hok => hresumed.kept (kept_putMembers hresumed hok)
    · cases hstep
  | resumeVersion index apiVersion now =>
    simp only [step] at hstep
    split at hstep
    · cases hstep
      have hresumed := queued_resumed h index
      exact orSame_of hresumed fun _ hok => hresumed.kept (kept_createVersion hresumed hok)
    · cases hstep
  | resumeOwner index body now =>
    simp only [step] at hstep
    split at hstep
    · rename_i user row hrow
      cases hstep
      have hresumed := queued_resumed h index
      refine orSame_of hresumed fun s' hok => ?_
      exact queued_transfer hresumed (hunawaited user row hrow (transfer_eq_ok hok).1) hok
    · cases hstep
  | resumeDecision index decision =>
    simp only [step] at hstep
    split at hstep
    · rename_i user copy hcopy
      cases hstep
      obtain ⟨-, -, hread⟩ := h.read user copy (List.mem_of_getElem? hcopy)
      have hresumed := queued_resumed h index
      exact orSame_of hresumed fun _ => queued_decide hresumed hread
    · cases hstep
  | subscribe user body =>
    cases hstep
    exact orSame_of h fun _ => queued_subscribe h
  | cancel user id =>
    cases hstep
    exact orSame_of h fun _ => queued_cancel h
  | deliver id =>
    cases hstep
    exact queued_deliver h id
  | activate environment =>
    cases hstep
    exact queued_activate h environment
  | released releases =>
    cases hstep
    exact h.kept ⟨h.products, List.Subset.refl _, rfl, rfl, rfl, Nat.le_refl _⟩

/-! ### States -/

theorem moved_of_subset (hsub : s'.subscriptions ⊆ s.subscriptions) : Moved s event s' :=
  fun sub hmem => .inl ⟨sub, hsub hmem, sub.state, rfl, .same event sub⟩

theorem moved_of_eq (hsame : s'.subscriptions = s.subscriptions) : Moved s event s' :=
  moved_of_subset (hsame ▸ List.Subset.refl _)

theorem moved_of_states (state : Subscription → SubscriptionState)
    (hsubscriptions : s'.subscriptions = s.subscriptions.map fun sub => { sub with state := state sub })
    (hmoves : ∀ sub ∈ s.subscriptions, Moves s event sub (state sub)) : Moved s event s' := by
  intro sub' hsub'
  rw [hsubscriptions] at hsub'
  obtain ⟨sub, hsub, rfl⟩ := List.mem_map.mp hsub'
  exact .inl ⟨sub, hsub, state sub, rfl, hmoves sub hsub⟩

theorem moved_suspend (s : Portal) (handler : Except HttpError Suspended) :
    Moved s event (s.suspend handler) := by
  cases handler with
  | ok handler => exact moved_of_subset (List.Subset.refl _)
  | error e => exact moved_of_subset (List.Subset.refl _)

theorem moved_activate (s : Portal) (environment : String) :
    Moved s (.activate environment) (activate s environment) := by
  rw [activate_eq]
  refine moved_of_states _ rfl fun sub _ => ?_
  unfold Subscription.activated
  split
  · rename_i hactivating
    obtain ⟨rfl, hstate⟩ := hactivating
    exact .activated sub hstate
  · split
    · rename_i hrevoking
      obtain ⟨rfl, hstate⟩ := hrevoking
      exact .revoked sub hstate
    · exact .same _ sub

theorem moves_withdrawn (s : Portal) (user : User) (sub : Subscription) :
    Moves s (.cancel user sub.id) sub sub.state.withdrawn := by
  have hsame := Moves.same (s := s) (.cancel user sub.id) sub
  cases hstate : sub.state with
  | pending => exact .cancelled user sub hstate
  | activating => exact .withdrawn user sub (.inl hstate)
  | active => exact .withdrawn user sub (.inr hstate)
  | revoking =>
    rw [hstate] at hsame
    exact hsame
  | revoked =>
    rw [hstate] at hsame
    exact hsame
  | rejected =>
    rw [hstate] at hsame
    exact hsame
  | cancelled =>
    rw [hstate] at hsame
    exact hsame

theorem moved_cancel (h : Filed s) (hok : cancel s user id = .ok s') :
    Moved s (.cancel user id) s' := by
  obtain ⟨sub, hsub, rfl⟩ := cancel_eq_ok hok
  obtain ⟨hmem, rfl⟩ := of_subscription hsub
  refine moved_of_states (·.set sub.id sub.state.withdrawn) ?_ fun old hold => ?_
  · rw [(emit_rows ..).2.1, setState_eq]
  unfold Subscription.set
  split
  · rename_i hsame
    rw [h.subscriptions.key_injective hold hmem hsame]
    exact moves_withdrawn s user sub
  · exact .same _ old

theorem moved_decided {index : Nat} (h : Filed s)
    (hcopy : s.suspended[index]? = some (.decision user copy)) (hasks : copy.Asks id)
    (hok : decided (s.resumed index) copy decision id = .ok s') :
    Moved s (.resumeDecision index decision) s' := by
  obtain ⟨sub, hsub, hpending, ⟨p, hp, howner⟩, rfl⟩ := decided_eq_ok.mp hok
  obtain ⟨hmem, rfl⟩ := of_subscription hsub
  obtain ⟨hpmem, hpid⟩ := of_product hp
  obtain ⟨hcan, -, -⟩ := h.read user copy (List.mem_of_getElem? hcopy)
  refine moved_of_states (·.set sub.id decision.subscription) ?_ fun old hold => ?_
  · rw [(emit_rows ..).2.1, setState_eq]
    rfl
  unfold Subscription.set
  split
  · rename_i hsame
    rw [h.subscriptions.key_injective hold hmem hsame]
    exact .decided index decision user copy sub p hcopy hasks hpmem hpid (howner ▸ hcan) hpending
  · exact .same _ old

theorem moved_subscribe {body : SubscribeBody} (h : Filed s)
    (hok : subscribe chain s user body = .ok s') : Moved s (.subscribe user body) s' := by
  have hnew : ∀ old ∈ s.subscriptions, old.id ≠ s.next := fun old hold heq =>
    Nat.lt_irrefl _ (heq ▸ h.subscriptions.below old.id (List.mem_map_of_mem hold))
  obtain ⟨product, hproduct, ⟨hown, rfl⟩ | rfl⟩ := subscribe_eq_ok hok
  · intro sub hsub
    rw [(emit_rows ..).2.1] at hsub
    rcases List.mem_append.mp hsub with hold | hadded
    · exact .inl ⟨sub, hold, sub.state, rfl, .same _ sub⟩
    · rw [List.mem_singleton.mp hadded]
      obtain ⟨hmem, -⟩ := of_product hproduct
      exact .inr ⟨hnew, .inr ⟨rfl, product, hmem, rfl, hown⟩⟩
  · intro sub hsub
    rw [(requestApproval_rows ..).2.1] at hsub
    rcases List.mem_append.mp hsub with hold | hadded
    · exact .inl ⟨sub, hold, sub.state, rfl, .same _ sub⟩
    · rw [List.mem_singleton.mp hadded]
      exact .inr ⟨hnew, .inl rfl⟩

theorem moved_step (h : Queued s) (hstep : step chain s event = some s') : Moved s event s' := by
  have hsame : Moved s event s := moved_of_subset (List.Subset.refl _)
  cases event with
  | createProduct user body =>
    cases hstep
    exact orSame_of hsame fun _ hok =>
      moved_of_eq (kept_createProduct h hok).subscriptions
  | deleteProduct user id =>
    cases hstep
    refine orSame_of hsame fun s' hok => moved_of_subset ?_
    simp only [deleteProduct, bind_eq_ok, demand_eq_ok, ensure_eq_ok, pure_eq_ok] at hok
    obtain ⟨-, -, -, -, -, -, rfl⟩ := hok
    exact List.filter_subset_self _
  | publish user body now =>
    cases hstep
    exact orSame_of hsame fun _ hok =>
      moved_of_eq (kept_publish h hok).subscriptions
  | openMembers user id =>
    cases hstep
    exact moved_suspend _ _
  | openVersion user id =>
    cases hstep
    exact moved_suspend _ _
  | openOwner user id =>
    cases hstep
    exact moved_suspend _ _
  | openDecision user id =>
    cases hstep
    exact moved_suspend _ _
  | resumeMembers index resourceIds =>
    simp only [step] at hstep
    split at hstep
    · cases hstep
      exact orSame_of (s := s.resumed index) hsame fun _ hok =>
        moved_of_eq (s := s) (kept_putMembers (queued_resumed h index) hok).subscriptions
    · cases hstep
  | resumeVersion index apiVersion now =>
    simp only [step] at hstep
    split at hstep
    · cases hstep
      exact orSame_of (s := s.resumed index) hsame fun _ hok =>
        moved_of_eq (s := s) (kept_createVersion (queued_resumed h index) hok).subscriptions
    · cases hstep
  | resumeOwner index body now =>
    simp only [step] at hstep
    split at hstep
    · cases hstep
      exact orSame_of (s := s.resumed index) hsame fun _ hok =>
        moved_of_eq (s := s) (transfer_eq_ok hok).2.1
    · cases hstep
  | resumeDecision index decision =>
    simp only [step] at hstep
    split at hstep
    · rename_i user copy hcopy
      cases hstep
      obtain ⟨-, hskonet, -⟩ := h.read user copy (List.mem_of_getElem? hcopy)
      refine orSame_of (s := s.resumed index) hsame fun s' hok => ?_
      rcases decide_eq_ok hok with rfl | ⟨id, hkind, hsubject, hdecided⟩
      · exact moved_of_subset (List.Subset.refl _)
      · exact moved_decided h.toFiled hcopy ⟨hskonet, hkind, hsubject⟩ hdecided
    · cases hstep
  | subscribe user body =>
    cases hstep
    exact orSame_of hsame fun _ => moved_subscribe h.toFiled
  | cancel user id =>
    cases hstep
    exact orSame_of hsame fun _ => moved_cancel h.toFiled
  | deliver id =>
    cases hstep
    exact hsame
  | activate environment =>
    cases hstep
    exact moved_activate s environment
  | released releases =>
    cases hstep
    exact hsame

/-! ### Runs -/

theorem unawaited_of_answerable (h : Queued s) (hok : transfer s user row body now = .ok s')
    (hanswerable : ∀ sub ∈ s'.subscriptions, sub.state = .pending → Answerable s' sub) :
    ∀ p ∈ s.selling ((s.family row.applicationId row.name).map (·.id)),
      p.applicationId ≠ body.target →
        ∀ sub ∈ s.subscriptions, sub.productId = p.id → sub.state ≠ .pending := by
  obtain ⟨-, hsubscriptions, hevents, -, -, hproducts⟩ := transfer_eq_ok hok
  intro p hselling hne sub hsub hof hpending
  obtain ⟨p', hp', hp'id, e, he, hasks, -, hdecide⟩ :=
    hanswerable sub (hsubscriptions ▸ hsub) hpending
  rw [hproducts] at hp'
  obtain ⟨p₁, hp₁, rfl⟩ := List.mem_map.mp hp'
  -- the product is the target's now, and the event still the old owner's
  have hmoves : p₁.id ∈ s.moving row body.target := by
    rw [← Product.given_id (s.moving row body.target) body.target p₁, hp'id, hof]
    exact List.mem_map_of_mem (List.mem_filter.mpr ⟨hselling, by simpa using hne⟩)
  have htarget : (p₁.given (s.moving row body.target) body.target).applicationId = body.target := by
    rw [Product.given, if_pos (List.contains_iff_mem.mpr hmoves)]
  obtain ⟨hopened, -⟩ := hdecide ⟨"", false, [body.target]⟩ (by rw [htarget]; simp [can])
  obtain ⟨found, -, -, hcan, heq⟩ := openDecision_eq_ok.mp hopened
  cases heq
  have htaken : e.applicationId = body.target := by simpa [can] using hcan
  obtain ⟨p₀, hp₀, hp₀id, e₀, he₀, hasks₀, -, howner⟩ := h.awaits sub hsub hpending
  have hsame : e = e₀ := hasks.unique h.toFiled (hevents ▸ he) he₀ hasks₀
  have hproduct : p₀ = p :=
    h.products.key_injective hp₀ (mem_selling.mp hselling).1 (hp₀id.trans hof)
  rw [← hproduct, ← howner, ← hsame] at hne
  exact hne htaken

theorem governed_step_iff (h : Queued s) (hstep : step chain s event = some s') :
    Unawaited s event s' ↔ Governed s event s' := by
  constructor
  · intro hunawaited
    have hqueued := queued_step h hunawaited hstep
    exact ⟨fun _ hsub hpending => answerable_of_queued hqueued hsub hpending, moved_step h hstep⟩
  · intro hgoverned
    cases event with
    | resumeOwner index body now =>
      intro user row hrow hassert
      simp only [step, hrow, Option.some.injEq] at hstep
      obtain ⟨s'', hok⟩ := transfer_of_assert (s := s.resumed index) now hassert
      rw [hok] at hstep
      subst hstep
      exact unawaited_of_answerable (s := s.resumed index) (queued_resumed h index) hok
        hgoverned.answerable
    | _ => trivial

theorem decidable_iff_unawaited (chain : List String) (s : Portal) (events : List Event)
    (h : Queued s) :
    EveryStep (step chain) Governed s events ↔ EveryStep (step chain) Unawaited s events :=
  (everyStep_congr_of_kept (P := Unawaited) (Q := Governed) (I := Queued)
    (fun _ _ _ h hstep hunawaited => queued_step h hunawaited hstep)
    (fun _ _ _ h hstep => governed_step_iff h hstep) h events).symm

end

theorem queued_opened : Queued opened := by
  refine ⟨⟨Numbered.nil 1, Numbered.nil 1, Numbered.nil 1, ?_, ?_, ?_⟩, ?_⟩
  · exact fun _ h => absurd h List.not_mem_nil
  · exact fun _ h => absurd h List.not_mem_nil
  · exact fun _ _ h => absurd h List.not_mem_nil
  · exact fun _ h => absurd h List.not_mem_nil

def eve : User := ⟨"eve", false, ["ledger"]⟩

def requested : List Event :=
  [.publish ada ⟨"payments", "orders", "v1", none, some "orders"⟩ 10, .released [(2, "dev")],
    .subscribe eve ⟨1, "ledger", "dev", "reports"⟩]

def unawaited (s : Portal) : Event → Bool
  | .resumeOwner _ _ _ => s.subscriptions.all fun sub => sub.state != .pending
  | _ => true

theorem unawaited_sound (s : Portal) (event : Event) (s' : Portal) (h : unawaited s event = true) :
    Unawaited s event s' := by
  cases event with
  | resumeOwner index body now =>
    intro user row _ _ p _ _ sub hsub _
    have hsettled := List.all_eq_true.mp h sub hsub
    exact bne_iff_ne.mp hsettled
  | _ => trivial

theorem governed_requested : EveryStep (step ["dev"]) Governed opened
    (requested ++ [.deliver 4, .openDecision ada 4, .resumeDecision 0 .approved, .activate "dev",
      .openOwner ada 2, .resumeOwner 0 ⟨some "treasury", fun _ => true⟩ 40]) :=
  (decidable_iff_unawaited ["dev"] opened _ queued_opened).mpr
    (everyStep_of_passes unawaited unawaited_sound (by decide +kernel))

def unanswered (s : Portal) : Bool :=
  s.subscriptions.any fun sub => sub.state == .pending && s.products.all fun p =>
    p.id != sub.productId || s.events.all fun e =>
      e.integration != "skonet" || !(openDecision s ⟨"", false, [p.applicationId]⟩ e.id).isOk

theorem stranded_by_transfer : ¬∀ (chain : List String) (s : Portal) (events : List Event),
    Queued s → EveryStep (step chain) Governed s events := by
  intro hall
  have hrun := hall ["dev"] opened (requested ++ [.openOwner ada 2] ++
    [.resumeOwner 0 ⟨some "treasury", fun _ => true⟩ 40]) queued_opened
  refine not_everyStep_of_observed (P := Governed) (fun _ s => unanswered s) ?_ (by decide +kernel) hrun
  intro s₁ s₂ hbad hgoverned
  obtain ⟨sub, hsub, hwaits⟩ := List.any_eq_true.mp hbad
  simp only [Bool.and_eq_true, beq_iff_eq, List.all_eq_true, Bool.or_eq_true, bne_iff_ne] at hwaits
  obtain ⟨hpending, hnone⟩ := hwaits
  obtain ⟨p, hp, hpid, e, he, hasks, -, hdecide⟩ := hgoverned.answerable sub hsub hpending
  obtain ⟨hopened, -⟩ := hdecide ⟨"", false, [p.applicationId]⟩ (by simp [can])
  have hrefused := ((hnone p hp).resolve_left (not_not_intro hpid) e he).resolve_left
    (not_not_intro hasks.integration)
  rw [hopened] at hrefused
  cases hrefused

end Apim.Catalog
