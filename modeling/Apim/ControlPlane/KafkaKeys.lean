import Apim.Lib.Table
import Apim.Lib.Trace
import Apim.ControlPlane.Directory
import Apim.ControlPlane.Fleet

/-!
# The key every topic's API presents

The APIs of Kafka topics call the shared proxy through the gateways, and present the platform's own
subscription key to it: a policy names it `platform:kafka-proxy`, and the build of a document puts
the key behind that name (`platformKafkaKey`, `control-plane/src/kafka-proxy.ts:222-235`) and the
hashes of all keys (`buildSubscriptions`) into one document. A pass of the key expiry marks the old
keys of consumers and replaces the old keys of the platform (`rotatePlatformKeys`, `runKeyExpiry`).

A call to the proxy leaves one instance and is checked by another, and the two may serve documents
of different ages. The row of a subscription keeps one primary key, so the replaced key is nowhere
once a pass is over. What is shown of runs of passes and polls is that each instance's key is
accepted by every other one as long as no poll brings a second key among the documents
(`accepted_along_runs`); a pass between the polls of two instances is enough to lock each of them
out of the other (`lockedOut_of_rotation`).
-/

namespace Apim.KafkaKeys
open ControlPlane Trace
open Groups (PLATFORM_APPLICATION_ID)

def KAFKA_PROXY_ROLE : String := "kafka-proxy"

def PLATFORM_KAFKA_KEY_REF : String := "platform:kafka-proxy"

def DAY_MS : Nat := 86400000

/-! ### Rows -/

structure KeyRow where
  subscription : Subscription
  primaryKeyAt : Option Nat
  secondaryKeyAt : Option Nat
  createdAt : Nat
  stored : subscription.primaryKeyEnc ≠ ""

structure Minted where
  enc : String
  stored : enc ≠ ""

/-- `hashKey` and `decrypt` (`control-plane/src/crypto.ts:42-56`), of which a platform has the
composite. -/
structure KeyMaterial (platform : Platform) where
  decrypt : String → String
  hashKey : String → String
  keyHash_eq : ∀ enc, platform.keyHash enc = hashKey (decrypt enc)

structure AgePolicy where
  warnDays : Nat
  expireDays : Nat

/-- The database with the dates of its keys, and the document each instance took last. -/
structure Fleet where
  db : Database
  rows : List KeyRow
  platformRole : ResourceId → Option String
  documents : List (Nat × GatewayConfig)

/-! ### Key expiry -/

def KeyRow.working (row : KeyRow) : Bool :=
  row.subscription.state == .activating || row.subscription.state == .active

def KeyRow.due (policy : AgePolicy) (now : Nat) (row : KeyRow) : Bool :=
  row.subscription.applicationId == PLATFORM_APPLICATION_ID && row.working &&
    policy.warnDays * DAY_MS + row.primaryKeyAt.getD row.createdAt ≤ now

def KeyRow.rotated (minted : Minted) (now : Nat) (row : KeyRow) : KeyRow where
  subscription :=
    { row.subscription with primaryKeyEnc := minted.enc, primaryKeyExpiredAt := none }
  primaryKeyAt := some now
  secondaryKeyAt := row.secondaryKeyAt
  createdAt := row.createdAt
  stored := minted.stored

/-- `rotatePlatformKeys` (`kafka-proxy.ts:247-271`), with the key minted for each row: the rows after
it and how many were rotated. -/
def rotatePlatformKeys (policy : AgePolicy) (now : Nat) (minted : Nat → Minted)
    (rows : List KeyRow) : List KeyRow × Nat :=
  (rows.map fun row =>
      if row.due policy now then row.rotated (minted row.subscription.id) now else row,
    rows.countP (·.due policy now))

inductive SlotFate where
  | kept
  | warned
  | expired
  deriving DecidableEq

/-- The body of the loop over slots (`key-expiry.ts:107-112`); an age is in milliseconds. -/
def slotFate (policy : AgePolicy) (age : Nat) (alreadyExpired : Bool) : SlotFate :=
  if alreadyExpired ∨ age < policy.expireDays * DAY_MS then
    if !alreadyExpired ∧ policy.warnDays * DAY_MS ≤ age then .warned else .kept
  else .expired

def KeyRow.aging (row : KeyRow) : Bool :=
  row.subscription.state == .active && row.subscription.applicationId != PLATFORM_APPLICATION_ID

def KeyRow.primaryFate (policy : AgePolicy) (now : Nat) (row : KeyRow) : SlotFate :=
  slotFate policy (now - row.primaryKeyAt.getD row.createdAt)
    row.subscription.primaryKeyExpiredAt.isSome

def KeyRow.secondaryFate (policy : AgePolicy) (now : Nat) (row : KeyRow) : SlotFate :=
  if row.subscription.secondaryKeyEnc.all (·.isEmpty) then .kept
  else slotFate policy (now - row.secondaryKeyAt.getD row.createdAt)
    row.subscription.secondaryKeyExpiredAt.isSome

def marked (fate : SlotFate) (stamp : Nat) (mark : Option Nat) : Option Nat :=
  if fate = .expired then some stamp else mark

def KeyRow.aged (policy : AgePolicy) (now stamp : Nat) (row : KeyRow) : KeyRow :=
  if row.aging then
    { row with
      subscription := { row.subscription with
        primaryKeyExpiredAt :=
          marked (row.primaryFate policy now) stamp row.subscription.primaryKeyExpiredAt
        secondaryKeyExpiredAt :=
          marked (row.secondaryFate policy now) stamp row.subscription.secondaryKeyExpiredAt }
      stored := row.stored }
  else row

structure KeyExpiryResult where
  expired : Nat
  warned : Nat

/-- `runKeyExpiry` (`key-expiry.ts:63-136`). The rows it ages are no platform rows, so it does not
matter that they are read before the rotation. -/
def runKeyExpiry (policy : AgePolicy) (now stamp : Nat) (minted : Nat → Minted)
    (rows : List KeyRow) : List KeyRow × KeyExpiryResult :=
  let fates := (rows.filter (·.aging)).flatMap fun row =>
    [row.primaryFate policy now, row.secondaryFate policy now]
  ((rotatePlatformKeys policy now minted rows).1.map (·.aged policy now stamp),
    ⟨fates.count .expired, fates.count .warned⟩)

/-! ### The key in a document -/

def Fleet.presentable (s : Fleet) (environment : Environment) (row : KeyRow) : Bool :=
  (s.db.estate.productMembers.any fun member =>
      member.1 == row.subscription.productId && s.platformRole member.2 == some KAFKA_PROXY_ROLE) &&
    row.subscription.applicationId == PLATFORM_APPLICATION_ID &&
    row.subscription.environment == environment && row.working &&
    row.subscription.primaryKeyExpiredAt.isNone

def older (a b : KeyRow) : Prop := a.createdAt ≤ b.createdAt

instance : DecidableRel older := fun a b => inferInstanceAs (Decidable (a.createdAt ≤ b.createdAt))

def Fleet.platformKafkaRow (s : Fleet) (environment : Environment) : Option KeyRow :=
  ((s.rows.filter (s.presentable environment)).insertionSort older).head?

/-- `platformKafkaKey` (`kafka-proxy.ts:222-235`). -/
def Fleet.platformKafkaKey {platform : Platform} (keys : KeyMaterial platform) (s : Fleet)
    (environment : Environment) : Option String :=
  (s.platformKafkaRow environment).map fun row => keys.decrypt row.subscription.primaryKeyEnc

/-- The database a document is built from at an instant: the vault answers to the platform's
reference with the platform's key (`credentials.ts:315-318`). -/
def Fleet.database {platform : Platform} (keys : KeyMaterial platform) (s : Fleet) (now : Nat) :
    Database :=
  { s.db with
    clock := now
    estate := { s.db.estate with
      subscriptions := s.rows.map (·.subscription)
      references := fun environment kind ref =>
        if kind = .secret ∧ ref = PLATFORM_KAFKA_KEY_REF then
          (s.platformKafkaKey keys environment).map .str
        else s.db.estate.references environment kind ref } }

def kafkaSecret (doc : GatewayConfig) : Option String :=
  doc.body.references.findSome? fun ref =>
    if ref.1 = .secret ∧ ref.2.1 = PLATFORM_KAFKA_KEY_REF then
      match ref.2.2 with
      | .str key => some key
      | _ => none
    else none

def acceptedHashes (doc : GatewayConfig) : List String :=
  doc.body.subscriptions.flatMap (·.keyHashes)

/-! ### Passes and polls -/

inductive Event where
  | pass (now stamp : Nat) (minted : Nat → Minted)
  | poll (id : Nat) (now : Nat)

def Fleet.gatewayOf (s : Fleet) (environment : Environment) (id : Nat) : Option TargetId :=
  ((s.db.estate.instances.find? (·.id == id)).map (·.targetId)).filter fun targetId =>
    (gatewaysIn s.db environment).any (·.id == targetId)

def Fleet.Fresh (platform : Platform) (s : Fleet) (policy : AgePolicy) (now : Nat)
    (minted : Nat → Minted) : Prop :=
  ∀ row ∈ s.rows, row.due policy now = true →
    ∀ taken ∈ s.documents, platform.keyHash (minted row.subscription.id).enc ∉
      acceptedHashes taken.2

instance (platform : Platform) (s : Fleet) (policy : AgePolicy) (now : Nat) (minted : Nat → Minted) :
    Decidable (s.Fresh platform policy now minted) :=
  inferInstanceAs (Decidable (∀ row ∈ s.rows, row.due policy now = true →
    ∀ taken ∈ s.documents, platform.keyHash (minted row.subscription.id).enc ∉
      acceptedHashes taken.2))

def Fleet.afterPass (s : Fleet) (policy : AgePolicy) (now stamp : Nat) (minted : Nat → Minted) :
    Fleet :=
  { s with rows := (runKeyExpiry policy now stamp minted s.rows).1 }

/-- An instance takes the document of its gateway (`api/gateway.ts:155-180`). -/
def Fleet.afterPoll (app : App) (keys : KeyMaterial app.platform) (s : Fleet)
    (environment : Environment) (id : Nat) (targetId : TargetId) (now : Nat) : Fleet :=
  { s with
    documents := (id, pollDocument app (s.database keys now) environment targetId) ::
      s.documents.filter fun taken => taken.1 != id }

/-- One pass of the key expiry, or one poll of an instance of the environment. -/
def step (app : App) (keys : KeyMaterial app.platform) (policy : AgePolicy)
    (environment : Environment) (s : Fleet) : Event → Option Fleet
  | .pass now stamp minted =>
    if s.Fresh app.platform policy now minted then some (s.afterPass policy now stamp minted)
    else none
  | .poll id now =>
    (s.gatewayOf environment id).map fun targetId => s.afterPoll app keys environment id targetId now

/-! ### What a pass does to the platform's rows -/

variable {row : KeyRow}

section
variable {policy : AgePolicy} {now stamp : Nat} {minted : Nat → Minted} {environment : Environment}

theorem aged_of_platform (h : row.subscription.applicationId = PLATFORM_APPLICATION_ID) :
    row.aged policy now stamp = row := by
  unfold KeyRow.aged
  have hnot : row.aging = false := by simp [KeyRow.aging, h]
  rw [hnot]
  rfl

def KeyRow.passed (policy : AgePolicy) (now stamp : Nat) (minted : Nat → Minted) (row : KeyRow) :
    KeyRow :=
  (if row.due policy now then row.rotated (minted row.subscription.id) now else row).aged policy now
    stamp

theorem rows_afterPass (s : Fleet) :
    (s.afterPass policy now stamp minted).rows = s.rows.map (·.passed policy now stamp minted) := by
  show List.map _ (List.map _ s.rows) = _
  rw [List.map_map]
  rfl

theorem createdAt_passed (row : KeyRow) :
    (row.passed policy now stamp minted).createdAt = row.createdAt := by
  unfold KeyRow.passed KeyRow.aged
  split <;> split <;> rfl

theorem applicationId_passed (policy : AgePolicy) (now stamp : Nat) (minted : Nat → Minted)
    (row : KeyRow) :
    (row.passed policy now stamp minted).subscription.applicationId =
      row.subscription.applicationId := by
  unfold KeyRow.passed KeyRow.aged
  split <;> split <;> rfl

theorem passed_of_due (h : row.due policy now = true) :
    row.passed policy now stamp minted = row.rotated (minted row.subscription.id) now := by
  have hplatform : row.subscription.applicationId = PLATFORM_APPLICATION_ID := by
    simp only [KeyRow.due, Bool.and_eq_true, beq_iff_eq] at h
    exact h.1.1
  unfold KeyRow.passed
  rw [if_pos h]
  exact aged_of_platform hplatform

theorem passed_of_not_due (stamp : Nat) (minted : Nat → Minted) (h : row.due policy now = false)
    (hplatform : row.subscription.applicationId = PLATFORM_APPLICATION_ID) :
    row.passed policy now stamp minted = row := by
  unfold KeyRow.passed
  rw [if_neg (by rw [h]; exact Bool.false_ne_true)]
  exact aged_of_platform hplatform

theorem Fleet.presentable_iff (s : Fleet) (row : KeyRow) :
    s.presentable environment row = true ↔
      (∃ member ∈ s.db.estate.productMembers,
        member.1 = row.subscription.productId ∧ s.platformRole member.2 = some KAFKA_PROXY_ROLE) ∧
      row.subscription.applicationId = PLATFORM_APPLICATION_ID ∧
      row.subscription.environment = environment ∧ row.working = true ∧
      row.subscription.primaryKeyExpiredAt = none := by
  simp only [Fleet.presentable, Bool.and_eq_true, List.any_eq_true, beq_iff_eq,
    Option.isNone_iff_eq_none, and_assoc]

theorem presentable_passed {s : Fleet} (h : s.presentable environment row = true) :
    s.presentable environment (row.passed policy now stamp minted) = true := by
  have hrow := (s.presentable_iff row).mp h
  cases hdue : row.due policy now with
  | true =>
    rw [passed_of_due hdue]
    exact (s.presentable_iff _).mpr ⟨hrow.1, hrow.2.1, hrow.2.2.1, hrow.2.2.2.1, rfl⟩
  | false =>
    rw [passed_of_not_due stamp minted hdue hrow.2.1]
    exact h

theorem isFirst_platformKafkaRow {s : Fleet} (h : s.platformKafkaRow environment = some row) :
    Table.IsFirst older (s.rows.filter (s.presentable environment)) row :=
  Table.isFirst_of_head? (r := older) (fun a b => Nat.le_total a.createdAt b.createdAt)
    (fun _ _ _ hab hbc => Nat.le_trans hab hbc) h

theorem presentable_of_platformKafkaRow {s : Fleet} (h : s.platformKafkaRow environment = some row) :
    row ∈ s.rows ∧ s.presentable environment row = true :=
  List.mem_filter.mp (isFirst_platformKafkaRow h).mem

theorem platformKafkaRow_isSome {s : Fleet} (hrow : row ∈ s.rows)
    (h : s.presentable environment row = true) :
    ∃ first, s.platformKafkaRow environment = some first :=
  Table.head?_insertionSort_isSome (List.mem_filter.mpr ⟨hrow, h⟩)

theorem platformKafkaRow_afterPass {s : Fleet} {row' : KeyRow}
    (h : (s.afterPass policy now stamp minted).platformKafkaRow environment = some row') :
    s.platformKafkaRow environment = some row' ∨
      ∃ row ∈ s.rows, row.due policy now = true ∧
        row' = row.rotated (minted row.subscription.id) now := by
  have hfirst := isFirst_platformKafkaRow h
  have hfilter : (s.afterPass policy now stamp minted).rows.filter
      ((s.afterPass policy now stamp minted).presentable environment) =
        (s.rows.filter fun row => s.presentable environment
          (row.passed policy now stamp minted)).map (·.passed policy now stamp minted) := by
    rw [rows_afterPass, List.filter_map]
    rfl
  rw [hfilter] at hfirst
  have horder : ∀ a b : KeyRow, older (a.passed policy now stamp minted)
      (b.passed policy now stamp minted) ↔ older a b := fun a b => by
    unfold older
    rw [createdAt_passed, createdAt_passed]
  obtain ⟨row, hrow, rfl⟩ := Table.IsFirst.of_map horder hfirst
  obtain ⟨hmem, hpresentable⟩ := List.mem_filter.mp hrow.mem
  cases hdue : row.due policy now with
  | true => exact .inr ⟨row, hmem, hdue, passed_of_due hdue⟩
  | false =>
    have hplatform : row.subscription.applicationId = PLATFORM_APPLICATION_ID := by
      rw [← applicationId_passed policy now stamp minted]
      exact ((s.presentable_iff _).mp hpresentable).2.1
    have hsame := passed_of_not_due stamp minted hdue hplatform
    rw [hsame] at hpresentable ⊢
    -- the row is the first of the larger selection, so it is of the rows presentable before
    have hbefore := hrow.filter hpresentable
    rw [List.filter_filter] at hbefore
    have hselection : (s.rows.filter fun a => s.presentable environment a &&
        s.presentable environment (a.passed policy now stamp minted)) =
          s.rows.filter (s.presentable environment) := by
      refine List.filter_congr fun a _ => ?_
      cases ha : s.presentable environment a with
      | false => rfl
      | true => rw [presentable_passed ha, Bool.and_self]
    rw [hselection] at hbefore
    obtain ⟨first, hfound⟩ := platformKafkaRow_isSome hmem hpresentable
    have heq := (isFirst_platformKafkaRow hfound).unique hbefore
    exact .inl (heq ▸ hfound)

end

/-! ### What a poll puts into a document -/

variable {targetId : TargetId}

section
variable {app : App} {keys : KeyMaterial app.platform} {environment : Environment}

theorem platformKafkaKey_of_row {s : Fleet} (h : s.platformKafkaRow environment = some row) :
    s.platformKafkaKey keys environment = some (keys.decrypt row.subscription.primaryKeyEnc) := by
  rw [Fleet.platformKafkaKey, h]
  rfl

def Fleet.CallsProxy (app : App) (keys : KeyMaterial app.platform) (s : Fleet)
    (environment : Environment) (targetId : TargetId) (now : Nat) : Prop :=
  (.secret, PLATFORM_KAFKA_KEY_REF) ∈
    (buildRoutes app.platform (s.database keys now) environment (some targetId)).1.flatMap
      routeReferences

theorem references_database (s : Fleet) (now : Nat) :
    (s.database keys now).estate.references environment .secret PLATFORM_KAFKA_KEY_REF =
      (s.platformKafkaKey keys environment).map .str := by
  simp only [Fleet.database, and_self, if_true]

theorem mem_references {s : Fleet} {now : Nat} {value : Json} :
    (.secret, PLATFORM_KAFKA_KEY_REF, value) ∈
        (pollDocument app (s.database keys now) environment targetId).body.references ↔
      s.CallsProxy app keys environment targetId now ∧
        ∃ key, s.platformKafkaKey keys environment = some key ∧ value = .str key := by
  show _ ∈ (buildReferences _ _ _).1 ↔ _
  simp only [buildReferences, List.mem_filterMap, List.mem_dedup, Option.map_eq_some_iff,
    Prod.mk.injEq]
  constructor
  · rintro ⟨⟨kind, ref⟩, hnamed, found, hfound, rfl, rfl, rfl⟩
    rw [references_database, Option.map_eq_some_iff] at hfound
    obtain ⟨key, hkey, rfl⟩ := hfound
    exact ⟨hnamed, key, hkey, rfl⟩
  · rintro ⟨hnamed, key, hkey, rfl⟩
    refine ⟨(.secret, PLATFORM_KAFKA_KEY_REF), hnamed, .str key, ?_, rfl, rfl, rfl⟩
    rw [references_database, hkey]
    rfl

theorem kafkaSecret_poll {s : Fleet} {now : Nat} {key : String} :
    kafkaSecret (pollDocument app (s.database keys now) environment targetId) = some key ↔
      s.CallsProxy app keys environment targetId now ∧
        s.platformKafkaKey keys environment = some key := by
  have hsecret : ∀ secret,
      kafkaSecret (pollDocument app (s.database keys now) environment targetId) = some secret →
        s.CallsProxy app keys environment targetId now ∧
          s.platformKafkaKey keys environment = some secret := by
    intro secret hfound
    obtain ⟨⟨kind, name, value⟩, hmem, hvalue⟩ := List.exists_of_findSome?_eq_some hfound
    dsimp only at hvalue
    split at hvalue
    · rename_i hnames
      obtain ⟨rfl, rfl⟩ := hnames
      obtain ⟨hcalls, key, hkey, rfl⟩ := mem_references.mp hmem
      cases hvalue
      exact ⟨hcalls, hkey⟩
    · cases hvalue
  refine ⟨hsecret key, fun ⟨hcalls, hkey⟩ => ?_⟩
  have hmem : (.secret, PLATFORM_KAFKA_KEY_REF, .str key) ∈
      (pollDocument app (s.database keys now) environment targetId).body.references :=
    mem_references.mpr ⟨hcalls, key, hkey, rfl⟩
  cases hfound : kafkaSecret (pollDocument app (s.database keys now) environment targetId) with
  | some secret =>
    have hsame := (hsecret secret hfound).2
    rw [hkey] at hsame
    exact hsame.symm
  | none =>
    have hnone := List.findSome?_eq_none_iff.mp hfound _ hmem
    rw [if_pos ⟨rfl, rfl⟩] at hnone
    cases hnone

theorem accepts_presented {s : Fleet} {key : String}
    (h : s.platformKafkaKey keys environment = some key) (targetId : TargetId) (now : Nat) :
    keys.hashKey key ∈
      acceptedHashes (pollDocument app (s.database keys now) environment targetId) := by
  obtain ⟨row, hrow, rfl⟩ := Option.map_eq_some_iff.mp h
  obtain ⟨hmem, hpresentable⟩ := presentable_of_platformKafkaRow hrow
  obtain ⟨-, -, henvironment, hworking, hexpired⟩ := (s.presentable_iff row).mp hpresentable
  show _ ∈ (buildSubscriptions _ _ _).flatMap _
  simp only [buildSubscriptions, List.mem_flatMap, List.mem_map, List.mem_insertionSort,
    List.mem_filter]
  refine ⟨_, ⟨row.subscription, ⟨List.mem_map_of_mem hmem, ?_⟩, rfl⟩, ?_⟩
  · simp only [KeyRow.working, Bool.or_eq_true] at hworking
    simp only [henvironment, beq_self_eq_true, Bool.true_and, Bool.or_eq_true]
    exact hworking.symm
  · rw [← keys.keyHash_eq]
    refine List.mem_map_of_mem (List.mem_filter.mpr ⟨?_, ?_⟩)
    · rw [hexpired]
      exact List.mem_cons_self
    · have hstored := row.stored
      simp [hstored]

end

/-! ### Every instance is accepted by every other -/

/-- The secret of each document is among the key hashes of each other instance's document. -/
def Accepted {platform : Platform} (keys : KeyMaterial platform) (s : Fleet) : Prop :=
  ∀ caller ∈ s.documents, ∀ callee ∈ s.documents, caller.1 ≠ callee.1 →
    ∀ key, kafkaSecret caller.2 = some key → keys.hashKey key ∈ acceptedHashes callee.2

/-- A poll finds no other instance behind: where one of the two documents calls the proxy, the other
instance's document knows the key the platform has now. A pass may come at any time. -/
def NoneBehind (app : App) (keys : KeyMaterial app.platform) (environment : Environment) (s : Fleet) :
    Event → Fleet → Prop
  | .pass _ _ _, _ => True
  | .poll id now, _ =>
    ∀ targetId, s.gatewayOf environment id = some targetId →
      ∀ key, s.platformKafkaKey keys environment = some key →
        ∀ other ∈ s.documents, other.1 ≠ id →
          s.CallsProxy app keys environment targetId now ∨ (kafkaSecret other.2).isSome →
            keys.hashKey key ∈ acceptedHashes other.2

structure Sound {platform : Platform} (keys : KeyMaterial platform) (environment : Environment)
    (s : Fleet) : Prop where
  upToDate : ∀ taken ∈ s.documents, ∀ key, s.platformKafkaKey keys environment = some key →
    keys.hashKey key ∈ acceptedHashes taken.2 →
      ∀ secret, kafkaSecret taken.2 = some secret → secret = key
  presented : ∀ taken ∈ s.documents, (kafkaSecret taken.2).isSome →
    (s.platformKafkaKey keys environment).isSome
  accepted : Accepted keys s

section
variable {app : App} {keys : KeyMaterial app.platform} {policy : AgePolicy}
  {environment : Environment} {s : Fleet}

theorem sound_pass {now stamp : Nat} {minted : Nat → Minted} (h : Sound keys environment s)
    (hfresh : s.Fresh app.platform policy now minted) :
    Sound keys environment (s.afterPass policy now stamp minted) where
  upToDate := by
    intro taken htaken key hkey hknown secret hsecret
    obtain ⟨row, hrow, rfl⟩ := Option.map_eq_some_iff.mp hkey
    rcases platformKafkaRow_afterPass hrow with hbefore | ⟨old, hold, hdue, rfl⟩
    · exact h.upToDate taken htaken _ (platformKafkaKey_of_row hbefore) hknown secret hsecret
    · rw [← keys.keyHash_eq] at hknown
      exact absurd hknown (hfresh old hold hdue taken htaken)
  presented := by
    intro taken htaken hsecret
    obtain ⟨key, hkey⟩ := Option.isSome_iff_exists.mp (h.presented taken htaken hsecret)
    obtain ⟨row, hrow, -⟩ := Option.map_eq_some_iff.mp hkey
    obtain ⟨hmem, hpresentable⟩ := presentable_of_platformKafkaRow hrow
    have hmem' : row.passed policy now stamp minted ∈ (s.afterPass policy now stamp minted).rows := by
      rw [rows_afterPass]
      exact List.mem_map_of_mem hmem
    obtain ⟨first, hfirst⟩ := platformKafkaRow_isSome
      (s := s.afterPass policy now stamp minted) hmem' (presentable_passed hpresentable)
    exact Option.isSome_iff_exists.mpr ⟨_, platformKafkaKey_of_row hfirst⟩
  accepted := h.accepted

theorem mem_afterPoll {id : Nat} {now : Nat} {taken : Nat × GatewayConfig}
    (h : taken ∈ (s.afterPoll app keys environment id targetId now).documents) :
    taken = (id, pollDocument app (s.database keys now) environment targetId) ∨
      taken ∈ s.documents ∧ taken.1 ≠ id := by
  rcases List.mem_cons.mp h with rfl | hold
  · exact .inl rfl
  · obtain ⟨hmem, hne⟩ := List.mem_filter.mp hold
    exact .inr ⟨hmem, bne_iff_ne.mp hne⟩

theorem sound_poll {id : Nat} {now : Nat} (h : Sound keys environment s)
    (hnone : ∀ key, s.platformKafkaKey keys environment = some key →
      ∀ other ∈ s.documents, other.1 ≠ id →
      s.CallsProxy app keys environment targetId now ∨ (kafkaSecret other.2).isSome →
      keys.hashKey key ∈ acceptedHashes other.2) :
    Sound keys environment (s.afterPoll app keys environment id targetId now) where
  upToDate := by
    intro taken htaken key hkey hknown secret hsecret
    rcases mem_afterPoll htaken with rfl | ⟨hold, -⟩
    · have hpresented := (kafkaSecret_poll.mp hsecret).2
      exact Option.some.inj (hpresented.symm.trans hkey)
    · exact h.upToDate taken hold key hkey hknown secret hsecret
  presented := by
    intro taken htaken hsecret
    rcases mem_afterPoll htaken with rfl | ⟨hold, -⟩
    · obtain ⟨secret, hsecret⟩ := Option.isSome_iff_exists.mp hsecret
      exact Option.isSome_iff_exists.mpr ⟨secret, (kafkaSecret_poll.mp hsecret).2⟩
    · exact h.presented taken hold hsecret
  accepted := by
    intro caller hcaller callee hcallee hne key hsecret
    rcases mem_afterPoll hcaller with rfl | ⟨hcaller, hcallerId⟩
    · rcases mem_afterPoll hcallee with rfl | ⟨hcallee, hcalleeId⟩
      · exact absurd rfl hne
      · obtain ⟨hcalls, hkey⟩ := kafkaSecret_poll.mp hsecret
        exact hnone key hkey callee hcallee hcalleeId (.inl hcalls)
    · rcases mem_afterPoll hcallee with rfl | ⟨hcallee, -⟩
      · -- the document that is left has the platform's key, which the new one knows
        have hsome : (kafkaSecret caller.2).isSome := by rw [hsecret]; rfl
        obtain ⟨present, hpresent⟩ :=
          Option.isSome_iff_exists.mp (h.presented caller hcaller hsome)
        have hknown := hnone present hpresent caller hcaller hcallerId (.inr hsome)
        rw [h.upToDate caller hcaller present hpresent hknown key hsecret]
        exact accepts_presented hpresent targetId now
      · exact h.accepted caller hcaller callee hcallee hne key hsecret

theorem step_poll {id now : Nat} {next : Fleet}
    (h : step app keys policy environment s (.poll id now) = some next) :
    ∃ targetId, s.gatewayOf environment id = some targetId ∧
      s.afterPoll app keys environment id targetId now = next :=
  Option.map_eq_some_iff.mp h

theorem sound_step {event : Event} {next : Fleet} (h : Sound keys environment s)
    (hnone : NoneBehind app keys environment s event next)
    (hstep : step app keys policy environment s event = some next) :
    Sound keys environment next := by
  cases event with
  | pass now stamp minted =>
    simp only [step] at hstep
    by_cases hfresh : s.Fresh app.platform policy now minted
    · rw [if_pos hfresh] at hstep
      obtain rfl := Option.some.inj hstep
      exact sound_pass h hfresh
    · rw [if_neg hfresh] at hstep
      cases hstep
  | poll id now =>
    obtain ⟨targetId, htarget, rfl⟩ := step_poll hstep
    exact sound_poll h (hnone targetId htarget)

theorem accepted_along_runs (app : App) (keys : KeyMaterial app.platform) (policy : AgePolicy)
    (environment : Environment) (s : Fleet) (events : List Event) (hstart : s.documents = [])
    (hnone : EveryStep (step app keys policy environment) (NoneBehind app keys environment) s
      events) :
    EveryStep (step app keys policy environment) (fun _ _ next => Accepted keys next) s events := by
  have hempty : ∀ taken ∈ s.documents, False := by
    rw [hstart]
    exact fun _ h => List.not_mem_nil h
  have hsound : Sound keys environment s :=
    ⟨fun taken h => (hempty taken h).elim, fun taken h => (hempty taken h).elim,
      fun caller h => (hempty caller h).elim⟩
  refine everyStep_of_guarded (P := NoneBehind app keys environment) (I := Sound keys environment)
    (fun _ _ _ h hmeets hstep => ?_) hsound hnone
  have hnext := sound_step h hmeets hstep
  exact ⟨hnext, hnext.accepted⟩

end

/-! ### A topic's API on a gateway with two instances -/

/-- Between two passes every instance of the environment polls; a pass that rotates nothing counts. -/
def PollsBetweenPasses (s : Fleet) (environment : Environment) (events : List Event) : Prop :=
  ∀ front mid back now stamp minted now' stamp' minted',
    events = front ++ .pass now stamp minted :: (mid ++ .pass now' stamp' minted' :: back) →
      ∀ id, (s.gatewayOf environment id).isSome → ∃ instant, Event.poll id instant ∈ mid

def Event.isPass : Event → Bool
  | .pass _ _ _ => true
  | .poll _ _ => false

theorem pollsBetweenPasses_of_one {s : Fleet} {environment : Environment} {events : List Event}
    (h : events.countP Event.isPass ≤ 1) : PollsBetweenPasses s environment events := by
  intro front mid back now stamp minted now' stamp' minted' heq
  have hcount : 2 ≤ events.countP Event.isPass := by
    rw [heq]
    simp only [List.countP_append, List.countP_cons, Event.isPass, if_true]
    omega
  omega

def plainKeys : KeyMaterial Platform.plain := ⟨fun enc => enc, fun key => key, fun _ => rfl⟩

def oneStage : App := ⟨Platform.plain, ⟨["dev"], 300, 20, 365, 24⟩⟩

def topicApi : Fleet where
  db := { Database.empty with
    resources :=
      [⟨1, .rest, "kafka-rest-proxy", "platform", "v1", "active", none, "unlisted", none, none, none, 0⟩,
        ⟨2, .rest, "orders", "sales", "v1", "active", none, "listed", none, none, some "orders", 0⟩]
    ledger := { Database.empty.ledger with
      revisions := [⟨3, 2, 1, "", "", "", "", none, none, none, 0⟩]
      releases := [⟨4, 2, 3, "dev", .converged, "", ⟨"ada", true, []⟩, 0, none⟩] }
    live := { Database.empty.live with
      route := fun stage => if stage = (2, "dev") then some ⟨"*", "/orders"⟩ else none
      binding := fun stage =>
        if stage = (2, "dev") then some ⟨[⟨"https://gw/kafka", none⟩], .failover, none⟩ else none
      routeGateway := fun stage => if stage = (2, "dev") then [5] else []
      policyEntry := fun stage =>
        if stage = (2, "dev") then
          AList.insert "backendAuth"
            (.obj [("type", .str "api-key"), ("credentialRef", .str PLATFORM_KAFKA_KEY_REF)]) ∅
        else ∅ }
    estate := { Database.empty.estate with
      targets := [⟨5, "dev", "gw", false⟩]
      instances := [⟨6, 5, none, none, none⟩, ⟨7, 5, none, none, none⟩]
      productMembers := [("kafka", 1)] } }
  rows := [{
    subscription := ⟨8, "kafka", "Kafka", "platform", "Integration Portal", "dev", .active, "sk_dev_1",
      none, none, none⟩
    primaryKeyAt := some 0
    secondaryKeyAt := none
    createdAt := 0
    stored := by decide }]
  platformRole := fun id => if id = 1 then some KAFKA_PROXY_ROLE else none
  documents := []

def monthly : AgePolicy := ⟨30, 60⟩

def secondKey : Nat → Minted := fun _ => ⟨"sk_dev_2", by decide⟩

def lockedOut {platform : Platform} (keys : KeyMaterial platform) (s : Fleet) : Bool :=
  s.documents.any fun caller => s.documents.any fun callee => caller.1 != callee.1 &&
    (kafkaSecret caller.2).any fun key => !(acceptedHashes callee.2).contains (keys.hashKey key)

theorem not_accepted_of_lockedOut {platform : Platform} {keys : KeyMaterial platform} {s : Fleet}
    (h : lockedOut keys s = true) : ¬Accepted keys s := by
  intro haccepted
  simp only [lockedOut, List.any_eq_true, Bool.and_eq_true, Option.any_eq_true] at h
  obtain ⟨caller, hcaller, callee, hcallee, hne, key, hkey, hunknown⟩ := h
  have hknown := haccepted caller hcaller callee hcallee (bne_iff_ne.mp hne) key hkey
  rw [List.contains_iff_mem.mpr hknown] at hunknown
  cases hunknown

theorem accepted_topicApi : EveryStep (step oneStage plainKeys monthly "dev")
    (fun _ _ next => Accepted plainKeys next) topicApi [.poll 6 1, .poll 7 2] := by
  refine accepted_along_runs oneStage plainKeys monthly "dev" topicApi _ rfl fun next hnext => ?_
  refine ⟨fun _ _ _ _ other hother => absurd hother List.not_mem_nil, fun _ _ => ⟨?_, trivial⟩⟩
  obtain ⟨targetId, -, rfl⟩ := step_poll hnext
  intro _ _ key hkey other hother _ _
  rw [List.mem_singleton.mp hother]
  exact accepts_presented hkey targetId 1

theorem lockedOut_of_rotation : ¬∀ (app : App) (keys : KeyMaterial app.platform) (policy : AgePolicy)
    (environment : Environment) (s : Fleet) (events : List Event), s.documents = [] →
      PollsBetweenPasses s environment events →
        EveryStep (step app keys policy environment) (fun _ _ next => Accepted keys next) s
          events := by
  intro hall
  have hrun := hall oneStage plainKeys monthly "dev" topicApi
    ([.poll 6 1, .poll 7 2, .pass (30 * DAY_MS) (30 * DAY_MS) secondKey] ++ [.poll 6 (31 * DAY_MS)])
    rfl (pollsBetweenPasses_of_one (by decide))
  refine not_everyStep_of_observed (P := fun _ _ next => Accepted plainKeys next)
    (fun _ s => lockedOut plainKeys s) (fun _ _ hseen => not_accepted_of_lockedOut hseen) ?_ hrun
  decide +kernel

end Apim.KafkaKeys
