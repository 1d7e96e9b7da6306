import Apim.Lib.Table
import Apim.Lib.Trace
import Apim.ControlPlane.Catalog

/-!
# A product holds its own application's APIs

What is to hold of every run: each member joins a product and an API of one application (`Owned`),
and a transfer of ownership moves a whole family of versions with the products that sell nothing
else, or leaves everything as it was (`Lawful`). A handler that has read its row before its body
decides by the copy, and it is right exactly when, where it accepts, the row still belongs to the
application it was read with (`Current`): `lawful_iff_current`.
-/

namespace Apim.Catalog
open Guard Trace Table
open ControlPlane (User can)
open Groups (trimmed)

def Joins (products : List Product) (resources : List Api) (m : Nat × Nat) : Prop :=
  ∃ p ∈ products, ∃ r ∈ resources, p.id = m.1 ∧ r.id = m.2 ∧ p.applicationId = r.applicationId

def Owned (s : Portal) : Prop := ∀ m ∈ s.members, Joins s.products s.resources m

def Portal.sellsOnly (s : Portal) (ids : List Nat) (p : Product) : Bool :=
  s.members.any (·.1 == p.id) && s.members.all fun m => m.1 != p.id || ids.contains m.2

def WholeFamily (s s' : Portal) (id : Nat) (target : String) (now : Nat) : Prop :=
  ∃ r ∈ s.resources, r.id = id ∧ s'.members = s.members ∧
    s'.resources = (s.resources.map fun x =>
      if x.applicationId = r.applicationId ∧ x.name = r.name then
        { x with applicationId := target, updatedAt := now } else x) ∧
    s'.products = s.products.map fun p =>
      if s.sellsOnly ((s.family r.applicationId r.name).map (·.id)) p then
        { p with applicationId := target } else p

def Unmoved (s s' : Portal) : Prop :=
  s'.resources = s.resources ∧ s'.products = s.products ∧ s'.members = s.members

def OwnerBody.target (body : OwnerBody) : String := trimmed (body.applicationId.getD "")

structure Lawful (s : Portal) (event : Event) (s' : Portal) : Prop where
  owned : Owned s'
  transfer : ∀ index body now user row, event = .resumeOwner index body now →
    s.suspended[index]? = some (.owner user row) →
      Unmoved s s' ∨ WholeFamily s s' row.id body.target now

/-- A handler that accepts what it is asked for still has the owner it has read. -/
def Current (s : Portal) : Event → Portal → Prop
  | .resumeMembers index resourceIds, _ =>
    ∀ user product, s.suspended[index]? = some (.members user product) →
      (∀ id ∈ resourceIds, assertMember s user product.applicationId id = .ok ()) →
        resourceIds.Nodup → resourceIds ≠ [] →
          ∀ p ∈ s.products, p.id = product.id → p.applicationId = product.applicationId
  | .resumeOwner index body _, _ =>
    ∀ user row, s.suspended[index]? = some (.owner user row) →
      assertTransfer s user row body body.target = .ok () →
        s.family row.applicationId row.name ≠ [] →
          ∀ r ∈ s.resources, r.id = row.id → r.applicationId = row.applicationId
  | _, _ => True

structure Sound (s : Portal) : Prop where
  products : Numbered (s.products.map (·.id)) s.next
  resources : Numbered (s.resources.map (·.id)) s.next
  owned : Owned s
  waiting : ∀ user row, .owner user row ∈ s.suspended →
    ∃ r ∈ s.resources, r.id = row.id ∧ r.name = row.name

/-! ### Rows that are read -/

theorem Joins.mono {products products' : List Product} {resources resources' : List Api}
    {m : Nat × Nat} (h : Joins products resources m) (hp : products ⊆ products')
    (hr : resources ⊆ resources') : Joins products' resources' m := by
  obtain ⟨p, hpmem, r, hrmem, hjoin⟩ := h
  exact ⟨p, hp hpmem, r, hr hrmem, hjoin⟩

variable {id now : Nat} {p product : Product} {user : User} {applicationId : String}
  {resourceIds : List Nat} {s' : Portal} {body : OwnerBody} {row : Api}

section
variable {s : Portal}

theorem of_api {r : Api} (h : s.api id = some r) : r ∈ s.resources ∧ r.id = id :=
  ⟨List.mem_of_find?_eq_some h, by simpa using List.find?_some h⟩

theorem of_product (h : s.product id = some p) : p ∈ s.products ∧ p.id = id :=
  ⟨List.mem_of_find?_eq_some h, by simpa using List.find?_some h⟩

theorem assertMember_eq_ok {u : Unit} :
    assertMember s user applicationId id = .ok u ↔
      ∃ r, s.api id = some r ∧ can user r.applicationId = true ∧ r.applicationId = applicationId := by
  simp only [assertMember, assertCan, bind_eq_ok, demand_eq_ok, ensure_eq_ok, decide_eq_true_eq]
  constructor
  · rintro ⟨r, hr, -, hcan, happ⟩
    exact ⟨r, hr, hcan, happ⟩
  · rintro ⟨r, hr, hcan, happ⟩
    exact ⟨r, hr, (), hcan, happ⟩

theorem of_assertMember (h : assertMember s user applicationId id = .ok ()) :
    ∃ r ∈ s.resources, r.id = id ∧ r.applicationId = applicationId := by
  obtain ⟨r, hr, -, happ⟩ := assertMember_eq_ok.mp h
  obtain ⟨hmem, hid⟩ := of_api hr
  exact ⟨r, hmem, hid, happ⟩

theorem joins_of_assertMember {products : List Product} (hp : p ∈ products)
    (happ : p.applicationId = applicationId)
    (h : ∀ id ∈ resourceIds, assertMember s user applicationId id = .ok ()) {m : Nat × Nat}
    (hm : m ∈ resourceIds.map (p.id, ·)) : Joins products s.resources m := by
  obtain ⟨id, hid, rfl⟩ := List.mem_map.mp hm
  obtain ⟨r, hr, hrid, hrapp⟩ := of_assertMember (h id hid)
  exact ⟨p, hp, r, hr, rfl, hrid, happ.trans hrapp.symm⟩

/-! ### Handlers that read after their body -/

theorem Sound.grown (h : Sound s)
    (hproducts : Grows (s.products.map (·.id)) s.next (s'.products.map (·.id)) s'.next)
    (hresources : Numbered (s'.resources.map (·.id)) s'.next) (howned : Owned s')
    (hsub : s.resources ⊆ s'.resources) (hsuspended : s'.suspended = s.suspended) : Sound s' := by
  refine ⟨h.products.grow hproducts, hresources, howned, fun user row hrow => ?_⟩
  rw [hsuspended] at hrow
  obtain ⟨r, hr, hkept⟩ := h.waiting user row hrow
  exact ⟨r, hsub hr, hkept⟩

theorem sound_createProduct {body : ProductBody} (h : Sound s)
    (hok : createProduct s user body = .ok s') : Sound s' := by
  simp only [createProduct, bind_eq_ok, demand_eq_ok, ensure_eq_ok, pure_eq_ok, each_eq_ok] at hok
  obtain ⟨-, -, applicationId, -, -, -, -, -, -, -, -, hmembers, -, -, rfl⟩ := hok
  refine h.grown (.inr ⟨by simp, rfl⟩) (h.resources.mono (Nat.le_succ _)) ?_ (List.Subset.refl _) rfl
  intro m hm
  rcases List.mem_append.mp hm with hold | hnew
  · exact (h.owned m hold).mono (List.subset_append_left _ _) (List.Subset.refl _)
  · exact joins_of_assertMember (p := ⟨s.next, body.name, applicationId, "active"⟩)
      (List.mem_append_right _ (List.mem_singleton_self _)) rfl hmembers hnew

theorem sound_deleteProduct (h : Sound s) (hok : deleteProduct s user id = .ok s') : Sound s' := by
  simp only [deleteProduct, bind_eq_ok, demand_eq_ok, ensure_eq_ok, pure_eq_ok] at hok
  obtain ⟨-, -, -, -, -, -, rfl⟩ := hok
  refine h.grown (.inl ⟨(List.filter_sublist.map _), Nat.le_refl _⟩) h.resources ?_
    (List.Subset.refl _) rfl
  intro m hm
  obtain ⟨hmem, hne⟩ := List.mem_filter.mp hm
  obtain ⟨p, hp, r, hr, hpid, hrid, happ⟩ := h.owned m hmem
  refine ⟨p, List.mem_filter.mpr ⟨hp, ?_⟩, r, hr, hpid, hrid, happ⟩
  rw [hpid]
  exact hne

theorem productFor_ok {body : PublishBody} {productId : Nat}
    (h : productFor s body = .ok (s', productId)) :
    (∃ p ∈ s'.products, p.id = productId ∧ p.applicationId = body.applicationId) ∧
      (s' = s ∨ ∃ name, s' = (s.withProduct name body.applicationId).1) := by
  have hnew : ∀ name, s.withProduct name body.applicationId = (s', productId) →
      (∃ p ∈ s'.products, p.id = productId ∧ p.applicationId = body.applicationId) ∧
      (s' = s ∨ ∃ name, s' = (s.withProduct name body.applicationId).1) := by
    intro name heq
    cases heq
    exact ⟨⟨⟨s.next, name, body.applicationId, "active"⟩,
      List.mem_append_right _ (List.mem_singleton_self _), rfl, rfl⟩, .inr ⟨name, rfl⟩⟩
  unfold productFor at h
  split at h
  · simp only [bind_eq_ok, demand_eq_ok, ensure_eq_ok, pure_eq_ok, Bool.and_eq_true,
      decide_eq_true_eq] at h
    obtain ⟨p, hp, -, ⟨happ, -⟩, heq⟩ := h
    cases heq
    obtain ⟨hmem, hid⟩ := of_product hp
    exact ⟨⟨p, hmem, hid, happ⟩, .inl rfl⟩
  · split at h
    · simp only [bind_eq_ok, ensure_eq_ok, pure_eq_ok] at h
      obtain ⟨-, -, heq⟩ := h
      exact hnew _ heq
    · split at h
      · rename_i p hp
        cases h
        have hmem := List.mem_of_find?_eq_some hp
        have hfound := List.find?_some hp
        simp only [Bool.and_eq_true, beq_iff_eq] at hfound
        exact ⟨⟨p, hmem, rfl, hfound.1.1⟩, .inl rfl⟩
      · simp only [bind_eq_ok, demand_eq_ok, pure_eq_ok] at h
        obtain ⟨name, -, heq⟩ := h
        exact hnew name heq

theorem sound_publish {body : PublishBody} (h : Sound s) (hok : publish s user body now = .ok s') :
    Sound s' := by
  simp only [publish, bind_eq_ok, ensure_eq_ok, pure_eq_ok, Prod.exists] at hok
  obtain ⟨-, -, -, -, -, -, -, -, -, -, -, -, mid, productId, hproduct, rfl⟩ := hok
  obtain ⟨⟨p, hp, hpid, happ⟩, hmid⟩ := productFor_ok hproduct
  have hmid : Sound mid := by
    rcases hmid with rfl | ⟨name, rfl⟩
    · exact h
    · refine h.grown (.inr ⟨by simp [Portal.withProduct], rfl⟩) (h.resources.mono (Nat.le_succ _)) ?_
        (List.Subset.refl _) rfl
      exact fun m hm => (h.owned m hm).mono (List.subset_append_left _ _) (List.Subset.refl _)
  refine hmid.grown (Grows.same rfl (Nat.le_succ _)) ?_ ?_ (List.subset_append_left _ _) rfl
  · simpa using hmid.resources.append
  · intro m hm
    rcases List.mem_append.mp hm with hold | hnew
    · exact (hmid.owned m hold).mono (List.Subset.refl _) (List.subset_append_left _ _)
    · rw [List.mem_singleton.mp hnew]
      exact ⟨p, hp, _, List.mem_append_right _ (List.mem_singleton_self _), hpid, rfl, happ⟩

/-! ### Handlers that have read their row -/

theorem sound_createVersion {apiVersion : String} (h : Sound s)
    (hok : createVersion s row apiVersion now = .ok s') : Sound s' := by
  simp only [createVersion, bind_eq_ok, ensure_eq_ok, pure_eq_ok] at hok
  obtain ⟨-, -, -, -, -, -, rfl⟩ := hok
  refine h.grown (Grows.same rfl (Nat.le_succ _)) ?_ ?_ (List.subset_append_left _ _) rfl
  · simpa using h.resources.append
  · exact fun m hm => (h.owned m hm).mono (List.Subset.refl _) (List.subset_append_left _ _)

theorem sound_resumed (h : Sound s) (index : Nat) : Sound (s.resumed index) :=
  ⟨h.products, h.resources, h.owned, fun user row hrow =>
    h.waiting user row (List.mem_of_mem_eraseIdx hrow)⟩

theorem putMembers_eq_ok :
    putMembers s user product resourceIds = .ok s' ↔
      (∀ id ∈ resourceIds, assertMember s user product.applicationId id = .ok ()) ∧
      resourceIds.Nodup ∧ (resourceIds = [] ∨ ∃ p, s.product product.id = some p) ∧
      s' = { s with
        members := s.members.filter (·.1 ≠ product.id) ++ resourceIds.map (product.id, ·) } := by
  simp only [putMembers, bind_eq_ok, each_eq_ok, ensure_eq_ok, pure_eq_ok, Bool.or_eq_true,
    List.isEmpty_iff, Option.isSome_iff_exists, decide_eq_true_eq]
  constructor
  · rintro ⟨-, hmembers, -, hnodup, -, hproduct, rfl⟩
    exact ⟨hmembers, hnodup, hproduct, rfl⟩
  · rintro ⟨hmembers, hnodup, hproduct, rfl⟩
    exact ⟨(), hmembers, (), hnodup, (), hproduct, rfl⟩

theorem owned_putMembers_iff (h : Sound s) (hok : putMembers s user product resourceIds = .ok s') :
    Owned s' ↔ (resourceIds ≠ [] →
      ∀ p ∈ s.products, p.id = product.id → p.applicationId = product.applicationId) := by
  obtain ⟨hmembers, -, hproduct, rfl⟩ := putMembers_eq_ok.mp hok
  constructor
  · intro howned hne p hp hpid
    obtain ⟨id, rest, rfl⟩ := List.exists_cons_of_ne_nil hne
    obtain ⟨p', hp', r, hr, hp'id, hrid, happ⟩ := howned (product.id, id)
      (List.mem_append_right _ (List.mem_map_of_mem List.mem_cons_self))
    obtain ⟨r', hr', hr'id, hr'app⟩ := of_assertMember (hmembers id List.mem_cons_self)
    have hsame : r = r' := h.resources.key_injective hr hr' (hrid.trans hr'id.symm)
    have hsame' : p = p' := h.products.key_injective hp hp' (hpid.trans hp'id.symm)
    rw [hsame', happ, hsame, hr'app]
  · intro hcurrent m hm
    rcases List.mem_append.mp hm with hold | hnew
    · exact h.owned m (List.mem_of_mem_filter hold)
    · have hne : resourceIds ≠ [] := by
        rintro rfl
        cases hnew
      obtain ⟨p, hp⟩ := hproduct.resolve_left hne
      obtain ⟨hpmem, hpid⟩ := of_product hp
      rw [← hpid] at hnew
      exact joins_of_assertMember hpmem (hcurrent hne p hpmem hpid) hmembers hnew

/-! ### Transfers -/

theorem mem_family {name : String} {r : Api} :
    r ∈ s.family applicationId name ↔
      r ∈ s.resources ∧ r.applicationId = applicationId ∧ r.name = name := by
  simp only [Portal.family, List.mem_filter, Bool.and_eq_true, beq_iff_eq]

theorem mem_familyIds (h : Sound s) {name : String} {r : Api} (hr : r ∈ s.resources) :
    r.id ∈ (s.family applicationId name).map (·.id) ↔
      r.applicationId = applicationId ∧ r.name = name := by
  rw [List.mem_map]
  constructor
  · rintro ⟨r', hr', hid⟩
    obtain ⟨hmem, hof⟩ := mem_family.mp hr'
    rw [← h.resources.key_injective hmem hr hid]
    exact hof
  · exact fun hof => ⟨r, mem_family.mpr ⟨hr, hof⟩, rfl⟩

theorem sellsOnly_iff {ids : List Nat} :
    s.sellsOnly ids p = true ↔ (∃ m ∈ s.members, m.1 = p.id) ∧
      ∀ m ∈ s.members, m.1 = p.id → m.2 ∈ ids := by
  simp only [Portal.sellsOnly, Bool.and_eq_true, List.any_eq_true, List.all_eq_true, Bool.or_eq_true,
    beq_iff_eq, bne_iff_ne, List.contains_iff_mem]
  refine and_congr_right fun _ => forall₂_congr fun m _ => ?_
  exact ⟨fun h heq => h.resolve_left (not_not_intro heq), fun h => (em _).symm.imp_right h⟩

theorem mem_selling {ids : List Nat} :
    p ∈ s.selling ids ↔ p ∈ s.products ∧ ∃ m ∈ s.members, m.1 = p.id ∧ m.2 ∈ ids := by
  simp only [Portal.selling, List.mem_filter, List.any_eq_true, Bool.and_eq_true, beq_iff_eq,
    List.contains_iff_mem]

structure Transferable (s : Portal) (row : Api) (target : String) : Prop where
  elsewhere : target ≠ row.applicationId
  apart : ∀ p ∈ s.selling ((s.family row.applicationId row.name).map (·.id)),
    p.applicationId ≠ target →
      ∀ m ∈ s.members, m.1 = p.id → m.2 ∈ (s.family row.applicationId row.name).map (·.id)

theorem transferable_of_assert {target : String}
    (h : assertTransfer s user row body target = .ok ()) : Transferable s row target := by
  simp only [assertTransfer, bind_eq_ok, ensure_eq_ok, decide_eq_true_eq, Bool.not_eq_true',
    List.any_eq_false, Bool.and_eq_true, bne_iff_ne, not_and] at h
  obtain ⟨-, -, -, helsewhere, -, -, -, -, -, -, -, -, -, -, hshared⟩ := h
  refine ⟨helsewhere, fun p hp hne m hm hmp => ?_⟩
  by_contra hother
  have hpos : 0 < s.others ((s.family row.applicationId row.name).map (·.id)) p := by
    refine List.countP_pos_iff.mpr ⟨m, hm, ?_⟩
    simpa only [hmp, beq_self_eq_true, Bool.true_and, Bool.not_eq_true', ← Bool.not_eq_true,
      List.contains_iff_mem] using hother
  exact hshared p hp hpos hne

theorem moving_iff {target : String} (h : Sound s) (ht : Transferable s row target)
    (hp : p ∈ s.products) :
    p.id ∈ ((s.selling ((s.family row.applicationId row.name).map (·.id))).filter
        (·.applicationId ≠ target)).map (·.id) ↔
      s.sellsOnly ((s.family row.applicationId row.name).map (·.id)) p = true := by
  rw [sellsOnly_iff, List.mem_map]
  constructor
  · rintro ⟨p', hp', hid⟩
    obtain ⟨hselling, hne⟩ := List.mem_filter.mp hp'
    obtain ⟨hmem, m, hm, hmp, -⟩ := mem_selling.mp hselling
    obtain rfl : p' = p := h.products.key_injective hmem hp hid
    exact ⟨⟨m, hm, hmp⟩, ht.apart p' hselling (by simpa using hne)⟩
  · rintro ⟨⟨m, hm, hmp⟩, hall⟩
    have hin := hall m hm hmp
    refine ⟨p, List.mem_filter.mpr ⟨mem_selling.mpr ⟨hp, m, hm, hmp, hin⟩, ?_⟩, rfl⟩
    -- its owner is the family's, which is not the target
    obtain ⟨p', hp', r, hr, hp'id, hrid, happ⟩ := h.owned m hm
    obtain rfl : p' = p := h.products.key_injective hp' hp (hp'id.trans hmp)
    rw [← hrid, mem_familyIds h hr] at hin
    have hne := ht.elsewhere
    rw [happ, hin.1]
    simpa using hne.symm

theorem transfer_ok (h : Sound s) (hok : transfer s user row body now = .ok s') :
    assertTransfer s user row body body.target = .ok () ∧
      s' = { s with
        resources := s.resources.map fun x =>
          if x.applicationId = row.applicationId ∧ x.name = row.name then
            { x with applicationId := body.target, updatedAt := now } else x
        products := s.products.map fun p =>
          if s.sellsOnly ((s.family row.applicationId row.name).map (·.id)) p then
            { p with applicationId := body.target } else p } := by
  simp only [transfer, bind_eq_ok, pure_eq_ok] at hok
  obtain ⟨⟨⟩, hassert, rfl⟩ := hok
  refine ⟨hassert, ?_⟩
  have ht := transferable_of_assert hassert
  congr 1
  · refine List.map_congr_left fun x hx => ?_
    have hiff : x.id ∈ (s.family row.applicationId row.name).map (·.id) ↔ _ := mem_familyIds h hx
    by_cases hin : x.id ∈ (s.family row.applicationId row.name).map (·.id)
    · rw [if_pos (List.contains_iff_mem.mpr hin), if_pos (hiff.mp hin)]
      rfl
    · rw [if_neg (fun hc => hin (List.contains_iff_mem.mp hc)), if_neg fun hof => hin (hiff.mpr hof)]
  · refine List.map_congr_left fun p hp => ?_
    have hiff := moving_iff h ht hp
    by_cases hin : s.sellsOnly ((s.family row.applicationId row.name).map (·.id)) p = true
    · rw [if_pos hin, if_pos (List.contains_iff_mem.mpr (hiff.mpr hin))]
      rfl
    · rw [if_neg hin, if_neg fun hc => hin (hiff.mp (List.contains_iff_mem.mp hc))]

theorem owned_transfer (h : Sound s) (hok : transfer s user row body now = .ok s') : Owned s' := by
  obtain ⟨hassert, rfl⟩ := transfer_ok h hok
  have ht := transferable_of_assert hassert
  intro m hm
  replace hm : m ∈ s.members := hm
  obtain ⟨p, hp, r, hr, hpid, hrid, happ⟩ := h.owned m hm
  have hiff : r.id ∈ (s.family row.applicationId row.name).map (·.id) ↔ _ := mem_familyIds h hr
  refine ⟨_, List.mem_map_of_mem hp, _, List.mem_map_of_mem hr, ?_, ?_, ?_⟩
  · split <;> exact hpid
  · split <;> exact hrid
  by_cases hof : r.applicationId = row.applicationId ∧ r.name = row.name
  · have hin := hiff.mpr hof
    rw [hrid] at hin
    have hselling := mem_selling.mpr ⟨hp, m, hm, hpid.symm, hin⟩
    have hne : p.applicationId ≠ body.target := by
      rw [happ, hof.1]
      exact ht.elsewhere.symm
    have honly := sellsOnly_iff.mpr ⟨⟨m, hm, hpid.symm⟩, ht.apart p hselling hne⟩
    rw [if_pos hof, if_pos honly]
  · have honly : ¬s.sellsOnly ((s.family row.applicationId row.name).map (·.id)) p = true := by
      intro hsells
      refine hof (hiff.mp ?_)
      rw [hrid]
      exact (sellsOnly_iff.mp hsells).2 m hm hpid.symm
    rw [if_neg hof, if_neg honly]
    exact happ

theorem sound_transfer (h : Sound s) (hok : transfer s user row body now = .ok s') : Sound s' := by
  have howned := owned_transfer h hok
  obtain ⟨-, rfl⟩ := transfer_ok h hok
  refine ⟨?_, ?_, howned, fun user row hrow => ?_⟩
  · exact h.products.grow (Grows.same (map_key_map _ fun p _ => by split <;> rfl) (Nat.le_refl _))
  · exact h.resources.grow (Grows.same (map_key_map _ fun r _ => by split <;> rfl) (Nat.le_refl _))
  · obtain ⟨r, hr, hid, hname⟩ := h.waiting user row hrow
    refine ⟨_, List.mem_map_of_mem hr, ?_, ?_⟩
    · split <;> exact hid
    · split <;> exact hname

theorem moves_iff (h : Sound s) (hwaiting : ∃ r ∈ s.resources, r.id = row.id ∧ r.name = row.name)
    (hok : transfer s user row body now = .ok s') :
    Unmoved s s' ∨ WholeFamily s s' row.id body.target now ↔
      (s.family row.applicationId row.name ≠ [] →
        ∀ r ∈ s.resources, r.id = row.id → r.applicationId = row.applicationId) := by
  obtain ⟨hassert, rfl⟩ := transfer_ok h hok
  have ht := transferable_of_assert hassert
  obtain ⟨r, hr, hid, hname⟩ := hwaiting
  constructor
  · rintro hmoved hne r' hr' hr'id
    obtain rfl : r' = r := h.resources.key_injective hr' hr (hr'id.trans hid.symm)
    obtain ⟨x, hx⟩ := List.exists_mem_of_ne_nil _ hne
    obtain ⟨hxmem, hxof⟩ := mem_family.mp hx
    dsimp only [Unmoved, WholeFamily] at hmoved
    rcases hmoved with ⟨hsame, -⟩ | ⟨r'', hr'', hr''id, -, hsame, -⟩
    · have hmap := hsame.trans (List.map_id s.resources).symm
      have hfix := List.map_inj_left.mp hmap x hxmem
      rw [if_pos hxof] at hfix
      exact absurd ((congrArg Api.applicationId hfix).trans hxof.1) ht.elsewhere
    · obtain rfl : r'' = r' := h.resources.key_injective hr'' hr' (hr''id.trans hr'id.symm)
      have hfix := List.map_inj_left.mp hsame x hxmem
      rw [if_pos hxof] at hfix
      by_cases hin : x.applicationId = r''.applicationId ∧ x.name = r''.name
      · rw [← hin.1, hxof.1]
      · rw [if_neg hin] at hfix
        exact absurd ((congrArg Api.applicationId hfix).trans hxof.1) ht.elsewhere
  · intro hcurrent
    by_cases hempty : s.family row.applicationId row.name = []
    · refine .inl ⟨?_, ?_, rfl⟩
      · refine (List.map_congr_left fun x hx => ?_).trans (List.map_id _)
        have hnot : ¬(x.applicationId = row.applicationId ∧ x.name = row.name) := by
          intro hof
          have hmem := mem_family.mpr ⟨hx, hof⟩
          rw [hempty] at hmem
          cases hmem
        rw [if_neg hnot]
        rfl
      · refine (List.map_congr_left fun p _ => ?_).trans (List.map_id _)
        have hnot : ¬s.sellsOnly ((s.family row.applicationId row.name).map (·.id)) p = true := by
          intro hsells
          obtain ⟨⟨m, hm, hmp⟩, hall⟩ := sellsOnly_iff.mp hsells
          have hin := hall m hm hmp
          rw [hempty] at hin
          cases hin
        rw [if_neg hnot]
        rfl
    · have happ := hcurrent hempty r hr hid
      refine .inr ⟨r, hr, hid, rfl, ?_, ?_⟩
      · rw [happ, hname]
      · rw [happ, hname]

end

/-! ### Runs -/

section
variable {chain : List String} {s : Portal}

theorem Sound.orSame {result : Except HttpError Portal} (h : Sound s)
    (hok : ∀ s', result = .ok s' → Sound s') : Sound (s.orSame result) := by
  cases result with
  | ok s' => exact hok s' rfl
  | error _ => exact h

theorem Sound.suspend {result : Except HttpError Suspended} (h : Sound s)
    (hok : ∀ user row, result = .ok (.owner user row) → row ∈ s.resources) :
    Sound (s.suspend result) := by
  cases result with
  | error _ => exact h
  | ok handler =>
    refine ⟨h.products, h.resources, h.owned, fun user row hrow => ?_⟩
    rcases List.mem_append.mp hrow with hold | hnew
    · exact h.waiting user row hold
    · rw [← List.mem_singleton.mp hnew] at hok
      exact ⟨row, hok user row rfl, rfl, rfl⟩

structure Frame (s s' : Portal) : Prop where
  products : s'.products = s.products
  resources : s'.resources = s.resources
  members : s'.members = s.members
  suspended : s'.suspended = s.suspended
  next : s.next ≤ s'.next

theorem Frame.refl (s : Portal) : Frame s s := ⟨rfl, rfl, rfl, rfl, Nat.le_refl _⟩

theorem Sound.frame (h : Sound s) (hframe : Frame s s') : Sound s' := by
  refine ⟨?_, ?_, ?_, ?_⟩
  · rw [hframe.products]
    exact h.products.mono hframe.next
  · rw [hframe.resources]
    exact h.resources.mono hframe.next
  · intro m hm
    rw [hframe.products, hframe.resources]
    exact h.owned m (hframe.members ▸ hm)
  · rw [hframe.suspended, hframe.resources]
    exact h.waiting

theorem Frame.emit (h : Frame s s') (applicationId integration kind : String) (subject : Subject)
    (consumer : String) : Frame s (s'.emit applicationId integration kind subject consumer) := by
  unfold Portal.emit
  split
  · exact h
  · exact ⟨h.products, h.resources, h.members, h.suspended, Nat.le_succ_of_le h.next⟩

theorem Frame.requestApproval (h : Frame s s') (consumer publisher : String) (id : Nat) :
    Frame s (s'.requestApproval consumer publisher id) := by
  unfold Portal.requestApproval
  apply Frame.emit
  apply Frame.emit
  apply Frame.emit
  apply Frame.emit
  exact h.emit ..

theorem frame_subscribe {body : SubscribeBody} (hok : subscribe chain s user body = .ok s') :
    Frame s s' := by
  simp only [subscribe, bind_eq_ok, demand_eq_ok, ensure_eq_ok, pure_eq_ok] at hok
  obtain ⟨-, -, product, -, -, -, -, -, -, -, -, -, -, -, -, -, rfl⟩ := hok
  split
  · apply Frame.emit
    exact ⟨rfl, rfl, rfl, rfl, Nat.le_succ _⟩
  · apply Frame.requestApproval
    exact ⟨rfl, rfl, rfl, rfl, Nat.le_succ _⟩

theorem frame_cancel (hok : cancel s user id = .ok s') : Frame s s' := by
  simp only [cancel, bind_eq_ok, demand_eq_ok, ensure_eq_ok, pure_eq_ok] at hok
  obtain ⟨sub, -, -, -, -, -, rfl⟩ := hok
  apply Frame.emit
  exact ⟨rfl, rfl, rfl, rfl, Nat.le_refl _⟩

theorem frame_decided {event : IntegrationEvent} {decision : Decision}
    (hok : decided s event decision id = .ok s') : Frame s s' := by
  simp only [decided, bind_eq_ok, demand_eq_ok, ensure_eq_ok, pure_eq_ok] at hok
  obtain ⟨-, -, -, -, -, -, rfl⟩ := hok
  apply Frame.emit
  exact ⟨rfl, rfl, rfl, rfl, Nat.le_refl _⟩

theorem frame_decide {s' : Portal} {event : IntegrationEvent} {decision : Decision}
    (hok : decide s event decision = .ok s') : Frame s s' := by
  unfold decide at hok
  split at hok
  · cases hok
    exact Frame.refl s
  · simp only [bind_eq_ok, ensure_eq_ok] at hok
    obtain ⟨-, -, hok⟩ := hok
    split at hok
    · exact frame_decided hok
    · cases hok

theorem of_openOwner {user' : User} (h : openOwner s user id = .ok (.owner user' row)) :
    row ∈ s.resources := by
  simp only [openOwner, bind_eq_ok, demand_eq_ok, pure_eq_ok, Suspended.owner.injEq] at h
  obtain ⟨row', hrow, -, rfl⟩ := h
  exact (of_api hrow).1

theorem not_owner_of_openMembers {user' : User} : openMembers s user id ≠ .ok (.owner user' row) := by
  intro h
  simp only [openMembers, bind_eq_ok, demand_eq_ok, pure_eq_ok, reduceCtorEq, and_false,
    exists_false] at h

theorem not_owner_of_openVersion {user' : User} : openVersion s user id ≠ .ok (.owner user' row) := by
  intro h
  simp only [openVersion, bind_eq_ok, demand_eq_ok, pure_eq_ok, reduceCtorEq, and_false,
    exists_false] at h

theorem not_owner_of_openDecision {user' : User} :
    openDecision s user id ≠ .ok (.owner user' row) := by
  intro h
  simp only [openDecision, bind_eq_ok, demand_eq_ok, pure_eq_ok, reduceCtorEq, and_false,
    exists_false] at h

theorem owned_resumeMembers_iff (h : Sound s) (index : Nat) :
    Owned ((s.resumed index).orSame (putMembers (s.resumed index) user product resourceIds)) ↔
      ((∀ id ∈ resourceIds, assertMember s user product.applicationId id = .ok ()) →
        resourceIds.Nodup → resourceIds ≠ [] →
          ∀ p ∈ s.products, p.id = product.id → p.applicationId = product.applicationId) := by
  cases hput : putMembers (s.resumed index) user product resourceIds with
  | ok s' =>
    obtain ⟨hmembers, hnodup, -⟩ := putMembers_eq_ok.mp hput
    refine (owned_putMembers_iff (sound_resumed h index) hput).trans ?_
    exact ⟨fun hcurrent _ _ => hcurrent, fun hcurrent => hcurrent hmembers hnodup⟩
  | error e =>
    refine iff_of_true h.owned fun hmembers hnodup hne p hp hpid => ?_
    have hfound : s.product product.id = some p := by
      rw [← hpid]
      exact h.products.find?_of_mem hp
    have hok := putMembers_eq_ok (s := s.resumed index).mpr
      ⟨hmembers, hnodup, .inr ⟨p, hfound⟩, rfl⟩
    rw [hok] at hput
    cases hput

theorem moved_resumeOwner_iff {index : Nat} (h : Sound s)
    (hrow : s.suspended[index]? = some (.owner user row)) :
    Unmoved s ((s.resumed index).orSame (transfer (s.resumed index) user row body now)) ∨
        WholeFamily s ((s.resumed index).orSame (transfer (s.resumed index) user row body now)) row.id
          body.target now ↔
      (assertTransfer s user row body body.target = .ok () →
        s.family row.applicationId row.name ≠ [] →
          ∀ r ∈ s.resources, r.id = row.id → r.applicationId = row.applicationId) := by
  have hwaiting := h.waiting user row (List.mem_of_getElem? hrow)
  cases htransfer : transfer (s.resumed index) user row body now with
  | ok s' =>
    have hassert := (transfer_ok (sound_resumed h index) htransfer).1
    refine (moves_iff (sound_resumed h index) hwaiting htransfer).trans ?_
    exact ⟨fun hcurrent _ => hcurrent, fun hcurrent => hcurrent hassert⟩
  | error e =>
    refine iff_of_true (.inl ⟨rfl, rfl, rfl⟩) fun hassert => ?_
    have hassert : assertTransfer (s.resumed index) user row body
        (trimmed (body.applicationId.getD "")) = .ok () := hassert
    unfold transfer at htransfer
    dsimp only at htransfer
    rw [hassert] at htransfer
    cases htransfer

theorem sound_step {event : Event} (h : Sound s) (hcurrent : Current s event s')
    (hstep : step chain s event = some s') : Sound s' := by
  cases event with
  | createProduct user body =>
    cases hstep
    exact h.orSame fun _ => sound_createProduct h
  | deleteProduct user id =>
    cases hstep
    exact h.orSame fun _ => sound_deleteProduct h
  | publish user body now =>
    cases hstep
    exact h.orSame fun _ => sound_publish h
  | openMembers user id =>
    cases hstep
    exact h.suspend fun _ _ hok => absurd hok not_owner_of_openMembers
  | openVersion user id =>
    cases hstep
    exact h.suspend fun _ _ hok => absurd hok not_owner_of_openVersion
  | openOwner user id =>
    cases hstep
    exact h.suspend fun _ _ => of_openOwner
  | openDecision user id =>
    cases hstep
    exact h.suspend fun _ _ hok => absurd hok not_owner_of_openDecision
  | resumeMembers index resourceIds =>
    simp only [step] at hstep
    split at hstep
    · rename_i user product hrow
      cases hstep
      have howned := (owned_resumeMembers_iff h index).mpr (hcurrent user product hrow)
      refine (sound_resumed h index).orSame fun s' hput => ?_
      rw [hput] at howned
      obtain ⟨-, -, -, rfl⟩ := putMembers_eq_ok.mp hput
      exact ⟨h.products, h.resources, howned, (sound_resumed h index).waiting⟩
    · cases hstep
  | resumeVersion index apiVersion now =>
    simp only [step] at hstep
    split at hstep
    · cases hstep
      exact (sound_resumed h index).orSame fun _ => sound_createVersion (sound_resumed h index)
    · cases hstep
  | resumeOwner index body now =>
    simp only [step] at hstep
    split at hstep
    · cases hstep
      exact (sound_resumed h index).orSame fun _ => sound_transfer (sound_resumed h index)
    · cases hstep
  | resumeDecision index decision =>
    simp only [step] at hstep
    split at hstep
    · cases hstep
      exact (sound_resumed h index).orSame fun _ hok => (sound_resumed h index).frame (frame_decide hok)
    · cases hstep
  | subscribe user body =>
    cases hstep
    exact h.orSame fun _ hok => h.frame (frame_subscribe hok)
  | cancel user id =>
    cases hstep
    exact h.orSame fun _ hok => h.frame (frame_cancel hok)
  | deliver id =>
    cases hstep
    exact h.frame ⟨rfl, rfl, rfl, rfl, Nat.le_refl _⟩
  | activate environment =>
    cases hstep
    exact h.frame ⟨rfl, rfl, rfl, rfl, Nat.le_refl _⟩
  | released releases =>
    cases hstep
    exact h.frame ⟨rfl, rfl, rfl, rfl, Nat.le_refl _⟩

theorem lawful_step_iff {event : Event} (h : Sound s) (hstep : step chain s event = some s') :
    Current s event s' ↔ Lawful s event s' := by
  constructor
  · intro hcurrent
    refine ⟨(sound_step h hcurrent hstep).owned, fun index body now user row hevent hrow => ?_⟩
    subst hevent
    simp only [step, hrow, Option.some.injEq] at hstep
    subst hstep
    exact (moved_resumeOwner_iff h hrow).mpr (hcurrent user row hrow)
  · intro hlawful
    cases event with
    | resumeMembers index resourceIds =>
      intro user product hrow
      simp only [step, hrow, Option.some.injEq] at hstep
      subst hstep
      exact (owned_resumeMembers_iff h index).mp hlawful.owned
    | resumeOwner index body now =>
      intro user row hrow
      have hmoved := hlawful.transfer index body now user row rfl hrow
      simp only [step, hrow, Option.some.injEq] at hstep
      subst hstep
      exact (moved_resumeOwner_iff h hrow).mp hmoved
    | _ => trivial

theorem lawful_iff_current (chain : List String) (s : Portal) (events : List Event) (h : Sound s) :
    EveryStep (step chain) Lawful s events ↔ EveryStep (step chain) Current s events :=
  (everyStep_congr_of_kept (P := Current) (Q := Lawful) (I := Sound)
    (fun _ _ _ h hstep hcurrent => sound_step h hcurrent hstep)
    (fun _ _ _ h hstep => lawful_step_iff h hstep) h events).symm

end

def opened : Portal := ⟨["payments", "treasury", "ledger"], [], [], [], [], [], [], 1, []⟩

theorem sound_opened : Sound opened := by
  refine ⟨⟨List.Pairwise.nil, ?_⟩, ⟨List.Pairwise.nil, ?_⟩, ?_, ?_⟩
  · exact fun _ h => absurd h List.not_mem_nil
  · exact fun _ h => absurd h List.not_mem_nil
  · exact fun _ h => absurd h List.not_mem_nil
  · exact fun _ _ h => absurd h List.not_mem_nil

def ada : User := ⟨"ada", false, ["payments", "treasury"]⟩

def editing : List Event :=
  [.publish ada ⟨"payments", "orders", "v1", none, some "orders"⟩ 10,
    .publish ada ⟨"payments", "billing", "v1", none, some "billing"⟩ 20,
    .openMembers ada 1]

def current (s : Portal) : Event → Bool
  | .resumeMembers index resourceIds =>
    match s.suspended[index]? with
    | some (.members user product) =>
      !(resourceIds.all fun id => (assertMember s user product.applicationId id).isOk) ||
        s.products.all fun p => p.id != product.id || p.applicationId == product.applicationId
    | _ => true
  | .resumeOwner index _ _ =>
    match s.suspended[index]? with
    | some (.owner _ row) =>
      s.resources.all fun r => r.id != row.id || r.applicationId == row.applicationId
    | _ => true
  | _ => true

theorem current_sound (s : Portal) (event : Event) (s' : Portal) (h : current s event = true) :
    Current s event s' := by
  cases event with
  | resumeMembers index resourceIds =>
    intro user product hrow hmembers _ _ p hp hpid
    have hall : (resourceIds.all fun id => (assertMember s user product.applicationId id).isOk) =
        true := by
      rw [List.all_eq_true]
      intro id hid
      rw [hmembers id hid]
      rfl
    simp only [current, hrow, hall, Bool.not_true, Bool.false_or, List.all_eq_true] at h
    simpa [hpid] using h p hp
  | resumeOwner index body now =>
    intro user row hrow _ _ r hr hrid
    simp only [current, hrow, List.all_eq_true] at h
    simpa [hrid] using h r hr
  | _ => trivial

theorem lawful_opened : EveryStep (step ["dev"]) Lawful opened
    (editing ++ [.resumeMembers 0 [2], .openOwner ada 2,
      .resumeOwner 0 ⟨some "treasury", fun _ => true⟩ 40]) :=
  (lawful_iff_current ["dev"] opened _ sound_opened).mpr
    (everyStep_of_passes current current_sound (by decide +kernel))

theorem foreign_member_after_transfer : ¬∀ (chain : List String) (s : Portal) (events : List Event),
    Sound s → EveryStep (step chain) Lawful s events := by
  intro hall
  have hrun := hall ["dev"] opened (editing ++ [.openOwner ada 2,
    .resumeOwner 1 ⟨some "treasury", fun _ => true⟩ 40] ++ [.resumeMembers 0 [4]]) sound_opened
  refine not_everyStep_of_observed (P := Lawful) (fun _ s => !s.members.all fun m =>
    s.products.any fun p => s.resources.any fun r =>
      p.id == m.1 && r.id == m.2 && p.applicationId == r.applicationId) ?_ (by decide +kernel) hrun
  intro s₁ s₂ hbad hlawful
  rw [Bool.not_eq_true', ← Bool.not_eq_true, List.all_eq_true] at hbad
  refine hbad fun m hm => ?_
  obtain ⟨p, hp, r, hr, hpid, hrid, happ⟩ := hlawful.owned m hm
  rw [List.any_eq_true]
  refine ⟨p, hp, List.any_eq_true.mpr ⟨r, hr, ?_⟩⟩
  simp [hpid, hrid, happ]

end Apim.Catalog
