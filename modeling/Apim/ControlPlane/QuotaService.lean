import Apim.Shared.Quota
import Apim.Lib.Totals
import Mathlib.Data.List.Sort

/-!
# The fleet's quota counts

`QuotaService` (`control-plane/src/quota.ts`). A report is added to what is pending, a flush adds what
is pending to the stored rows, and an answer is read from both. What the control plane holds for a
window is `held`; an answer never gives more, and gives all of it while the rows that are read
include every row of the environment.
-/

namespace Apim.Quota

open Apim.Overlay

structure Slot where
  environment : String
  key : QuotaKey
  deriving DecidableEq, Repr

structure UsageRow where
  count : Nat
  updatedAt : Nat
  deriving DecidableEq, Repr

structure QuotaService where
  pending : Dict Slot Nat
  rows : Dict Slot UsageRow

variable {now maxEntries : Nat} {service : QuotaService} {environment : String} {k : QuotaKey}

namespace QuotaService

def empty : QuotaService := ⟨∅, ∅⟩

def acceptDelta (maxEntries : Nat) (environment : String) (pending : Dict Slot Nat)
    (delta : Σ _ : QuotaKey, Nat) : Dict Slot Nat :=
  let slot := ⟨environment, delta.1⟩
  if delta.2 = 0 then pending
  else match pending.lookup slot with
    | some existing => pending.insert slot (existing + delta.2)
    | none =>
      if maxEntries ≤ pending.entries.length then pending else pending.insert slot delta.2

def accept (maxEntries : Nat) (service : QuotaService) (environment : String) (deltas : Counts) :
    QuotaService :=
  { service with
    pending := deltas.entries.foldl (acceptDelta maxEntries environment) service.pending }

/-- The rows `aggregatesFor` reads: the environment's, the last updated first, up to the limit. -/
def recent (maxEntries : Nat) (service : QuotaService) (environment : String) :
    List (Σ _ : Slot, UsageRow) :=
  ((service.rows.entries.filter fun row => row.1.environment = environment).insertionSort
    fun a b => b.2.updatedAt ≤ a.2.updatedAt).take maxEntries

def storedTotals (maxEntries : Nat) (service : QuotaService) (environment : String) (now : Nat) :
    Counts :=
  ((service.recent maxEntries environment).filter (·.1.key.isLive now)).foldl
    (fun (totals : Counts) row => totals.insert row.1.key row.2.count) ∅

def addPending (maxEntries : Nat) (totals : Counts) (entry : Σ _ : Slot, Nat) : Counts :=
  match totals.lookup entry.1.key with
  | some existing => totals.insert entry.1.key (existing + entry.2)
  | none =>
    if totals.entries.length < maxEntries then totals.insert entry.1.key entry.2 else totals

def aggregatesFor (maxEntries : Nat) (service : QuotaService) (environment : String) (now : Nat) :
    Counts :=
  (service.pending.entries.filter fun entry => entry.1.environment = environment).foldl
    (addPending maxEntries) (service.storedTotals maxEntries environment now)

def store (now : Nat) (rows : Dict Slot UsageRow) (entry : Σ _ : Slot, Nat) : Dict Slot UsageRow :=
  rows.insert entry.1 ⟨((rows.lookup entry.1).map (·.count)).getD 0 + entry.2, now⟩

def flush (service : QuotaService) (now : Nat) : QuotaService :=
  ⟨∅, service.pending.entries.foldl (store now) service.rows⟩

/-- What `sweep` deletes: a window that ended an hour ago, and was not updated since. -/
def swept (now : Nat) (slot : Slot) (row : UsageRow) : Bool :=
  decide (row.updatedAt + 3600000 < now) && decide (slot.key.endsAt + 3600000 ≤ now)

def sweep (service : QuotaService) (now : Nat) : QuotaService :=
  { service with rows := select (fun slot row => !swept now slot row) service.rows }

/-! ### What is held -/

def stored (service : QuotaService) (slot : Slot) : Nat :=
  ((service.rows.lookup slot).map (·.count)).getD 0

def waiting (service : QuotaService) (slot : Slot) : Nat := (service.pending.lookup slot).getD 0

def held (service : QuotaService) (slot : Slot) : Nat := service.stored slot + service.waiting slot

def HasRoomFor (maxEntries : Nat) (environment : String) :
    Dict Slot Nat → List (Σ _ : QuotaKey, Nat) → Prop
  | _, [] => True
  | pending, delta :: deltas =>
    ((⟨environment, delta.1⟩ : Slot) ∈ pending ∨ pending.entries.length < maxEntries) ∧
      HasRoomFor maxEntries environment (acceptDelta maxEntries environment pending delta) deltas

instance decidableHasRoomFor (maxEntries : Nat) (environment : String) :
    (pending : Dict Slot Nat) → (deltas : List (Σ _ : QuotaKey, Nat)) →
    Decidable (HasRoomFor maxEntries environment pending deltas)
  | _, [] => isTrue trivial
  | pending, delta :: deltas =>
    have := decidableHasRoomFor maxEntries environment
      (acceptDelta maxEntries environment pending delta) deltas
    inferInstanceAs (Decidable (_ ∧ _))

def brought (environment : String) (deltas : Counts) (slot : Slot) : Nat :=
  if slot.environment = environment then deltas.of slot.key else 0

theorem acceptDelta_spec (maxEntries : Nat) (environment : String) (pending : Dict Slot Nat)
    (delta : Σ _ : QuotaKey, Nat) (slot : Slot) :
    (pending.lookup slot).getD 0 ≤
        ((acceptDelta maxEntries environment pending delta).lookup slot).getD 0 ∧
      ((acceptDelta maxEntries environment pending delta).lookup slot).getD 0 ≤
        (pending.lookup slot).getD 0 + (if slot = ⟨environment, delta.1⟩ then delta.2 else 0) ∧
      ((⟨environment, delta.1⟩ : Slot) ∈ pending ∨ pending.entries.length < maxEntries →
        ((acceptDelta maxEntries environment pending delta).lookup slot).getD 0 =
          (pending.lookup slot).getD 0 +
            (if slot = ⟨environment, delta.1⟩ then delta.2 else 0)) := by
  have hinsert : ∀ n, ((pending.insert ⟨environment, delta.1⟩ n).lookup slot).getD 0 =
      if slot = ⟨environment, delta.1⟩ then n else (pending.lookup slot).getD 0 := by
    intro n
    by_cases hslot : slot = ⟨environment, delta.1⟩
    · subst hslot
      simp
    · simp [AList.lookup_insert_ne hslot, hslot]
  unfold acceptDelta
  by_cases hzero : delta.2 = 0
  · simp [hzero]
  · simp only [if_neg hzero]
    cases hlookup : pending.lookup ⟨environment, delta.1⟩ with
    | some existing =>
      simp only [hinsert]
      by_cases hslot : slot = ⟨environment, delta.1⟩
      · subst hslot
        simp [hlookup]
      · simp [hslot]
    | none =>
      by_cases hfull : maxEntries ≤ pending.entries.length
      · simp only [if_pos hfull]
        refine ⟨le_rfl, Nat.le_add_right _ _, fun hroom => ?_⟩
        rcases hroom with hmem | hlt
        · rw [← AList.lookup_isSome, hlookup] at hmem
          cases hmem
        · omega
      · simp only [if_neg hfull, hinsert]
        by_cases hslot : slot = ⟨environment, delta.1⟩
        · subst hslot
          simp [hlookup]
        · simp [hslot]

theorem held_accept (maxEntries : Nat) (service : QuotaService) (environment : String)
    (deltas : Counts) (slot : Slot) :
    service.held slot ≤ (service.accept maxEntries environment deltas).held slot ∧
      (service.accept maxEntries environment deltas).held slot ≤
        service.held slot + brought environment deltas slot ∧
      (HasRoomFor maxEntries environment service.pending deltas.entries →
        (service.accept maxEntries environment deltas).held slot =
          service.held slot + brought environment deltas slot) := by
  have hfold : ∀ (rows : List (Σ _ : QuotaKey, Nat)) (pending : Dict Slot Nat),
      (pending.lookup slot).getD 0 ≤
          ((rows.foldl (acceptDelta maxEntries environment) pending).lookup slot).getD 0 ∧
        ((rows.foldl (acceptDelta maxEntries environment) pending).lookup slot).getD 0 ≤
          (pending.lookup slot).getD 0 +
            (rows.map fun row => if slot = ⟨environment, row.1⟩ then row.2 else 0).sum ∧
        (HasRoomFor maxEntries environment pending rows →
          ((rows.foldl (acceptDelta maxEntries environment) pending).lookup slot).getD 0 =
            (pending.lookup slot).getD 0 +
              (rows.map fun row => if slot = ⟨environment, row.1⟩ then row.2 else 0).sum) := by
    intro rows
    induction rows with
    | nil => exact fun pending => ⟨le_rfl, le_rfl, fun _ => rfl⟩
    | cons row rows ih =>
      intro pending
      obtain ⟨hgrows, hbound, hexact⟩ := acceptDelta_spec maxEntries environment pending row slot
      obtain ⟨hgrows', hbound', hexact'⟩ := ih (acceptDelta maxEntries environment pending row)
      rw [List.foldl_cons, List.map_cons, List.sum_cons]
      refine ⟨Nat.le_trans hgrows hgrows', by omega, fun hroom => ?_⟩
      rw [hexact' hroom.2, hexact hroom.1]
      omega
  have hbrought : (deltas.entries.map fun row =>
      if slot = ⟨environment, row.1⟩ then row.2 else 0).sum = brought environment deltas slot := by
    unfold brought
    by_cases henvironment : slot.environment = environment
    · rw [if_pos henvironment, Counts.of, ← sum_entries_eq]
      refine congrArg List.sum (List.map_congr_left fun row _ => ?_)
      obtain ⟨_, key⟩ := slot
      cases henvironment
      simp [eq_comm]
    · rw [if_neg henvironment]
      refine List.sum_eq_zero fun n hn => ?_
      obtain ⟨row, -, rfl⟩ := List.mem_map.mp hn
      exact if_neg fun heq => henvironment (congrArg Slot.environment heq)
  obtain ⟨hgrows, hbound, hexact⟩ := hfold deltas.entries service.pending
  rw [hbrought] at hbound hexact
  have hstored : (service.accept maxEntries environment deltas).stored slot =
      service.stored slot := rfl
  have hwaiting : (service.accept maxEntries environment deltas).waiting slot =
      ((deltas.entries.foldl (acceptDelta maxEntries environment)
        service.pending).lookup slot).getD 0 := rfl
  unfold held
  rw [hstored, hwaiting]
  refine ⟨Nat.add_le_add_left hgrows _, ?_, fun hroom => ?_⟩
  · rw [Nat.add_assoc]
    exact Nat.add_le_add_left hbound _
  · rw [hexact hroom, Nat.add_assoc]
    rfl

theorem lookup_store_ne (now : Nat) (rows : Dict Slot UsageRow) (entry : Σ _ : Slot, Nat)
    (slot : Slot) (h : slot ≠ entry.1) : (store now rows entry).lookup slot = rows.lookup slot :=
  AList.lookup_insert_ne h

theorem held_flush (service : QuotaService) (now : Nat) (slot : Slot) :
    (service.flush now).held slot = service.held slot := by
  have hwaiting : (service.flush now).waiting slot = 0 := rfl
  unfold held
  rw [hwaiting, Nat.add_zero]
  unfold stored waiting flush
  cases hlookup : service.pending.lookup slot with
  | none =>
    have hnot : slot ∉ service.pending.entries.map (·.1) :=
      fun hin => AList.lookup_eq_none.mp hlookup (AList.mem_keys.mpr hin)
    simp [lookup_foldl_of_notMem (lookup_store_ne now) service.rows hnot]
  | some n =>
    obtain ⟨rows, hrows, hwritten⟩ := lookup_foldl_of_mem (lookup_store_ne now) service.rows
      service.pending.nodupKeys ((lookup_eq_some_iff _ slot n).mp hlookup)
    simp only at hrows hwritten
    rw [hwritten, store, AList.lookup_insert, hrows]
    rfl

theorem held_sweep_le (service : QuotaService) (now : Nat) (slot : Slot) :
    (service.sweep now).held slot ≤ service.held slot := by
  refine Nat.add_le_add_right ?_ _
  unfold stored sweep
  rw [lookup_select]
  cases service.rows.lookup slot with
  | none => exact le_rfl
  | some row =>
    rw [Option.filter_some]
    split
    · exact le_rfl
    · exact Nat.zero_le _

theorem held_sweep_of_live (service : QuotaService) {slot : Slot}
    (hlive : slot.key.isLive now = true) : (service.sweep now).held slot = service.held slot := by
  have hopen : ¬ slot.key.endsAt + 3600000 ≤ now := by
    have hlt := of_decide_eq_true hlive
    omega
  unfold held stored sweep
  rw [lookup_select]
  cases service.rows.lookup slot <;> simp [swept, hopen, waiting, Option.filter]

/-! ### What an answer gives -/

theorem mem_recent {row : Σ _ : Slot, UsageRow} (h : row ∈ service.recent maxEntries environment) :
    service.rows.lookup row.1 = some row.2 ∧ row.1.environment = environment := by
  have hsorted := (List.perm_insertionSort _ _).mem_iff.mp (List.mem_of_mem_take h)
  obtain ⟨hmem, henvironment⟩ := List.mem_filter.mp hsorted
  exact ⟨(lookup_eq_some_iff _ _ _).mpr hmem, of_decide_eq_true henvironment⟩

theorem nodup_keys_of_nodup {ν : Type} {rows : List (Σ _ : Slot, ν)}
    (hnodup : (rows.map (·.1)).Nodup) (henvironment : ∀ row ∈ rows, row.1.environment = environment) :
    (rows.map (·.1.key)).Nodup := by
  refine List.Nodup.of_map (Slot.mk environment) ?_
  rw [List.map_map]
  have hsame : rows.map (Slot.mk environment ∘ (·.1.key)) = rows.map (·.1) := by
    refine List.map_congr_left fun row hrow => ?_
    obtain ⟨⟨_, key⟩, v⟩ := row
    cases henvironment _ hrow
    rfl
  rw [hsame]
  exact hnodup

theorem nodup_recent (maxEntries : Nat) (service : QuotaService) (environment : String) :
    ((service.recent maxEntries environment).map (·.1)).Nodup := by
  have hfiltered : ((service.rows.entries.filter fun row =>
      row.1.environment = environment).map (·.1)).Nodup :=
    List.Nodup.sublist (List.filter_sublist.map _) service.rows.nodupKeys
  refine List.Nodup.sublist ((List.take_sublist _ _).map _) ?_
  exact ((List.perm_insertionSort _ _).map _).nodup_iff.mpr hfiltered

theorem lookup_insert_row_ne (totals : Counts) (row : Σ _ : Slot, UsageRow) (k : QuotaKey)
    (h : k ≠ row.1.key) : (totals.insert row.1.key row.2.count).lookup k = totals.lookup k :=
  AList.lookup_insert_ne h

theorem storedTotals_eq_some {n : Nat}
    (h : (service.storedTotals maxEntries environment now).lookup k = some n) :
    service.stored ⟨environment, k⟩ = n := by
  have hkeys : (((service.recent maxEntries environment).filter (·.1.key.isLive now)).map
      (·.1.key)).Nodup :=
    List.Nodup.sublist (List.filter_sublist.map _)
      (nodup_keys_of_nodup (service.nodup_recent maxEntries environment)
        fun row hrow => (mem_recent hrow).2)
  by_cases hk : k ∈ ((service.recent maxEntries environment).filter (·.1.key.isLive now)).map
      (·.1.key)
  · obtain ⟨row, hrow, rfl⟩ := List.mem_map.mp hk
    obtain ⟨_, -, hread⟩ := lookup_foldl_of_mem lookup_insert_row_ne ∅ hkeys hrow
    have hlast := hread.symm.trans h
    rw [AList.lookup_insert] at hlast
    obtain ⟨hthere, henvironment⟩ := mem_recent (List.mem_of_mem_filter hrow)
    have hslot : (⟨environment, row.1.key⟩ : Slot) = row.1 := by
      rw [← henvironment]
    rw [stored, hslot, hthere]
    exact Option.some.inj hlast
  · rw [storedTotals, lookup_foldl_of_notMem lookup_insert_row_ne ∅ hk] at h
    cases h

def ReadsAll (maxEntries : Nat) (service : QuotaService) (environment : String) : Prop :=
  (service.rows.entries.filter fun row => row.1.environment = environment).length ≤ maxEntries

instance (maxEntries : Nat) (service : QuotaService) (environment : String) :
    Decidable (ReadsAll maxEntries service environment) :=
  inferInstanceAs (Decidable (_ ≤ _))

theorem storedTotals_eq_none (hreads : ReadsAll maxEntries service environment)
    (hlive : k.isLive now = true)
    (h : (service.storedTotals maxEntries environment now).lookup k = none) :
    service.stored ⟨environment, k⟩ = 0 := by
  unfold stored
  cases hrow : service.rows.lookup ⟨environment, k⟩ with
  | none => rfl
  | some row =>
    have hmem : (⟨⟨environment, k⟩, row⟩ : Σ _ : Slot, UsageRow) ∈
        (service.recent maxEntries environment).filter (·.1.key.isLive now) := by
      refine List.mem_filter.mpr ⟨?_, hlive⟩
      have hlength : ((service.rows.entries.filter fun row =>
          row.1.environment = environment).insertionSort
          fun a b => b.2.updatedAt ≤ a.2.updatedAt).length ≤ maxEntries := by
        rw [List.length_insertionSort]
        exact hreads
      rw [recent, List.take_of_length_le hlength]
      refine (List.perm_insertionSort _ _).mem_iff.mpr (List.mem_filter.mpr ⟨?_, by simp⟩)
      exact (lookup_eq_some_iff _ _ _).mp hrow
    have hkeys : (((service.recent maxEntries environment).filter (·.1.key.isLive now)).map
        (·.1.key)).Nodup :=
      List.Nodup.sublist (List.filter_sublist.map _)
        (nodup_keys_of_nodup (service.nodup_recent maxEntries environment)
          fun row hrow => (mem_recent hrow).2)
    obtain ⟨_, -, hread⟩ := lookup_foldl_of_mem lookup_insert_row_ne ∅ hkeys hmem
    have hlast := hread.symm.trans h
    rw [AList.lookup_insert] at hlast
    cases hlast

theorem lookup_addPending_ne (maxEntries : Nat) (totals : Counts) (entry : Σ _ : Slot, Nat)
    (k : QuotaKey) (h : k ≠ entry.1.key) :
    (addPending maxEntries totals entry).lookup k = totals.lookup k := by
  unfold addPending
  split
  · exact AList.lookup_insert_ne h
  · split
    · exact AList.lookup_insert_ne h
    · rfl

theorem aggregatesFor_eq_some {n : Nat}
    (h : (service.aggregatesFor maxEntries environment now).lookup k = some n) :
    (service.storedTotals maxEntries environment now).lookup k = some n ∧
        service.waiting ⟨environment, k⟩ = 0 ∨
      (∃ m, (service.storedTotals maxEntries environment now).lookup k = some m ∧
        n = m + service.waiting ⟨environment, k⟩) ∨
      ((service.storedTotals maxEntries environment now).lookup k = none ∧
        n = service.waiting ⟨environment, k⟩) := by
  have hpending : ((service.pending.entries.filter fun entry =>
      entry.1.environment = environment).map (·.1)).Nodup :=
    List.Nodup.sublist (List.filter_sublist.map _) service.pending.nodupKeys
  have hkeys := nodup_keys_of_nodup hpending fun entry hentry =>
    of_decide_eq_true (List.mem_filter.mp hentry).2
  by_cases hk : k ∈ (service.pending.entries.filter fun entry =>
      entry.1.environment = environment).map (·.1.key)
  · obtain ⟨entry, hentry, rfl⟩ := List.mem_map.mp hk
    obtain ⟨hthere, henvironment⟩ := List.mem_filter.mp hentry
    have hslot : (⟨environment, entry.1.key⟩ : Slot) = entry.1 := by
      rw [← of_decide_eq_true henvironment]
    have hwaiting : service.waiting ⟨environment, entry.1.key⟩ = entry.2 := by
      rw [waiting, hslot, (lookup_eq_some_iff service.pending entry.1 entry.2).mpr hthere]
      rfl
    obtain ⟨totals, htotals, hadded⟩ := lookup_foldl_of_mem (lookup_addPending_ne maxEntries)
      (service.storedTotals maxEntries environment now) hkeys hentry
    have hlast := hadded.symm.trans h
    rw [hwaiting]
    unfold addPending at hlast
    cases htotal : totals.lookup entry.1.key with
    | some m =>
      simp only [htotal, AList.lookup_insert, Option.some.injEq] at hlast
      exact .inr (.inl ⟨m, htotals.symm.trans htotal, hlast.symm⟩)
    | none =>
      simp only [htotal] at hlast
      split at hlast
      · rw [AList.lookup_insert, Option.some.injEq] at hlast
        exact .inr (.inr ⟨htotals.symm.trans htotal, hlast.symm⟩)
      · rw [htotal] at hlast
        cases hlast
  · rw [aggregatesFor, lookup_foldl_of_notMem (lookup_addPending_ne maxEntries) _ hk] at h
    refine .inl ⟨h, ?_⟩
    unfold waiting
    cases hlookup : service.pending.lookup ⟨environment, k⟩ with
    | none => rfl
    | some n =>
      have hmem := (lookup_eq_some_iff service.pending _ n).mp hlookup
      exact absurd (List.mem_map.mpr ⟨_, List.mem_filter.mpr ⟨hmem, by simp⟩, rfl⟩) hk

theorem le_held_of_aggregatesFor {n : Nat}
    (h : (service.aggregatesFor maxEntries environment now).lookup k = some n) :
    n ≤ service.held ⟨environment, k⟩ := by
  unfold held
  rcases aggregatesFor_eq_some h with ⟨htotal, -⟩ | ⟨m, htotal, rfl⟩ | ⟨-, rfl⟩
  · have hstored := storedTotals_eq_some htotal
    omega
  · have hstored := storedTotals_eq_some htotal
    omega
  · omega

theorem held_of_aggregatesFor {n : Nat} (hreads : ReadsAll maxEntries service environment)
    (hlive : k.isLive now = true)
    (h : (service.aggregatesFor maxEntries environment now).lookup k = some n) :
    n = service.held ⟨environment, k⟩ := by
  unfold held
  rcases aggregatesFor_eq_some h with ⟨htotal, hnone⟩ | ⟨m, htotal, rfl⟩ | ⟨htotal, rfl⟩
  · have hstored := storedTotals_eq_some htotal
    omega
  · have hstored := storedTotals_eq_some htotal
    omega
  · have hstored := storedTotals_eq_none hreads hlive htotal
    omega

end QuotaService

end Apim.Quota
