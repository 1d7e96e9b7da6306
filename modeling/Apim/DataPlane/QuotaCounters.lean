import Apim.Shared.Quota

/-!
# The quota counters of an instance

`QuotaCounters` (`data-plane/src/quota.ts`). A counter has the calls allowed here that no report has
taken, and the fleet's count as it was last answered; a call is refused when the two together reach
the limit. The laws are about the two numbers, `deltaOf` and `aggregateOf`: taking moves a delta into
the report, an answer replaces the aggregates, and nothing else lets either grow but an allowed call.
-/

namespace Apim.Quota

open Apim.Overlay

structure Counter where
  delta : Nat
  aggregate : Nat
  touchedAtMs : Nat
  deriving DecidableEq, Repr

abbrev QuotaCounters := Dict QuotaKey Counter

namespace QuotaCounters

def deltaOf (counters : QuotaCounters) (key : QuotaKey) : Nat :=
  ((counters.lookup key).map (·.delta)).getD 0

def aggregateOf (counters : QuotaCounters) (key : QuotaKey) : Nat :=
  ((counters.lookup key).map (·.aggregate)).getD 0

def oldest (counters : QuotaCounters) : Option (Σ _ : QuotaKey, Counter) :=
  counters.entries.foldl (fun best entry =>
    match best with
    | none => some entry
    | some b => if entry.2.touchedAtMs < b.2.touchedAtMs then some entry else best) none

def evictOldest (counters : QuotaCounters) : QuotaCounters :=
  match counters.oldest with
  | some entry => counters.erase entry.1
  | none => counters

def counter (maxKeys : Nat) (counters : QuotaCounters) (key : QuotaKey) (now : Nat) :
    Counter × QuotaCounters :=
  match counters.lookup key with
  | some counter =>
    let counter := { counter with touchedAtMs := now }
    (counter, counters.insert key counter)
  | none =>
    let counters := if maxKeys ≤ counters.entries.length then counters.evictOldest else counters
    let counter := ⟨0, 0, now⟩
    (counter, counters.insert key counter)

def check (maxKeys : Nat) (counters : QuotaCounters) (key : QuotaKey) (calls now : Nat) :
    Bool × QuotaCounters :=
  let (counter, counters) := counters.counter maxKeys key now
  if calls ≤ counter.aggregate + counter.delta then (false, counters)
  else (true, counters.insert key { counter with delta := counter.delta + 1 })

def taken (counters : QuotaCounters) : List (Σ _ : QuotaKey, Counter) :=
  (counters.entries.filter fun entry => entry.2.delta ≠ 0).take MAX_QUOTA_ENTRIES

def deltas (counters : QuotaCounters) : Counts :=
  counters.taken.foldl (fun (d : Counts) entry => d.insert entry.1 entry.2.delta) ∅

def zeroed (counters : QuotaCounters) : QuotaCounters :=
  counters.taken.foldl (fun (d : QuotaCounters) entry =>
    d.insert entry.1 { entry.2 with delta := 0 }) counters

def applyAggregate (maxKeys : Nat) (now : Nat) (counters : QuotaCounters)
    (aggregate : Σ _ : QuotaKey, Nat) : QuotaCounters :=
  match counters.lookup aggregate.1 with
  | some counter => counters.insert aggregate.1 { counter with aggregate := aggregate.2 }
  | none =>
    let (counter, counters) := counters.counter maxKeys aggregate.1 now
    counters.insert aggregate.1 { counter with aggregate := aggregate.2 }

def applyAggregates (maxKeys : Nat) (counters : QuotaCounters) (aggregates : Counts) (now : Nat) :
    QuotaCounters :=
  aggregates.entries.foldl (applyAggregate maxKeys now) counters

def sweep (counters : QuotaCounters) (now : Nat) : QuotaCounters :=
  select (fun key _ => decide (now ≤ key.endsAt + 60000)) counters

def HasRoom (maxKeys : Nat) (counters : QuotaCounters) (key : QuotaKey) : Prop :=
  key ∈ counters ∨ counters.entries.length < maxKeys

instance (maxKeys : Nat) (counters : QuotaCounters) (key : QuotaKey) :
    Decidable (HasRoom maxKeys counters key) :=
  inferInstanceAs (Decidable (_ ∨ _))

def HasRoomFor (maxKeys now : Nat) : QuotaCounters → List (Σ _ : QuotaKey, Nat) → Prop
  | _, [] => True
  | counters, aggregate :: aggregates =>
    HasRoom maxKeys counters aggregate.1 ∧
      HasRoomFor maxKeys now (counters.applyAggregate maxKeys now aggregate) aggregates

instance decidableHasRoomFor (maxKeys now : Nat) : (counters : QuotaCounters) →
    (aggregates : List (Σ _ : QuotaKey, Nat)) → Decidable (HasRoomFor maxKeys now counters aggregates)
  | _, [] => isTrue trivial
  | counters, aggregate :: aggregates =>
    have := decidableHasRoomFor maxKeys now (counters.applyAggregate maxKeys now aggregate) aggregates
    inferInstanceAs (Decidable (_ ∧ _))

def told (given : QuotaKey → Nat) (aggregates : List (Σ _ : QuotaKey, Nat)) : QuotaKey → Nat :=
  aggregates.foldl (fun given aggregate k => if k = aggregate.1 then aggregate.2 else given k) given

/-! ### What an operation does to the two numbers -/

theorem deltaOf_insert (counters : QuotaCounters) (key k : QuotaKey) (c : Counter) :
    deltaOf (counters.insert key c) k = if k = key then c.delta else deltaOf counters k := by
  by_cases hk : k = key
  · subst hk
    simp [deltaOf]
  · simp [deltaOf, AList.lookup_insert_ne hk, hk]

theorem aggregateOf_insert (counters : QuotaCounters) (key k : QuotaKey) (c : Counter) :
    aggregateOf (counters.insert key c) k =
      if k = key then c.aggregate else aggregateOf counters k := by
  by_cases hk : k = key
  · subst hk
    simp [aggregateOf]
  · simp [aggregateOf, AList.lookup_insert_ne hk, hk]

structure Shrinks (counters counters' : QuotaCounters) : Prop where
  delta : ∀ k, counters'.deltaOf k ≤ counters.deltaOf k
  aggregate : ∀ k, counters'.aggregateOf k ≤ counters.aggregateOf k

theorem Shrinks.refl (counters : QuotaCounters) : Shrinks counters counters :=
  ⟨fun _ => le_rfl, fun _ => le_rfl⟩

theorem shrinks_erase (counters : QuotaCounters) (key : QuotaKey) :
    Shrinks counters (counters.erase key) := by
  constructor
  · intro k
    by_cases hk : k = key
    · subst hk
      simp [deltaOf]
    · simp [deltaOf, AList.lookup_erase_ne hk]
  · intro k
    by_cases hk : k = key
    · subst hk
      simp [aggregateOf]
    · simp [aggregateOf, AList.lookup_erase_ne hk]

theorem shrinks_evictOldest (counters : QuotaCounters) : Shrinks counters counters.evictOldest := by
  unfold evictOldest
  split
  · exact shrinks_erase counters _
  · exact Shrinks.refl counters

theorem counter_spec (maxKeys : Nat) (counters : QuotaCounters) (key : QuotaKey) (now : Nat) :
    (counters.counter maxKeys key now).1.delta = counters.deltaOf key ∧
      (counters.counter maxKeys key now).1.aggregate = counters.aggregateOf key ∧
      Shrinks counters (counters.counter maxKeys key now).2 ∧
      (HasRoom maxKeys counters key → ∀ k,
        (counters.counter maxKeys key now).2.deltaOf k = counters.deltaOf k ∧
        (counters.counter maxKeys key now).2.aggregateOf k = counters.aggregateOf k) := by
  unfold counter
  cases hlookup : counters.lookup key with
  | some c =>
    have hsame : ∀ k, deltaOf (counters.insert key { c with touchedAtMs := now }) k =
        counters.deltaOf k ∧
        aggregateOf (counters.insert key { c with touchedAtMs := now }) k =
          counters.aggregateOf k := by
      intro k
      rw [deltaOf_insert, aggregateOf_insert]
      by_cases hk : k = key
      · subst hk
        simp [deltaOf, aggregateOf, hlookup]
      · simp [hk]
    refine ⟨by simp [deltaOf, hlookup], by simp [aggregateOf, hlookup], ⟨?_, ?_⟩, fun _ => hsame⟩
    · exact fun k => Nat.le_of_eq (hsame k).1
    · exact fun k => Nat.le_of_eq (hsame k).2
  | none =>
    have hdelta : counters.deltaOf key = 0 := by simp [deltaOf, hlookup]
    have haggregate : counters.aggregateOf key = 0 := by simp [aggregateOf, hlookup]
    have hfresh : ∀ (d : QuotaCounters), Shrinks counters d →
        Shrinks counters (d.insert key ⟨0, 0, now⟩) := by
      intro d hd
      constructor
      · intro k
        rw [deltaOf_insert]
        split
        · exact Nat.zero_le _
        · exact hd.delta k
      · intro k
        rw [aggregateOf_insert]
        split
        · exact Nat.zero_le _
        · exact hd.aggregate k
    refine ⟨hdelta.symm, haggregate.symm, ?_, ?_⟩
    · simp only
      split
      · exact hfresh _ (shrinks_evictOldest counters)
      · exact hfresh _ (Shrinks.refl counters)
    · intro hroom k
      have hfits : ¬ maxKeys ≤ counters.entries.length := by
        rcases hroom with hmem | hlt
        · rw [← AList.lookup_isSome, hlookup] at hmem
          cases hmem
        · exact Nat.not_le.mpr hlt
      simp only [if_neg hfits, deltaOf_insert, aggregateOf_insert]
      by_cases hk : k = key
      · subst hk
        simp [hdelta, haggregate]
      · simp [hk]

theorem check_allowed_iff (maxKeys : Nat) (counters : QuotaCounters) (key : QuotaKey)
    (calls now : Nat) :
    (counters.check maxKeys key calls now).1 = true ↔
      counters.aggregateOf key + counters.deltaOf key < calls := by
  obtain ⟨hdelta, haggregate, -⟩ := counters.counter_spec maxKeys key now
  simp only [check, hdelta, haggregate]
  split
  · rename_i hfull
    simpa using hfull
  · rename_i hfree
    simpa using hfree

def counted (maxKeys : Nat) (counters : QuotaCounters) (key : QuotaKey) (calls now : Nat)
    (k : QuotaKey) : Nat :=
  if (counters.check maxKeys key calls now).1 = true ∧ k = key then 1 else 0

theorem check_spec (maxKeys : Nat) (counters : QuotaCounters) (key : QuotaKey) (calls now : Nat)
    (k : QuotaKey) :
    (counters.check maxKeys key calls now).2.deltaOf k ≤
        counters.deltaOf k + counters.counted maxKeys key calls now k ∧
      (counters.check maxKeys key calls now).2.aggregateOf k ≤ counters.aggregateOf k ∧
      (HasRoom maxKeys counters key →
        (counters.check maxKeys key calls now).2.deltaOf k =
            counters.deltaOf k + counters.counted maxKeys key calls now k ∧
          (counters.check maxKeys key calls now).2.aggregateOf k = counters.aggregateOf k) := by
  obtain ⟨hdelta, haggregate, hshrinks, hroom⟩ := counters.counter_spec maxKeys key now
  simp only [counted, check]
  by_cases hfull : calls ≤ (counters.counter maxKeys key now).1.aggregate +
      (counters.counter maxKeys key now).1.delta
  · simp only [if_pos hfull, Bool.false_eq_true, false_and, if_false, Nat.add_zero]
    exact ⟨hshrinks.delta k, hshrinks.aggregate k, fun h => hroom h k⟩
  · simp only [if_neg hfull, true_and, deltaOf_insert, aggregateOf_insert]
    by_cases hk : k = key
    · subst hk
      simp only [if_true, hdelta, haggregate]
      exact ⟨le_rfl, le_rfl, fun _ => ⟨trivial, trivial⟩⟩
    · simp only [if_neg hk, Nat.add_zero]
      exact ⟨hshrinks.delta k, hshrinks.aggregate k, fun h => hroom h k⟩

theorem taken_sublist (counters : QuotaCounters) : counters.taken.Sublist counters.entries :=
  (List.take_sublist _ _).trans List.filter_sublist

theorem nodup_taken (counters : QuotaCounters) : (counters.taken.map (·.1)).Nodup :=
  List.Nodup.sublist (counters.taken_sublist.map _) counters.nodupKeys

theorem take_spec (counters : QuotaCounters) (k : QuotaKey) :
    counters.deltas.of k + counters.zeroed.deltaOf k = counters.deltaOf k ∧
      counters.zeroed.aggregateOf k = counters.aggregateOf k := by
  have hdeltas : ∀ (d : Counts) (row : Σ _ : QuotaKey, Counter) (k : QuotaKey), k ≠ row.1 →
      (d.insert row.1 row.2.delta).lookup k = d.lookup k :=
    fun d row k hk => AList.lookup_insert_ne hk
  have hzeroed : ∀ (d : QuotaCounters) (row : Σ _ : QuotaKey, Counter) (k : QuotaKey), k ≠ row.1 →
      (d.insert row.1 { row.2 with delta := 0 }).lookup k = d.lookup k :=
    fun d row k hk => AList.lookup_insert_ne hk
  by_cases hk : k ∈ counters.taken.map (·.1)
  · obtain ⟨row, hrow, rfl⟩ := List.mem_map.mp hk
    have hthere : counters.lookup row.1 = some row.2 :=
      (lookup_eq_some_iff counters row.1 row.2).mpr (counters.taken_sublist.subset hrow)
    obtain ⟨_, -, hreport⟩ := lookup_foldl_of_mem hdeltas ∅ counters.nodup_taken hrow
    obtain ⟨_, -, hleft⟩ := lookup_foldl_of_mem hzeroed counters counters.nodup_taken hrow
    rw [AList.lookup_insert] at hreport hleft
    simp [deltas, zeroed, Counts.of, deltaOf, aggregateOf, hreport, hleft, hthere]
  · have hreport := lookup_foldl_of_notMem hdeltas ∅ hk
    have hleft := lookup_foldl_of_notMem hzeroed counters hk
    simp [deltas, zeroed, Counts.of, deltaOf, aggregateOf, hreport, hleft]

theorem applyAggregate_spec (maxKeys now : Nat) (counters : QuotaCounters)
    (aggregate : Σ _ : QuotaKey, Nat) (k : QuotaKey) :
    (counters.applyAggregate maxKeys now aggregate).deltaOf k ≤ counters.deltaOf k ∧
      (counters.applyAggregate maxKeys now aggregate).aggregateOf k ≤
        (if k = aggregate.1 then aggregate.2 else counters.aggregateOf k) ∧
      (HasRoom maxKeys counters aggregate.1 →
        (counters.applyAggregate maxKeys now aggregate).deltaOf k = counters.deltaOf k ∧
          (counters.applyAggregate maxKeys now aggregate).aggregateOf k =
            if k = aggregate.1 then aggregate.2 else counters.aggregateOf k) := by
  unfold applyAggregate
  cases hlookup : counters.lookup aggregate.1 with
  | some c =>
    have hdelta : counters.deltaOf aggregate.1 = c.delta := by simp [deltaOf, hlookup]
    simp only [deltaOf_insert, aggregateOf_insert]
    by_cases hk : k = aggregate.1
    · subst hk
      simp [hdelta]
    · simp [hk]
  | none =>
    obtain ⟨hdelta, haggregate, hshrinks, hroom⟩ := counters.counter_spec maxKeys aggregate.1 now
    simp only [deltaOf_insert, aggregateOf_insert]
    by_cases hk : k = aggregate.1
    · subst hk
      simp [hdelta]
    · simp only [if_neg hk]
      exact ⟨hshrinks.delta k, hshrinks.aggregate k, fun h => hroom h k⟩

theorem applyAggregates_bounded (maxKeys now : Nat) {bound : QuotaKey → Nat}
    {counters : QuotaCounters} {aggregates : List (Σ _ : QuotaKey, Nat)}
    (hcounters : ∀ k, counters.aggregateOf k + counters.deltaOf k ≤ bound k)
    (haggregates : ∀ a ∈ aggregates, a.2 + counters.deltaOf a.1 ≤ bound a.1) (k : QuotaKey) :
    (aggregates.foldl (applyAggregate maxKeys now) counters).deltaOf k ≤ counters.deltaOf k ∧
      (aggregates.foldl (applyAggregate maxKeys now) counters).aggregateOf k +
        (aggregates.foldl (applyAggregate maxKeys now) counters).deltaOf k ≤ bound k := by
  induction aggregates generalizing counters with
  | nil => exact ⟨le_rfl, hcounters k⟩
  | cons a aggregates ih =>
    have hspec := counters.applyAggregate_spec maxKeys now a
    have hfirst := haggregates a List.mem_cons_self
    have hcounters' : ∀ k', (counters.applyAggregate maxKeys now a).aggregateOf k' +
        (counters.applyAggregate maxKeys now a).deltaOf k' ≤ bound k' := by
      intro k'
      obtain ⟨hdelta, haggregate, -⟩ := hspec k'
      have hbound := hcounters k'
      split at haggregate
      · rename_i hk
        subst hk
        omega
      · omega
    have haggregates' : ∀ a' ∈ aggregates,
        a'.2 + (counters.applyAggregate maxKeys now a).deltaOf a'.1 ≤ bound a'.1 := by
      intro a' ha'
      have hdelta := (hspec a'.1).1
      have hbound := haggregates a' (List.mem_cons_of_mem _ ha')
      omega
    obtain ⟨hdelta, hbound⟩ := ih hcounters' haggregates'
    rw [List.foldl_cons]
    exact ⟨Nat.le_trans hdelta (hspec k).1, hbound⟩

theorem applyAggregates_room {maxKeys now : Nat} {counters : QuotaCounters}
    {aggregates : List (Σ _ : QuotaKey, Nat)} (hroom : HasRoomFor maxKeys now counters aggregates)
    (given : QuotaKey → Nat) {k : QuotaKey} (hgiven : given k ≤ counters.aggregateOf k) :
    (aggregates.foldl (applyAggregate maxKeys now) counters).deltaOf k = counters.deltaOf k ∧
      told given aggregates k ≤
        (aggregates.foldl (applyAggregate maxKeys now) counters).aggregateOf k := by
  induction aggregates generalizing counters given with
  | nil => exact ⟨rfl, hgiven⟩
  | cons a aggregates ih =>
    obtain ⟨hfirst, hrest⟩ := hroom
    obtain ⟨-, -, hexact⟩ := counters.applyAggregate_spec maxKeys now a k
    obtain ⟨hdelta, haggregate⟩ := hexact hfirst
    have hgiven' : (if k = a.1 then a.2 else given k) ≤
        (counters.applyAggregate maxKeys now a).aggregateOf k := by
      rw [haggregate]
      split
      · exact le_rfl
      · exact hgiven
    obtain ⟨hdelta', htold⟩ := ih hrest (fun k => if k = a.1 then a.2 else given k) hgiven'
    exact ⟨hdelta'.trans hdelta, htold⟩

theorem shrinks_sweep (counters : QuotaCounters) (now : Nat) :
    Shrinks counters (counters.sweep now) := by
  constructor
  · intro k
    rw [deltaOf, sweep, lookup_select]
    cases hlookup : counters.lookup k with
    | none => simp
    | some c =>
      rw [deltaOf, hlookup, Option.filter_some]
      split
      · exact le_rfl
      · exact Nat.zero_le _
  · intro k
    rw [aggregateOf, sweep, lookup_select]
    cases hlookup : counters.lookup k with
    | none => simp
    | some c =>
      rw [aggregateOf, hlookup, Option.filter_some]
      split
      · exact le_rfl
      · exact Nat.zero_le _

theorem lookup_sweep_of_live (counters : QuotaCounters) {now : Nat} {k : QuotaKey}
    (hlive : k.isLive now = true) : (counters.sweep now).lookup k = counters.lookup k := by
  have hkept : now ≤ k.endsAt + 60000 := by
    have hlt := of_decide_eq_true hlive
    omega
  rw [sweep, lookup_select]
  cases counters.lookup k <;> simp [hkept]

end QuotaCounters

end Apim.Quota
