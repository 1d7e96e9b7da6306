import Apim.Lib.Overlay

/-!
# The backend pool

The order a request tries the backends of a pool in, and the circuit breaker an instance keeps for
each backend (`shared/backend.ts`). A clock is read where the source reads `Date.now()`, and is an
argument here. What is used of the breaker elsewhere is how each operation moves `probesInFlight`
and which states admit a request.
-/

namespace Apim.Backend

open Apim.Overlay

/-! ### Selection -/

/-- `MAX_WEIGHT` (`shared/backend.ts:13`). -/
def MAX_WEIGHT : Nat := 10

structure BackendEntry where
  url : String
  weight : Option Nat := none
  deriving DecidableEq, Repr

inductive PoolRule where
  | roundRobin
  | failover
  deriving DecidableEq, Repr

def weightOf (rule : PoolRule) (entry : BackendEntry) : Nat :=
  match rule with
  | .roundRobin => min (max (entry.weight.getD 1) 1) MAX_WEIGHT
  | .failover => 1

def expanded (pool : List BackendEntry) (rule : PoolRule) : List BackendEntry :=
  pool.flatMap fun entry => List.replicate (weightOf rule entry) entry

def ordered (pool : List BackendEntry) (rule : PoolRule) (cursor : Nat) : List BackendEntry :=
  let entries := expanded pool rule
  match rule with
  | .failover => entries
  | .roundRobin => entries.drop (cursor % entries.length) ++ entries.take (cursor % entries.length)

def distinct : List BackendEntry → List BackendEntry
  | [] => []
  | entry :: rest => entry :: (distinct rest).filter fun later => later.url != entry.url

/-- `selectionOrder` (`shared/backend.ts:57-85`): healthy first, order otherwise preserved. -/
def selectionOrder (pool : List BackendEntry) (rule : PoolRule) (cursor : Nat)
    (isHealthy : String → Bool) : List BackendEntry :=
  let entries := distinct (ordered pool rule cursor)
  entries.filter (fun entry => isHealthy entry.url) ++
    entries.filter (fun entry => !isHealthy entry.url)

theorem weightOf_pos (rule : PoolRule) (entry : BackendEntry) : 0 < weightOf rule entry := by
  cases rule with
  | roundRobin =>
    have hone : 1 ≤ max (entry.weight.getD 1) 1 := Nat.le_max_right _ _
    have hmax : 0 < MAX_WEIGHT := by decide
    exact Nat.lt_min.mpr ⟨hone, hmax⟩
  | failover => exact Nat.one_pos

theorem mem_expanded {pool : List BackendEntry} {rule : PoolRule} {entry : BackendEntry} :
    entry ∈ expanded pool rule ↔ entry ∈ pool := by
  constructor
  · intro h
    obtain ⟨written, hwritten, hcopy⟩ := List.mem_flatMap.mp h
    rw [List.eq_of_mem_replicate hcopy]
    exact hwritten
  · intro h
    have hcopy : entry ∈ List.replicate (weightOf rule entry) entry :=
      List.mem_replicate.mpr ⟨Nat.ne_of_gt (weightOf_pos rule entry), rfl⟩
    exact List.mem_flatMap.mpr ⟨entry, h, hcopy⟩

theorem mem_ordered {pool : List BackendEntry} {rule : PoolRule} {cursor : Nat}
    {entry : BackendEntry} : entry ∈ ordered pool rule cursor ↔ entry ∈ pool := by
  cases rule with
  | failover => exact mem_expanded
  | roundRobin =>
    have hsplit := List.take_append_drop (cursor % (expanded pool .roundRobin).length)
      (expanded pool .roundRobin)
    have hboth : entry ∈ ordered pool .roundRobin cursor ↔ entry ∈ expanded pool .roundRobin := by
      conv_rhs => rw [← hsplit]
      simp only [ordered, List.mem_append]
      exact Or.comm
    exact hboth.trans mem_expanded

theorem mem_of_mem_distinct {entries : List BackendEntry} {entry : BackendEntry}
    (h : entry ∈ distinct entries) : entry ∈ entries := by
  induction entries with
  | nil => exact h
  | cons first rest ih =>
    rcases List.mem_cons.mp h with rfl | hlater
    · exact List.mem_cons_self
    · exact List.mem_cons_of_mem _ (ih (List.mem_filter.mp hlater).1)

theorem exists_mem_distinct {entries : List BackendEntry} {entry : BackendEntry}
    (h : entry ∈ entries) : ∃ kept ∈ distinct entries, kept.url = entry.url := by
  induction entries with
  | nil => cases h
  | cons first rest ih =>
    by_cases hfirst : entry.url = first.url
    · exact ⟨first, List.mem_cons_self, hfirst.symm⟩
    · have hrest : entry ∈ rest := by
        rcases List.mem_cons.mp h with rfl | hrest
        · exact absurd rfl hfirst
        · exact hrest
      obtain ⟨kept, hkept, hurl⟩ := ih hrest
      have hne : (kept.url != first.url) = true := by rw [hurl]; simpa using hfirst
      exact ⟨kept, List.mem_cons_of_mem _ (List.mem_filter.mpr ⟨hkept, hne⟩), hurl⟩

theorem mem_selectionOrder {pool : List BackendEntry} {rule : PoolRule} {cursor : Nat}
    {isHealthy : String → Bool} {entry : BackendEntry} :
    entry ∈ selectionOrder pool rule cursor isHealthy ↔
      entry ∈ distinct (ordered pool rule cursor) := by
  simp only [selectionOrder, List.mem_append, List.mem_filter, ← and_or_left, Bool.not_eq_true',
    and_iff_left_iff_imp]
  intro _
  exact (Bool.eq_false_or_eq_true _)

theorem exists_mem_selectionOrder {pool : List BackendEntry} {entry : BackendEntry}
    (h : entry ∈ pool) (rule : PoolRule) (cursor : Nat) (isHealthy : String → Bool) :
    ∃ kept ∈ selectionOrder pool rule cursor isHealthy, kept.url = entry.url := by
  have hordered : entry ∈ ordered pool rule cursor := mem_ordered.mpr h
  obtain ⟨kept, hkept, hurl⟩ := exists_mem_distinct hordered
  exact ⟨kept, mem_selectionOrder.mpr hkept, hurl⟩

theorem mem_pool_of_mem_selectionOrder {pool : List BackendEntry} {rule : PoolRule} {cursor : Nat}
    {isHealthy : String → Bool} {entry : BackendEntry}
    (h : entry ∈ selectionOrder pool rule cursor isHealthy) : entry ∈ pool :=
  mem_ordered.mp (mem_of_mem_distinct (mem_selectionOrder.mp h))

/-! ### The circuit breaker -/

inductive BreakerState where
  | closed
  | open
  | halfOpen
  deriving DecidableEq, Repr

/-- `BreakerSettings`; `validateCircuitBreaker` admits no unit without a probe. -/
structure BreakerSettings where
  failures : Nat
  windowSec : Nat
  openSec : Nat
  halfOpenProbes : Nat
  probes_pos : 0 < halfOpenProbes
  deriving DecidableEq, Repr

structure BreakerEntry where
  failures : List Nat
  state : BreakerState
  openedAtMs : Nat
  probesInFlight : Nat
  deriving DecidableEq, Repr

def BreakerEntry.fresh : BreakerEntry := ⟨[], .closed, 0, 0⟩

def BreakerEntry.due (e : BreakerEntry) (s : BreakerSettings) (now : Nat) : Bool :=
  e.state == .open && decide (e.openedAtMs + s.openSec * 1000 ≤ now)

abbrev Breaker := Dict String BreakerEntry

namespace Breaker

def entry (b : Breaker) (key : String) : BreakerEntry := (b.lookup key).getD .fresh

/-- `state` (`shared/backend.ts:125-135`): it also moves an entry that is due. -/
def state (b : Breaker) (key : String) (settings : Option BreakerSettings) (now : Nat) :
    BreakerState × Breaker :=
  match settings with
  | none => (.closed, b)
  | some s =>
    match b.lookup key with
    | none => (.closed, b)
    | some e =>
      if e.due s now then
        (.halfOpen, b.insert key { e with state := .halfOpen, probesInFlight := 0 })
      else (e.state, b)

def reserve (b : Breaker) (key : String) (s : BreakerSettings) : BreakerState → Bool × Breaker
  | .open => (false, b)
  | .closed => (true, b)
  | .halfOpen =>
    let e := entry b key
    if s.halfOpenProbes ≤ e.probesInFlight then (false, b)
    else (true, b.insert key { e with probesInFlight := e.probesInFlight + 1 })

/-- `tryAcquire` (`shared/backend.ts:138-148`). -/
def tryAcquire (b : Breaker) (key : String) (settings : Option BreakerSettings) (now : Nat) :
    Bool × Breaker :=
  match settings with
  | none => (true, b)
  | some s =>
    let read := state b key settings now
    reserve read.2 key s read.1

/-- `onSuccess` (`shared/backend.ts:150-157`). -/
def onSuccess (b : Breaker) (key : String) (settings : Option BreakerSettings) : Breaker :=
  match settings with
  | none => b
  | some _ =>
    let e := entry b key
    b.insert key { e with probesInFlight := e.probesInFlight - 1, failures := [], state := .closed }

/-- `onFailure` (`shared/backend.ts:159-178`). -/
def onFailure (b : Breaker) (key : String) (settings : Option BreakerSettings) (now : Nat) :
    Breaker :=
  match settings with
  | none => b
  | some s =>
    let e := { entry b key with probesInFlight := (entry b key).probesInFlight - 1 }
    if e.state = .halfOpen then
      b.insert key { e with state := .open, openedAtMs := now, failures := [] }
    else
      let failures := e.failures.filter (fun at' => now < at' + s.windowSec * 1000) ++ [now]
      if s.failures ≤ failures.length then
        b.insert key { e with state := .open, openedAtMs := now, failures := [] }
      else b.insert key { e with failures := failures }

/-- `sweep` (`shared/backend.ts:195-200`). -/
def sweep (b : Breaker) : Breaker :=
  if b.keys.length < 10000 then b
  else select (fun _ e => !(e.state == .closed && e.failures.isEmpty)) b

def admits (b : Breaker) (key : String) (settings : Option BreakerSettings) (now : Nat) : Bool :=
  (tryAcquire b key settings now).1

def probes (b : Breaker) (key : String) : Nat := (entry b key).probesInFlight

theorem entry_insert (b : Breaker) (key : String) (e : BreakerEntry) :
    entry (b.insert key e) key = e := by
  rw [entry, AList.lookup_insert, Option.getD_some]

theorem entry_insert_ne (b : Breaker) {key other : String} (e : BreakerEntry) (h : other ≠ key) :
    entry (b.insert key e) other = entry b other := by
  rw [entry, AList.lookup_insert_ne h, entry]

theorem probes_insert (b : Breaker) (key : String) (e : BreakerEntry) (k : String) :
    probes (b.insert key e) k = if k = key then e.probesInFlight else probes b k := by
  by_cases h : k = key
  · rw [if_pos h, h, probes, entry_insert]
  · rw [if_neg h, probes, entry_insert_ne b e h, probes]

theorem entry_of_lookup {b : Breaker} {key : String} {e : BreakerEntry}
    (h : b.lookup key = some e) : entry b key = e := by
  rw [entry, h, Option.getD_some]

theorem state_of_none {b : Breaker} {key : String} (h : b.lookup key = none)
    (settings : Option BreakerSettings) (now : Nat) : state b key settings now = (.closed, b) := by
  cases settings with
  | none => rfl
  | some s => simp only [state, h]

theorem state_of_due {b : Breaker} {key : String} {e : BreakerEntry} {s : BreakerSettings}
    {now : Nat} (h : b.lookup key = some e) (hdue : e.due s now = true) :
    state b key (some s) now =
      (.halfOpen, b.insert key { e with state := .halfOpen, probesInFlight := 0 }) := by
  simp only [state, h, hdue, if_true]

theorem state_of_not_due {b : Breaker} {key : String} {e : BreakerEntry} {s : BreakerSettings}
    {now : Nat} (h : b.lookup key = some e) (hdue : e.due s now = false) :
    state b key (some s) now = (e.state, b) := by
  simp only [state, h, hdue, Bool.false_eq_true, if_false]

/-! ### What each operation does to the probes in flight -/

theorem probes_state_le (b : Breaker) (key : String) (settings : Option BreakerSettings) (now : Nat)
    (k : String) : probes (state b key settings now).2 k ≤ probes b k := by
  cases settings with
  | none => exact Nat.le_refl _
  | some s =>
    cases hlookup : b.lookup key with
    | none => exact Nat.le_of_eq (by rw [state_of_none hlookup])
    | some e =>
      cases hdue : e.due s now with
      | true =>
        rw [state_of_due hlookup hdue, probes_insert]
        split
        · exact Nat.zero_le _
        · exact Nat.le_refl _
      | false => exact Nat.le_of_eq (by rw [state_of_not_due hlookup hdue])

theorem probes_reserve_le (b : Breaker) (key : String) (s : BreakerSettings) (st : BreakerState)
    (k : String) :
    probes (reserve b key s st).2 k ≤
      probes b k + if k = key ∧ (reserve b key s st).1 = true then 1 else 0 := by
  cases st with
  | «open» | closed => exact Nat.le_add_right _ _
  | halfOpen =>
    simp only [reserve]
    split
    · exact Nat.le_add_right _ _
    · simp only [probes_insert, and_true]
      by_cases hk : k = key
      · rw [if_pos hk, if_pos hk, hk, probes]
      · rw [if_neg hk, if_neg hk, Nat.add_zero]

theorem probes_tryAcquire_le (b : Breaker) (key : String) (settings : Option BreakerSettings)
    (now : Nat) (k : String) :
    probes (tryAcquire b key settings now).2 k ≤
      probes b k + if settings.isSome ∧ k = key ∧ admits b key settings now = true then 1 else 0 := by
  cases settings with
  | none => exact Nat.le_add_right _ _
  | some s =>
    have hread := probes_state_le b key (some s) now k
    have htaken := probes_reserve_le (state b key (some s) now).2 key s
      (state b key (some s) now).1 k
    simp only [Option.isSome_some, true_and]
    exact Nat.le_trans htaken (Nat.add_le_add_right hread _)

theorem probes_onSuccess (b : Breaker) (key : String) (s : BreakerSettings) (k : String) :
    probes (onSuccess b key (some s)) k = probes b k - if k = key then 1 else 0 := by
  simp only [onSuccess, probes_insert]
  by_cases hk : k = key
  · rw [if_pos hk, if_pos hk, hk, probes]
  · rw [if_neg hk, if_neg hk, Nat.sub_zero]

theorem probes_onFailure (b : Breaker) (key : String) (s : BreakerSettings) (now : Nat)
    (k : String) :
    probes (onFailure b key (some s) now) k = probes b k - if k = key then 1 else 0 := by
  have hinsert : ∀ e : BreakerEntry, e.probesInFlight = (entry b key).probesInFlight - 1 →
      probes (b.insert key e) k = probes b k - if k = key then 1 else 0 := by
    intro e he
    rw [probes_insert]
    by_cases hk : k = key
    · rw [if_pos hk, if_pos hk, hk, probes, he]
    · rw [if_neg hk, if_neg hk, Nat.sub_zero]
  simp only [onFailure]
  split
  · exact hinsert _ rfl
  · split
    · exact hinsert _ rfl
    · exact hinsert _ rfl

theorem probes_sweep_le (b : Breaker) (k : String) : probes (sweep b) k ≤ probes b k := by
  unfold sweep
  split
  · exact Nat.le_refl _
  · simp only [probes, entry, lookup_select]
    cases b.lookup k with
    | none => exact Nat.le_refl _
    | some e =>
      rw [Option.filter_some]
      split
      · exact Nat.le_refl _
      · exact Nat.zero_le _

/-! ### Which states admit a request -/

theorem admits_of_none {b : Breaker} {key : String} (h : b.lookup key = none)
    (settings : Option BreakerSettings) (now : Nat) : admits b key settings now = true := by
  cases settings with
  | none => rfl
  | some s =>
    rw [admits, tryAcquire, state_of_none h]
    rfl

theorem admits_of_lookup {b : Breaker} {key : String} {e : BreakerEntry}
    (h : b.lookup key = some e) (s : BreakerSettings) (now : Nat) :
    admits b key (some s) now = (e.due s now || e.state == .closed ||
      (e.state == .halfOpen && decide (e.probesInFlight < s.halfOpenProbes))) := by
  rw [admits, tryAcquire]
  cases hdue : e.due s now with
  | true =>
    rw [state_of_due h hdue]
    have hfree : ¬ s.halfOpenProbes ≤ 0 := Nat.not_le.mpr s.probes_pos
    simp [reserve, entry_insert, hfree]
  | false =>
    rw [state_of_not_due h hdue]
    cases hstate : e.state with
    | closed => rfl
    | «open» => rfl
    | halfOpen =>
      simp only [reserve, entry_of_lookup h]
      by_cases hfull : s.halfOpenProbes ≤ e.probesInFlight
      · simp [hfull, Nat.not_lt.mpr hfull]
      · simp [hfull, Nat.not_le.mp hfull]

theorem tryAcquire_of_not_admits {b : Breaker} {key : String} {settings : Option BreakerSettings}
    {now : Nat} (h : admits b key settings now = false) :
    (tryAcquire b key settings now).2 = b := by
  cases settings with
  | none => rfl
  | some s =>
    cases hlookup : b.lookup key with
    | none =>
      rw [admits_of_none hlookup] at h
      cases h
    | some e =>
      rw [admits_of_lookup hlookup] at h
      have hdue : e.due s now = false := by simp_all
      rw [tryAcquire, state_of_not_due hlookup hdue]
      cases hstate : e.state with
      | closed | «open» => rfl
      | halfOpen =>
        have hfull : s.halfOpenProbes ≤ e.probesInFlight := by simpa [hstate, hdue] using h
        simp [reserve, entry_of_lookup hlookup, hfull]

theorem admits_state (b : Breaker) (key : String) (settings : Option BreakerSettings) (now : Nat)
    (k : String) : admits (state b key settings now).2 k settings now = admits b k settings now := by
  cases settings with
  | none => rfl
  | some s =>
    cases hlookup : b.lookup key with
    | none => rw [state_of_none hlookup]
    | some e =>
      cases hdue : e.due s now with
      | false => rw [state_of_not_due hlookup hdue]
      | true =>
        rw [state_of_due hlookup hdue]
        by_cases hk : k = key
        · subst hk
          have hfree : 0 < s.halfOpenProbes := s.probes_pos
          rw [admits_of_lookup (AList.lookup_insert b), admits_of_lookup hlookup, hdue]
          simp [hfree]
        · cases hother : b.lookup k with
          | none =>
            rw [admits_of_none hother]
            exact admits_of_none (by rw [AList.lookup_insert_ne hk, hother]) _ _
          | some e' =>
            rw [admits_of_lookup hother]
            exact admits_of_lookup (by rw [AList.lookup_insert_ne hk, hother]) _ _

theorem admits_of_probes_eq_zero {b : Breaker} {key : String} (h : probes b key = 0)
    (s : BreakerSettings) (now : Nat)
    (hdue : (entry b key).state = .open → (entry b key).openedAtMs + s.openSec * 1000 ≤ now) :
    admits b key (some s) now = true := by
  have hfree : 0 < s.halfOpenProbes := s.probes_pos
  cases hlookup : b.lookup key with
  | none => exact admits_of_none hlookup _ _
  | some e =>
    rw [probes, entry_of_lookup hlookup] at h
    rw [entry_of_lookup hlookup] at hdue
    rw [admits_of_lookup hlookup]
    cases hstate : e.state with
    | closed => simp
    | «open» => simp [BreakerEntry.due, hstate, hdue hstate]
    | halfOpen => simp [h, hfree]

theorem not_admits_of_saturated {b : Breaker} {key : String} {s : BreakerSettings}
    (hstate : (entry b key).state = .halfOpen) (hfull : s.halfOpenProbes ≤ probes b key)
    (now : Nat) : admits b key (some s) now = false := by
  cases hlookup : b.lookup key with
  | none =>
    rw [entry, hlookup] at hstate
    cases hstate
  | some e =>
    rw [entry_of_lookup hlookup] at hstate
    rw [probes, entry_of_lookup hlookup] at hfull
    rw [admits_of_lookup hlookup]
    simp [BreakerEntry.due, hstate, hfull]

end Breaker

end Apim.Backend
