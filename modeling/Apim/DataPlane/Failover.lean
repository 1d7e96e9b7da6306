import Apim.DataPlane.Attempts

/-!
# Failover

Whether a request reaches a backend that would take it. The loop asks the backends of the order one
by one, and a refusal uses up one of its attempts, so what decides is whether an admitted backend
stands within the attempts that are left (`Within`). Selection puts a half-open backend with every
slot taken among the healthy ones, and a route without retries has one attempt.
-/

namespace Apim.DataPlane

open Apim.Backend Apim.Trace

/-! ### The attempts a step has left -/

structure Seeking where
  call : Call
  order : Order
  left : Nat
  attempt : Nat
  breaker : Breaker
  now : Nat

def Seeking.admits (k : Seeking) (entry : BackendEntry) : Bool :=
  k.breaker.admits (k.call.breakerKey entry) k.call.settings k.now

section
variable (origin : String → Option String)

def Seeking.Within (k : Seeking) : Prop :=
  ∃ j < k.left, k.admits (k.order.at (k.attempt + j)) = true ∧
    ∀ i < j, (origin (k.order.at (k.attempt + i)).url).isSome = true

def Seeking.Refused (k : Seeking) : Prop :=
  ∀ j < k.left, k.admits (k.order.at (k.attempt + j)) = false ∧
    (origin (k.order.at (k.attempt + j)).url).isSome = true

def Seeking.run (k : Seeking) (lastError : Option LastError) : Turn × Breaker :=
  seek origin k.call k.order k.now k.left k.attempt lastError k.breaker

end

def Seeking.next (k : Seeking) : Seeking := { k with left := k.left - 1, attempt := k.attempt + 1 }

def Answer.isPoolOpen : Answer → Bool
  | .denied denial => denial.outcome == .poolOpen
  | _ => false

variable {k : Seeking} {f : Flight} {now cursor : Nat} {b : Breaker} {s : Instance}
  {entry : BackendEntry} {call : Call}

section
variable {origin : String → Option String}

theorem run_of_admits (hleft : 0 < k.left) (h : k.admits (k.order.at k.attempt) = true)
    (lastError : Option LastError) :
    (k.run origin lastError).1 = .sending k.attempt (k.order.at k.attempt) lastError := by
  obtain ⟨left, hsucc⟩ : ∃ left, k.left = left + 1 := ⟨k.left - 1, by omega⟩
  have hasked : (k.breaker.tryAcquire (k.call.breakerKey (k.order.at k.attempt)) k.call.settings
    k.now).1 = true := h
  rw [Seeking.run, hsucc, seek]
  simp only [hasked, if_true]

theorem run_of_refused (hleft : 0 < k.left) (h : k.admits (k.order.at k.attempt) = false)
    (lastError : Option LastError) :
    k.run origin lastError =
      match origin (k.order.at k.attempt).url with
      | none => (.ended .threw, k.breaker)
      | some site => k.next.run origin (some ⟨503, s!"the circuit breaker is open for {site}",
          .poolOpen, (k.order.at k.attempt).url⟩) := by
  obtain ⟨left, hsucc⟩ : ∃ left, k.left = left + 1 := ⟨k.left - 1, by omega⟩
  have hasked : (k.breaker.tryAcquire (k.call.breakerKey (k.order.at k.attempt)) k.call.settings
    k.now).1 = false := h
  rw [Seeking.run, hsucc, seek]
  simp only [hasked, Bool.false_eq_true, if_false, Breaker.tryAcquire_of_not_admits h]
  cases origin (k.order.at k.attempt).url with
  | none => rfl
  | some site => simp only [Seeking.next, Seeking.run, hsucc, Nat.add_sub_cancel]

theorem within_iff (hleft : 0 < k.left) :
    k.Within origin ↔ k.admits (k.order.at k.attempt) = true ∨
      (origin (k.order.at k.attempt).url).isSome = true ∧ k.next.Within origin := by
  constructor
  · rintro ⟨j, hj, hadmits, hparse⟩
    cases j with
    | zero => exact .inl hadmits
    | succ j =>
      have hfirst := hparse 0 (Nat.succ_pos j)
      refine .inr ⟨hfirst, j, by simp only [Seeking.next]; omega, ?_, fun i hi => ?_⟩
      · rw [show k.attempt + (j + 1) = k.attempt + 1 + j by omega] at hadmits
        exact hadmits
      · have hlater := hparse (i + 1) (Nat.succ_lt_succ hi)
        rw [show k.attempt + (i + 1) = k.attempt + 1 + i by omega] at hlater
        exact hlater
  · rintro (hadmits | ⟨hfirst, j, hj, hadmits, hparse⟩)
    · exact ⟨0, hleft, hadmits, fun i hi => absurd hi (Nat.not_lt_zero i)⟩
    · simp only [Seeking.next] at hj hparse
      refine ⟨j + 1, by omega, ?_, fun i hi => ?_⟩
      · rw [show k.attempt + (j + 1) = k.attempt + 1 + j by omega]
        exact hadmits
      · cases i with
        | zero => exact hfirst
        | succ i =>
          rw [show k.attempt + (i + 1) = k.attempt + 1 + i by omega]
          exact hparse i (Nat.lt_of_succ_lt_succ hi)

theorem refused_iff (hleft : 0 < k.left) :
    k.Refused origin ↔ (k.admits (k.order.at k.attempt) = false ∧
      (origin (k.order.at k.attempt).url).isSome = true) ∧ k.next.Refused origin := by
  constructor
  · intro h
    refine ⟨h 0 hleft, fun j hj => ?_⟩
    simp only [Seeking.next] at hj
    have hlater := h (j + 1) (by omega)
    rw [show k.attempt + (j + 1) = k.attempt + 1 + j by omega] at hlater
    exact hlater
  · rintro ⟨hfirst, hrest⟩ j hj
    cases j with
    | zero => exact hfirst
    | succ j =>
      have hlater := hrest j (by simp only [Seeking.next]; omega)
      rw [show k.attempt + (j + 1) = k.attempt + 1 + j by omega]
      exact hlater

theorem run_spec (k : Seeking) (lastError : Option LastError) :
    (k.Within origin → ∃ i entry lastError', entry ∈ k.order.entries ∧ k.admits entry = true ∧
      (k.run origin lastError).1 = .sending i entry lastError') ∧
    (¬ k.Within origin → ∃ answer, k.run origin lastError = (.ended answer, k.breaker) ∧
      (0 < k.left → (answer.isPoolOpen = true ↔ k.Refused origin))) := by
  obtain ⟨left, hleft⟩ : ∃ left, k.left = left := ⟨_, rfl⟩
  induction left generalizing k lastError with
  | zero =>
    refine ⟨fun ⟨j, hj, _⟩ => absurd hj (by omega), fun _ => ⟨conclude origin lastError, ?_, ?_⟩⟩
    · rw [Seeking.run, hleft, seek]
    · intro hpos
      omega
  | succ left ih =>
    have hpos : 0 < k.left := by omega
    cases hadmits : k.admits (k.order.at k.attempt) with
    | true =>
      refine ⟨fun _ => ⟨_, _, _, ?_, hadmits, run_of_admits hpos hadmits lastError⟩, fun hout => ?_⟩
      · exact List.get_mem _ _
      · exact absurd ((within_iff hpos).mpr (.inl hadmits)) hout
    | false =>
      rw [run_of_refused hpos hadmits, within_iff hpos, refused_iff hpos]
      cases hparse : origin (k.order.at k.attempt).url with
      | none =>
        refine ⟨fun h => ?_, fun _ => ⟨.threw, rfl, fun _ => ?_⟩⟩
        · simp [hadmits] at h
        · simp [Answer.isPoolOpen]
      | some site =>
        have hnext : k.next.left = left := by simp only [Seeking.next]; omega
        have hih := ih k.next (some ⟨503, s!"the circuit breaker is open for {site}", .poolOpen,
          (k.order.at k.attempt).url⟩) hnext
        refine ⟨fun h => ?_, fun h => ?_⟩
        · have hwithin : k.next.Within origin := by simpa [hadmits] using h
          exact hih.1 hwithin
        · have hout : ¬ k.next.Within origin := by simpa [hadmits] using h
          obtain ⟨answer, hrun, hopen⟩ := hih.2 hout
          refine ⟨answer, hrun, fun _ => ?_⟩
          by_cases hlast : 0 < k.next.left
          · rw [hopen hlast]
            simp [hadmits]
          · have hzero : k.next.left = 0 := by omega
            have hanswer : answer = conclude origin (some ⟨503,
                s!"the circuit breaker is open for {site}", .poolOpen,
                (k.order.at k.attempt).url⟩) := by
              rw [Seeking.run, hzero, seek] at hrun
              cases hrun
              rfl
            have hrest : k.next.Refused origin := fun j hj => absurd hj (by omega)
            rw [hanswer, conclude]
            simp only [hparse]
            exact iff_of_true rfl ⟨⟨hadmits, rfl⟩, hrest⟩

/-! ### A request that goes on to its next attempts -/

def Flight.seeking (f : Flight) (attempt : Nat) (now : Nat) (b : Breaker) : Seeking where
  call := f.call
  order := f.order
  left := f.maxAttempts - attempt
  attempt := attempt
  breaker := b
  now := now

theorem advance_of_within {attempt : Nat} (h : (f.seeking attempt now b).Within origin)
    (lastError : Option LastError) :
    ∃ f' b' entry, f.advance origin attempt lastError now b = (.flying f', b') ∧ f'.id = f.id ∧
      entry ∈ f.order.entries ∧ (f.seeking attempt now b).admits entry = true ∧
      f'.stage = .authenticating entry := by
  obtain ⟨i, entry, lastError', hmem, hadmits, hrun⟩ := (run_spec _ lastError).1 h
  unfold Flight.advance
  split
  · rename_i hturn
    have hfst := congrArg Prod.fst hturn
    rw [show seek origin f.call f.order now (f.maxAttempts - attempt) attempt lastError b =
      (f.seeking attempt now b).run origin lastError from rfl, hrun] at hfst
    cases hfst
    exact ⟨_, _, entry, rfl, rfl, hmem, hadmits, rfl⟩
  · rename_i hturn
    have hfst := congrArg Prod.fst hturn
    rw [show seek origin f.call f.order now (f.maxAttempts - attempt) attempt lastError b =
      (f.seeking attempt now b).run origin lastError from rfl, hrun] at hfst
    cases hfst

theorem advance_of_not_within {attempt : Nat} (h : ¬ (f.seeking attempt now b).Within origin)
    (lastError : Option LastError) :
    ∃ answer, f.advance origin attempt lastError now b = (.ended f answer, b) ∧
      (attempt < f.maxAttempts →
        (answer.isPoolOpen = true ↔ (f.seeking attempt now b).Refused origin)) := by
  obtain ⟨answer, hrun, hopen⟩ := (run_spec _ lastError).2 h
  refine ⟨answer, ?_, fun hlt => hopen (Nat.sub_pos_of_lt hlt)⟩
  unfold Flight.advance
  rw [show seek origin f.call f.order now (f.maxAttempts - attempt) attempt lastError b =
    (f.seeking attempt now b).run origin lastError from rfl, hrun]
  rfl

theorem not_refused_of_within (h : k.Within origin) : ¬ k.Refused origin := by
  obtain ⟨j, hj, hadmits, _⟩ := h
  intro hrefused
  rw [(hrefused j hj).1] at hadmits
  cases hadmits

/-! ### The law of a step -/

def Instance.admits (s : Instance) (call : Call) (entry : BackendEntry) : Bool :=
  s.breaker.admits (call.breakerKey entry) call.settings s.now

/-- A request that leaves the loop with `pool-open` had no backend that would have taken it. -/
def OpenOnlyWhenNone (s next : Instance) : Prop :=
  ∀ r, next.ended = r :: s.ended → r.2.isPoolOpen = true →
    ∀ entry ∈ r.1.call.pool, next.admits r.1.call entry = false

/-- A request that the bulkhead lets in is sent to a backend of its pool that admits it when there
is one, and `pool-open` is answered only when there is none. -/
def Serves (s : Instance) (e : Event) (next : Instance) : Prop :=
  (∀ id call cursor, e = .arrive id call cursor none →
    (∃ entry ∈ call.pool, s.admits call entry = true) →
    ∃ f ∈ next.flights, f.id = id ∧
      ∃ entry ∈ call.pool, s.admits call entry = true ∧ f.stage = .authenticating entry) ∧
  OpenOnlyWhenNone s next

def Instance.arriving (s : Instance) (call : Call) (order : Order) : Seeking :=
  (Flight.entering 0 call order s.now).seeking 0 s.now (survey call s.now order.entries s.breaker)

def Instance.retrying (s : Instance) : Event → Option Seeking
  | .fetched id (.failed overCap aborted timedOut _) =>
    match Table.pick (·.id == id) s.flights with
    | some (f, _) =>
      match f.stage with
      | .fetching entry =>
        if overCap = false ∧ aborted = false ∧ f.attempt + 1 < f.maxAttempts ∧
            f.call.retriesOn (failureName timedOut) = true then
          some (f.seeking (f.attempt + 1) s.now
            (s.breaker.onFailure (f.breakerKey entry) f.call.settings s.now))
        else none
      | _ => none
    | none => none
  | .drained id =>
    match Table.pick (·.id == id) s.flights with
    | some (f, _) => some (f.seeking (f.attempt + 1) s.now s.breaker)
    | none => none
  | _ => none

def Seeking.Served (k : Seeking) : Prop := ∃ entry ∈ k.call.pool, k.admits entry = true

/-- Where a backend would take the request, one of the attempts it has goes to such a backend. -/
def InReach (origin : String → Option String) (s : Instance) (e : Event) : Prop :=
  (∀ id call cursor (order : Order), e = .arrive id call cursor none →
    order.entries = selectionOrder call.pool call.rule cursor (s.isHealthy call) →
    (s.arriving call order).Served → (s.arriving call order).Within origin) ∧
  (∀ k, s.retrying e = some k → k.Served → ¬ k.Refused origin)

theorem admits_survey (call : Call) (now : Nat) (entries : List BackendEntry) (b : Breaker)
    (key : String) :
    (survey call now entries b).admits key call.settings now = b.admits key call.settings now := by
  induction entries generalizing b with
  | nil => rfl
  | cons entry entries ih => exact (ih _).trans (Breaker.admits_state b _ _ _ _)

theorem arriving_admits (s : Instance) (call : Call) (order : Order) (entry : BackendEntry) :
    (s.arriving call order).admits entry = s.admits call entry :=
  admits_survey call s.now order.entries s.breaker (call.breakerKey entry)

theorem maxAttempts_pos (call : Call) (backends : Nat) : 0 < call.maxAttempts backends := by
  unfold Call.maxAttempts
  split
  · exact Nat.one_pos
  · split
    · exact Nat.one_pos
    · split
      · exact Nat.one_pos
      · omega

theorem OpenOnlyWhenNone.of_ended_eq {next : Instance} (h : next.ended = s.ended) :
    OpenOnlyWhenNone s next := by
  intro r hr
  rw [h] at hr
  exact absurd hr.symm (List.cons_ne_self r s.ended)

theorem OpenOnlyWhenNone.resume {others : List Flight} {outcome : Progress × Breaker}
    (h : ∀ f answer, outcome.1 = .ended f answer → answer.isPoolOpen = false) :
    OpenOnlyWhenNone s (s.resume others outcome) := by
  unfold Instance.resume
  cases hprogress : outcome.1 with
  | flying f => exact .of_ended_eq rfl
  | ended f answer =>
    intro r hr hopen
    obtain rfl := (List.cons.inj hr).1
    rw [h f answer hprogress] at hopen
    cases hopen

theorem openOnlyWhenNone_advance_iff {others : List Flight} {attempt : Nat}
    (hlt : attempt < f.maxAttempts) (lastError : Option LastError) :
    OpenOnlyWhenNone s (s.resume others (f.advance origin attempt lastError s.now b)) ↔
      ((f.seeking attempt s.now b).Served → ¬ (f.seeking attempt s.now b).Refused origin) := by
  by_cases hwithin : (f.seeking attempt s.now b).Within origin
  · obtain ⟨f', b', entry, hadvance, _⟩ := advance_of_within hwithin lastError
    rw [hadvance]
    exact iff_of_true (.of_ended_eq rfl) fun _ => not_refused_of_within hwithin
  · obtain ⟨answer, hadvance, hopen⟩ := advance_of_not_within hwithin lastError
    rw [hadvance]
    constructor
    · rintro h ⟨entry, hentry, hadmits⟩ hrefused
      have hnone := h (f, answer) rfl ((hopen hlt).mpr hrefused) entry hentry
      rw [show (s.resume others (.ended f answer, b)).admits f.call entry =
        (f.seeking attempt s.now b).admits entry from rfl, hadmits] at hnone
      cases hnone
    · intro h r hr hpool entry hentry
      obtain rfl := (List.cons.inj hr).1
      have hrefused := (hopen hlt).mp hpool
      refine eq_false_of_ne_true fun hadmits => ?_
      exact h ⟨entry, hentry, hadmits⟩ hrefused

/-! ### Requests that wait to retry have an attempt left -/

def Flight.Retryable (f : Flight) : Prop := f.stage = .draining → f.attempt + 1 < f.maxAttempts

def Instance.Retryable (s : Instance) : Prop := ∀ f ∈ s.flights, f.Retryable

theorem advance_retryable {f' : Flight} {attempt : Nat} {lastError : Option LastError}
    (h : (f.advance origin attempt lastError now b).1 = .flying f') : f'.Retryable := by
  intro hstage
  unfold Flight.advance at h
  split at h
  · cases h
    cases hstage
  · cases h

theorem authAnswered_retryable {f' : Flight} {answer : AuthAnswer}
    (h : (f.authAnswered origin entry answer now b).1 = .flying f') : f'.Retryable := by
  intro hstage
  cases answer with
  | threw => cases h
  | refused status detail => cases h
  | accepted buildThrows =>
    simp only [Flight.authAnswered] at h
    split at h
    · cases h
    · split at h
      · cases h
      · cases h
        cases hstage

theorem fetchAnswered_retryable {f' : Flight} {answer : FetchAnswer}
    (h : (f.fetchAnswered origin entry answer now b).1 = .flying f') : f'.Retryable := by
  cases answer with
  | responded status =>
    simp only [Flight.fetchAnswered] at h
    split at h
    · rename_i hretry
      cases h
      exact fun _ => hretry.2
    · split at h <;> cases h
  | failed overCap aborted timedOut message =>
    simp only [Flight.fetchAnswered] at h
    split at h
    · cases h
    · split at h
      · cases h
      · split at h
        · exact advance_retryable h
        · cases h

theorem step_retryable {next : Instance} {e : Event} (hs : s.Retryable)
    (h : step origin s e = some next) : next.Retryable := by
  cases e with
  | tick ms =>
    cases h
    exact hs
  | sweep =>
    cases h
    exact hs
  | arrive id call cursor shed =>
    simp only [step, Instance.receive] at h
    split at h
    · cases h
    · split at h
      · cases h
        exact hs
      · cases shed with
        | some denial =>
          cases h
          exact hs
        | none =>
          cases h
          exact forall_resume hs fun _ => advance_retryable
  | auth id answer =>
    obtain ⟨⟨f, others⟩, hpick, hrest⟩ := Option.bind_eq_some_iff.mp h
    cases hstage : f.stage with
    | authenticating entry =>
      simp only [hstage] at hrest
      cases hrest
      exact forall_resume (forall_pick hs hpick).2 fun _ => authAnswered_retryable
    | fetching entry => simp [hstage] at hrest
    | draining => simp [hstage] at hrest
  | fetched id answer =>
    obtain ⟨⟨f, others⟩, hpick, hrest⟩ := Option.bind_eq_some_iff.mp h
    cases hstage : f.stage with
    | fetching entry =>
      simp only [hstage] at hrest
      cases hrest
      exact forall_resume (forall_pick hs hpick).2 fun _ => fetchAnswered_retryable
    | authenticating entry => simp [hstage] at hrest
    | draining => simp [hstage] at hrest
  | drained id =>
    obtain ⟨⟨f, others⟩, hpick, hrest⟩ := Option.bind_eq_some_iff.mp h
    cases hstage : f.stage with
    | draining =>
      simp only [hstage] at hrest
      cases hrest
      exact forall_resume (forall_pick hs hpick).2 fun _ => advance_retryable
    | authenticating entry => simp [hstage] at hrest
    | fetching entry => simp [hstage] at hrest

/-! ### Steps and runs -/

theorem conclude_isPoolOpen {failure : LastError} (h : failure.outcome ≠ .poolOpen) :
    (conclude origin (some failure)).isPoolOpen = false := by
  cases hparse : origin failure.backend with
  | none => simp only [conclude, hparse, Answer.isPoolOpen]
  | some site =>
    simp only [conclude, hparse, Answer.isPoolOpen]
    exact beq_eq_false_iff_ne.mpr h

theorem fetchError_outcome (call : Call) (entry : BackendEntry) (timedOut : Bool)
    (message : String) : (call.fetchError entry timedOut message).outcome ≠ .poolOpen := by
  cases timedOut <;> simp [Call.fetchError]

theorem authAnswered_isPoolOpen {g : Flight} {answer : AuthAnswer} {outcome : Answer}
    (h : (f.authAnswered origin entry answer now b).1 = .ended g outcome) :
    outcome.isPoolOpen = false := by
  cases answer with
  | threw =>
    cases h
    rfl
  | refused status detail =>
    cases h
    rfl
  | accepted buildThrows =>
    simp only [Flight.authAnswered] at h
    split at h
    · cases h
      exact conclude_isPoolOpen (by simp)
    · split at h
      · cases h
        rfl
      · cases h

def Instance.arrived (origin : String → Option String) (s : Instance) (id : Nat) (call : Call)
    (order : Order) : Instance :=
  s.resume s.flights ((Flight.entering id call order s.now).advance origin 0 none s.now
    (survey call s.now order.entries s.breaker))

variable (origin) in
theorem openOnlyWhenNone_arrived_iff (s : Instance) (id : Nat) (call : Call) (order : Order) :
    OpenOnlyWhenNone s (s.arrived origin id call order) ↔
      ((s.arriving call order).Served → ¬ (s.arriving call order).Refused origin) :=
  openOnlyWhenNone_advance_iff (f := Flight.entering id call order s.now)
    (maxAttempts_pos call order.entries.length) none

theorem serves_arrived_iff {id : Nat} {order : Order} (hfresh : s.knows id = false)
    (horder : order.entries = selectionOrder call.pool call.rule cursor (s.isHealthy call)) :
    Serves s (.arrive id call cursor none) (s.arrived origin id call order) ↔
      ((s.arriving call order).Served → (s.arriving call order).Within origin) := by
  have hlaw := openOnlyWhenNone_arrived_iff origin s id call order
  have hserved : (s.arriving call order).Served ↔ ∃ entry ∈ call.pool, s.admits call entry = true :=
    exists_congr fun entry => and_congr_right fun _ => by rw [arriving_admits]
  by_cases hwithin : (s.arriving call order).Within origin
  · obtain ⟨f', b', entry, hadvance, hid, hmem, hadmits, hstage⟩ :=
      advance_of_within (f := Flight.entering id call order s.now) hwithin none
    refine iff_of_true ⟨?_, hlaw.mpr fun _ => not_refused_of_within hwithin⟩ fun _ => hwithin
    intro id' call' cursor' heq _
    cases heq
    have hentry : entry ∈ selectionOrder call.pool call.rule cursor (s.isHealthy call) := by
      rw [← horder]
      exact hmem
    have hnow : s.admits call entry = true := (arriving_admits s call order entry).symm.trans hadmits
    rw [Instance.arrived, hadvance]
    exact ⟨f', List.mem_cons_self, hid, entry, mem_pool_of_mem_selectionOrder hentry, hnow, hstage⟩
  · obtain ⟨answer, hadvance, _⟩ :=
      advance_of_not_within (f := Flight.entering id call order s.now) hwithin none
    constructor
    · rintro ⟨hsent, _⟩ hsome
      obtain ⟨f', hmem, hid, _⟩ := hsent id call cursor rfl (hserved.mp hsome)
      rw [Instance.arrived, hadvance] at hmem
      have hseen : s.knows id = true := by
        simp only [Instance.knows, Bool.or_eq_true, List.any_eq_true, beq_iff_eq]
        exact .inl ⟨f', hmem, hid⟩
      rw [hfresh] at hseen
      cases hseen
    · intro hreach
      have hnone : ¬ (s.arriving call order).Served := fun hsome => hwithin (hreach hsome)
      refine ⟨fun id' call' cursor' heq hadm => ?_, hlaw.mpr fun hsome => absurd hsome hnone⟩
      cases heq
      exact absurd (hserved.mpr hadm) hnone

theorem serves_iff_of_not_arrive {next : Instance} {e : Event}
    (h : ∀ id call cursor, e ≠ .arrive id call cursor none) :
    Serves s e next ↔ OpenOnlyWhenNone s next :=
  and_iff_right fun id call cursor heq => absurd heq (h id call cursor)

theorem inReach_iff_of_not_arrive {e : Event}
    (h : ∀ id call cursor, e ≠ .arrive id call cursor none) :
    InReach origin s e ↔ ∀ k, s.retrying e = some k → k.Served → ¬ k.Refused origin :=
  and_iff_right fun id call cursor _ heq => absurd heq (h id call cursor)

theorem inReach_arrive_iff {id : Nat} (order : Order)
    (horder : order.entries = selectionOrder call.pool call.rule cursor (s.isHealthy call)) :
    InReach origin s (.arrive id call cursor none) ↔
      ((s.arriving call order).Served → (s.arriving call order).Within origin) := by
  constructor
  · intro h
    exact h.1 id call cursor order rfl horder
  · intro h
    refine ⟨fun id' call' cursor' order' heq horder' => ?_, fun k hk => nomatch hk⟩
    cases heq
    have hsame : order' = order := by
      cases order
      cases order'
      simp only at horder horder'
      subst horder horder'
      rfl
    rw [hsame]
    exact h

theorem not_served_of_selectionOrder_eq_nil {isHealthy : String → Bool}
    (h : selectionOrder call.pool call.rule cursor isHealthy = []) : call.pool = [] := by
  cases hpool : call.pool with
  | nil => rfl
  | cons entry rest =>
    have hmem : entry ∈ call.pool := by rw [hpool]; exact List.mem_cons_self
    obtain ⟨kept, hkept, _⟩ := exists_mem_selectionOrder hmem call.rule cursor isHealthy
    rw [h] at hkept
    cases hkept

theorem step_arrive_iff {next : Instance} {id : Nat} {shed : Option Denial}
    (h : step origin s (.arrive id call cursor shed) = some next) :
    Serves s (.arrive id call cursor shed) next ↔ InReach origin s (.arrive id call cursor shed) := by
  simp only [step] at h
  split at h
  · cases h
  · rename_i hknows
    have hfresh : s.knows id = false := eq_false_of_ne_true hknows
    cases shed with
    | some denial =>
      have hshed : ∀ id' call' cursor', Event.arrive id call cursor (some denial) ≠
          .arrive id' call' cursor' none := by simp
      have hended : next.ended = s.ended := by
        simp only [Instance.receive] at h
        split at h <;> (cases h; rfl)
      rw [serves_iff_of_not_arrive hshed, inReach_iff_of_not_arrive hshed]
      exact iff_of_true (.of_ended_eq hended) fun k hk => nomatch hk
    | none =>
      by_cases hentries : selectionOrder call.pool call.rule cursor (s.isHealthy call) = []
      · simp only [Instance.receive, hentries, dif_pos] at h
        cases h
        have hpool := not_served_of_selectionOrder_eq_nil hentries
        refine iff_of_true ⟨fun id' call' cursor' heq hadm => ?_, .of_ended_eq rfl⟩
          ⟨fun id' call' cursor' order heq horder => ?_, fun k hk => nomatch hk⟩
        · cases heq
          obtain ⟨entry, hentry, _⟩ := hadm
          rw [hpool] at hentry
          cases hentry
        · cases heq
          exact absurd (horder.trans hentries) order.nonempty
      · simp only [Instance.receive, hentries, dif_neg, not_false_eq_true] at h
        cases h
        rw [inReach_arrive_iff ⟨_, hentries⟩ rfl]
        exact serves_arrived_iff hfresh rfl

theorem step_serves_iff {next : Instance} {e : Event} (hs : s.Retryable)
    (h : step origin s e = some next) : Serves s e next ↔ InReach origin s e := by
  cases e with
  | arrive id call cursor shed => exact step_arrive_iff h
  | tick ms =>
    rw [serves_iff_of_not_arrive (by simp), inReach_iff_of_not_arrive (by simp)]
    cases h
    exact iff_of_true (.of_ended_eq rfl) fun k hk => nomatch hk
  | sweep =>
    rw [serves_iff_of_not_arrive (by simp), inReach_iff_of_not_arrive (by simp)]
    cases h
    exact iff_of_true (.of_ended_eq rfl) fun k hk => nomatch hk
  | auth id answer =>
    rw [serves_iff_of_not_arrive (by simp), inReach_iff_of_not_arrive (by simp)]
    obtain ⟨⟨f, others⟩, hpick, hrest⟩ := Option.bind_eq_some_iff.mp h
    cases hstage : f.stage with
    | authenticating entry =>
      simp only [hstage] at hrest
      cases hrest
      refine iff_of_true (OpenOnlyWhenNone.resume fun g outcome hended => ?_) fun k hk => nomatch hk
      exact authAnswered_isPoolOpen hended
    | fetching entry => simp [hstage] at hrest
    | draining => simp [hstage] at hrest
  | fetched id answer =>
    rw [serves_iff_of_not_arrive (by simp), inReach_iff_of_not_arrive (by simp)]
    obtain ⟨⟨f, others⟩, hpick, hrest⟩ := Option.bind_eq_some_iff.mp h
    cases hstage : f.stage with
    | fetching entry =>
      simp only [hstage] at hrest
      cases hrest
      cases answer with
      | responded status =>
        refine iff_of_true (OpenOnlyWhenNone.resume fun g outcome hended => ?_)
          fun k hk => nomatch hk
        simp only [Flight.fetchAnswered] at hended
        split at hended
        · cases hended
        · split at hended <;> (cases hended; rfl)
      | failed overCap aborted timedOut message =>
        by_cases hretry : overCap = false ∧ aborted = false ∧ f.attempt + 1 < f.maxAttempts ∧
            f.call.retriesOn (failureName timedOut) = true
        · have hretrying : s.retrying (.fetched id (.failed overCap aborted timedOut message)) =
              some (f.seeking (f.attempt + 1) s.now
                (s.breaker.onFailure (f.breakerKey entry) f.call.settings s.now)) := by
            simp only [Instance.retrying, hpick, hstage, if_pos hretry]
          have hsegment : f.fetchAnswered origin entry (.failed overCap aborted timedOut message)
              s.now s.breaker = (f.settle entry).advance origin (f.attempt + 1)
                (some (f.call.fetchError entry timedOut message)) s.now
                (s.breaker.onFailure (f.breakerKey entry) f.call.settings s.now) := by
            simp [Flight.fetchAnswered, hretry]
          rw [hsegment, hretrying, openOnlyWhenNone_advance_iff (f := f.settle entry)
            hretry.2.2.1 (some (f.call.fetchError entry timedOut message))]
          constructor
          · intro hlaw k hk
            cases hk
            exact hlaw
          · intro hall
            exact hall _ rfl
        · have hretrying : s.retrying (.fetched id (.failed overCap aborted timedOut message)) =
              none := by
            simp only [Instance.retrying, hpick, hstage, if_neg hretry]
          rw [hretrying]
          refine iff_of_true (OpenOnlyWhenNone.resume fun g outcome hended => ?_)
            fun k hk => nomatch hk
          simp only [Flight.fetchAnswered] at hended
          split at hended
          · cases hended
            rfl
          · split at hended
            · cases hended
              rfl
            · split at hended
              · rename_i hcap haborted hmore
                exact absurd ⟨eq_false_of_ne_true hcap, eq_false_of_ne_true haborted, hmore⟩ hretry
              · cases hended
                exact conclude_isPoolOpen (fetchError_outcome _ _ _ _)
    | authenticating entry => simp [hstage] at hrest
    | draining => simp [hstage] at hrest
  | drained id =>
    rw [serves_iff_of_not_arrive (by simp), inReach_iff_of_not_arrive (by simp)]
    obtain ⟨⟨f, others⟩, hpick, hrest⟩ := Option.bind_eq_some_iff.mp h
    cases hstage : f.stage with
    | draining =>
      simp only [hstage] at hrest
      cases hrest
      have hretrying : s.retrying (.drained id) =
          some (f.seeking (f.attempt + 1) s.now s.breaker) := by
        simp only [Instance.retrying, hpick]
      rw [hretrying, openOnlyWhenNone_advance_iff ((forall_pick hs hpick).1 hstage)]
      constructor
      · intro hlaw k hk
        cases hk
        exact hlaw
      · intro hall
        exact hall _ rfl
    | authenticating entry => simp [hstage] at hrest
    | fetching entry => simp [hstage] at hrest

end

/-- Along every run each request is served, and `pool-open` is answered only when no backend would
take it, if and only if at each step what would take the request is in reach. -/
theorem serves_iff_inReach (origin : String → Option String) (now : Nat) (events : List Event) :
    EveryStep (step origin) Serves (Instance.start now) events ↔
      EveryStep (step origin) (fun s e _ => InReach origin s e) (Instance.start now) events :=
  everyStep_congr_of_invariant (I := Instance.Retryable) (fun _ _ _ hs h => step_retryable hs h)
    (fun _ _ _ hs h => step_serves_iff hs h) (fun _ hf => absurd hf List.not_mem_nil) events

/-! ### One attempt, and a primary that is being probed -/

/-- Two backends without retries; the breaker opens on the first failure and lets one probe through. -/
def pairCall : Call where
  resourceId := "pets"
  pool := [{ url := "https://one.example" }, { url := "https://two.example" }]
  rule := .failover
  settings := some ⟨1, 60, 30, 1, Nat.one_pos⟩
  retries := none
  upstreamMethod := "GET"
  streamed := false
  timeoutMs := 1000
  routeMaxBody := 1048576

def primaryProbed : List Event :=
  [.arrive 1 pairCall 0 none, .auth 1 (.accepted false),
    .fetched 1 (.failed false false false "ECONNREFUSED"), .tick 30000, .arrive 2 pairCall 0 none]

theorem turned_away_from_secondary :
    ¬ EveryStep (step some) Serves (Instance.start 0) (primaryProbed ++ [.arrive 3 pairCall 0 none]) := by
  refine not_everyStep_of_observed
    (fun s₁ s₂ => s₁.admits pairCall { url := "https://two.example" } &&
      !s₂.flights.any (·.id == 3)) (fun s₁ s₂ hseen hserves => ?_) (by decide +kernel)
  obtain ⟨hadmits, hnone⟩ := Bool.and_eq_true_iff.mp hseen
  obtain ⟨f, hmem, hid, _⟩ := hserves.1 3 pairCall 0 rfl
    ⟨{ url := "https://two.example" }, by decide, hadmits⟩
  have hany : s₂.flights.any (·.id == 3) = true := List.any_eq_true.mpr ⟨f, hmem, by simp [hid]⟩
  rw [hany] at hnone
  cases hnone

end Apim.DataPlane
