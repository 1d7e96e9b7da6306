import Apim.DataPlane.Attempts

/-!
# Probe slots are given back

A request that a breaker has admitted has to tell it how the attempt went, exactly once. The steps
that end an admitted attempt without a word are named (`forgets`): a request settles every slot it
took if and only if no step of its run is one of them. In a run without such a step the probes an
entry counts are never more than the requests that hold one (`Counted`), so an idle instance counts
none, and a breaker that opened lets a probe through again.
-/

namespace Apim.DataPlane

open Apim.Backend Apim.Trace

/-! ### Slots of one request -/

def paired : List SlotEvent → Bool
  | [] => true
  | .acquired key :: .settled key' :: rest => key == key' && paired rest
  | _ => false

variable {front : List SlotEvent}

theorem paired_append {back : List SlotEvent} (h : paired front = true) :
    paired (front ++ back) = paired back := by
  induction front using paired.induct with
  | case1 => rfl
  | case2 key key' rest ih =>
    simp only [paired, Bool.and_eq_true] at h
    simp only [List.cons_append, paired, h.1, Bool.true_and]
    exact ih h.2
  | case3 slots hnil hpair =>
    rw [paired] at h
    · cases h
    · exact hnil
    · exact hpair

theorem paired_settle (key : String) (h : paired front = true) :
    paired (front ++ [.acquired key] ++ [.settled key]) = true := by
  rw [List.append_assoc, paired_append h]
  simp [paired]

theorem not_paired_acquired (key : String) (h : paired front = true) :
    paired (front ++ [.acquired key]) = false := by
  rw [paired_append h]
  rfl

def Stage.entry : Stage → Option BackendEntry
  | .authenticating entry => some entry
  | .fetching entry => some entry
  | .draining => none

def Flight.Sound (f : Flight) : Prop :=
  match f.stage.entry with
  | some entry => ∃ front, paired front = true ∧
      f.slots = front ++ [.acquired (f.breakerKey entry)]
  | none => paired f.slots = true

variable {f : Flight} {entry : BackendEntry}

theorem Flight.Sound.settle (h : f.Sound) (hstage : f.stage.entry = some entry) :
    paired (f.settle entry).slots = true := by
  rw [Flight.Sound, hstage] at h
  obtain ⟨front, hfront, hslots⟩ := h
  rw [Flight.settle, hslots]
  exact paired_settle _ hfront

theorem Flight.Sound.not_paired (h : f.Sound) (hstage : f.stage.entry = some entry) :
    paired f.slots = false := by
  rw [Flight.Sound, hstage] at h
  obtain ⟨front, hfront, hslots⟩ := h
  rw [hslots]
  exact not_paired_acquired _ hfront

def Progress.Sound : Progress → Prop
  | .flying f => f.Sound
  | .ended f _ => paired f.slots = true

section
variable {origin : String → Option String}

theorem advance_sound (h : paired f.slots = true) (attempt : Nat) (lastError : Option LastError)
    (now : Nat) (b : Breaker) : (f.advance origin attempt lastError now b).1.Sound := by
  unfold Flight.advance
  split
  · exact ⟨f.slots, h, rfl⟩
  · exact h

def Flight.givesUp (origin : String → Option String) (f : Flight) (entry : BackendEntry)
    (now : Nat) : AuthAnswer → Bool
  | .threw => true
  | .refused _ _ => false
  | .accepted buildThrows =>
    decide (f.deadlineAt ≤ now) || (origin entry.url).isNone || buildThrows

theorem authAnswered_sound (h : f.Sound) (hstage : f.stage = .authenticating entry)
    (answer : AuthAnswer) (now : Nat) (b : Breaker) :
    (f.authAnswered origin entry answer now b).1.Sound ↔
      f.givesUp origin entry now answer = false := by
  have hentry : f.stage.entry = some entry := by rw [hstage]; rfl
  have hopen := h.not_paired hentry
  cases answer with
  | threw => simp [Flight.authAnswered, Progress.Sound, Flight.givesUp, hopen]
  | refused status detail =>
    simp [Flight.authAnswered, Progress.Sound, Flight.givesUp, h.settle hentry]
  | accepted buildThrows =>
    by_cases hlate : f.deadlineAt ≤ now
    · simp [Flight.authAnswered, Progress.Sound, Flight.givesUp, hlate, hopen]
    · by_cases hthrows : (origin entry.url).isNone = true ∨ buildThrows = true
      · simp only [Flight.authAnswered, hlate, if_false, hthrows, if_true, Progress.Sound, hopen,
          Flight.givesUp, decide_false, Bool.false_or, Bool.or_eq_false_iff, Bool.false_eq_true,
          false_iff, not_and, Bool.not_eq_false]
        intro hparses
        rcases hthrows with hnone | hbuild
        · rw [hparses] at hnone
          cases hnone
        · exact hbuild
      · obtain ⟨hparses, hbuilds⟩ := not_or.mp hthrows
        have hflying : ({ f with stage := .fetching entry } : Flight).Sound := by
          rw [Flight.Sound, hentry] at h
          exact h
        simp only [Flight.authAnswered, hlate, if_false, hthrows, Progress.Sound, hflying,
          Flight.givesUp, decide_false, Bool.false_or, true_iff, Bool.or_eq_false_iff]
        exact ⟨eq_false_of_ne_true hparses, eq_false_of_ne_true hbuilds⟩

def FetchAnswer.dropped : FetchAnswer → Bool
  | .responded _ => false
  | .failed overCap _ _ _ => overCap

theorem fetchAnswered_sound (h : f.Sound) (hstage : f.stage = .fetching entry)
    (answer : FetchAnswer) (now : Nat) (b : Breaker) :
    (f.fetchAnswered origin entry answer now b).1.Sound ↔ answer.dropped = false := by
  have hentry : f.stage.entry = some entry := by rw [hstage]; rfl
  have hopen := h.not_paired hentry
  have hsettled := h.settle hentry
  cases answer with
  | responded status =>
    simp only [Flight.fetchAnswered, FetchAnswer.dropped, iff_true]
    split
    · exact hsettled
    · split
      · exact hsettled
      · exact hsettled
  | failed overCap aborted timedOut message =>
    cases overCap with
    | true => simp [Flight.fetchAnswered, Progress.Sound, FetchAnswer.dropped, hopen]
    | false =>
      simp only [Flight.fetchAnswered, FetchAnswer.dropped, iff_true, Bool.false_eq_true, if_false]
      split
      · exact hsettled
      · split
        · exact advance_sound hsettled _ _ _ _
        · exact hsettled

theorem not_givesUp_of_flying {f' : Flight} {answer : AuthAnswer} {now : Nat} {b : Breaker}
    (h : (f.authAnswered origin entry answer now b).1 = .flying f') :
    f.givesUp origin entry now answer = false := by
  cases answer with
  | threw => cases h
  | refused status detail => rfl
  | accepted buildThrows =>
    simp only [Flight.authAnswered] at h
    split at h
    · cases h
    · rename_i hintime
      split at h
      · cases h
      · rename_i hbuilt
        obtain ⟨hparses, hbuilds⟩ := not_or.mp hbuilt
        simp [Flight.givesUp, hintime, hparses, hbuilds]

theorem not_dropped_of_flying {f' : Flight} {answer : FetchAnswer} {now : Nat} {b : Breaker}
    (h : (f.fetchAnswered origin entry answer now b).1 = .flying f') : answer.dropped = false := by
  cases answer with
  | responded status => rfl
  | failed overCap aborted timedOut message =>
    cases overCap with
    | true => cases h
    | false => rfl

end

/-! ### Slots of an instance -/

/-- The step ends an attempt that its breaker admitted, and does not tell the breaker. -/
def forgets (origin : String → Option String) (s : Instance) : Event → Bool
  | .auth id answer =>
    match Table.pick (·.id == id) s.flights with
    | some (f, _) =>
      match f.stage with
      | .authenticating entry => f.givesUp origin entry s.now answer
      | _ => false
    | none => false
  | .fetched _ answer => answer.dropped
  | _ => false

def Instance.Sound (s : Instance) : Prop := ∀ f ∈ s.flights, f.Sound

/-- Every request that left the loop has settled each slot it took exactly once. -/
def Instance.Settled (s : Instance) : Prop := ∀ r ∈ s.ended, paired r.1.slots = true

variable {s : Instance} {others : List Flight} {outcome : Progress × Breaker}

theorem settled_resume (hflying : ∀ f, outcome.1 = .flying f → f.Sound) :
    (s.resume others outcome).Settled ↔ s.Settled ∧ outcome.1.Sound := by
  unfold Instance.resume Instance.Settled
  cases hprogress : outcome.1 with
  | flying f => exact (and_iff_left (hflying f hprogress)).symm
  | ended f answer =>
    simp only [List.forall_mem_cons, Progress.Sound]
    exact And.comm

section
variable {origin : String → Option String}

theorem resume_sound (h : ∀ f ∈ others, f.Sound) {forgot : Bool}
    (hiff : outcome.1.Sound ↔ forgot = false)
    (hflying : ∀ f, outcome.1 = .flying f → forgot = false) :
    (s.resume others outcome).Sound ∧
      ((s.resume others outcome).Settled ↔ s.Settled ∧ forgot = false) := by
  have hsound : ∀ f, outcome.1 = .flying f → f.Sound := by
    intro f hf
    have hprogress := hiff.mpr (hflying f hf)
    rw [hf] at hprogress
    exact hprogress
  refine ⟨forall_resume h hsound, ?_⟩
  rw [settled_resume hsound, hiff]

theorem step_sound {next : Instance} {e : Event} (hs : s.Sound) (h : step origin s e = some next) :
    next.Sound ∧ (next.Settled ↔ s.Settled ∧ forgets origin s e = false) := by
  cases e with
  | tick ms =>
    cases h
    exact ⟨hs, (and_iff_left rfl).symm⟩
  | sweep =>
    cases h
    exact ⟨hs, (and_iff_left rfl).symm⟩
  | arrive id call cursor shed =>
    simp only [step] at h
    split at h
    · cases h
    · simp only [Instance.receive] at h
      split at h
      · cases h
        exact ⟨hs, (and_iff_left rfl).symm⟩
      · cases shed with
        | some denial =>
          cases h
          exact ⟨hs, (and_iff_left rfl).symm⟩
        | none =>
          cases h
          exact resume_sound hs (iff_of_true (advance_sound rfl _ _ _ _) rfl) fun _ _ => rfl
  | auth id answer =>
    obtain ⟨⟨f, others⟩, hpick, hrest⟩ := Option.bind_eq_some_iff.mp h
    obtain ⟨hf, hothers⟩ := forall_pick hs hpick
    cases hstage : f.stage with
    | authenticating entry =>
      simp only [hstage] at hrest
      cases hrest
      simp only [forgets, hpick, hstage]
      exact resume_sound hothers (authAnswered_sound hf hstage _ _ _)
        fun _ => not_givesUp_of_flying
    | fetching entry => simp [hstage] at hrest
    | draining => simp [hstage] at hrest
  | fetched id answer =>
    obtain ⟨⟨f, others⟩, hpick, hrest⟩ := Option.bind_eq_some_iff.mp h
    obtain ⟨hf, hothers⟩ := forall_pick hs hpick
    cases hstage : f.stage with
    | fetching entry =>
      simp only [hstage] at hrest
      cases hrest
      exact resume_sound hothers (fetchAnswered_sound hf hstage _ _ _)
        fun _ => not_dropped_of_flying
    | authenticating entry => simp [hstage] at hrest
    | draining => simp [hstage] at hrest
  | drained id =>
    obtain ⟨⟨f, others⟩, hpick, hrest⟩ := Option.bind_eq_some_iff.mp h
    obtain ⟨hf, hothers⟩ := forall_pick hs hpick
    cases hstage : f.stage with
    | draining =>
      simp only [hstage] at hrest
      cases hrest
      have hpaired : paired f.slots = true := by
        rw [Flight.Sound, hstage] at hf
        exact hf
      exact resume_sound hothers (iff_of_true (advance_sound hpaired _ _ _ _) rfl) fun _ _ => rfl
    | authenticating entry => simp [hstage] at hrest
    | fetching entry => simp [hstage] at hrest

theorem exec_settled_iff {s' : Instance} {events : List Event} (hs : s.Sound)
    (h : exec (step origin) s events = some s') :
    s'.Settled ↔
      s.Settled ∧ EveryStep (step origin) (fun s e _ => forgets origin s e = false) s events := by
  induction events generalizing s with
  | nil =>
    cases h
    exact (and_iff_left trivial).symm
  | cons e events ih =>
    obtain ⟨mid, hmid, hrest⟩ := exec_cons_eq_some h
    obtain ⟨hsound, hsettled⟩ := step_sound hs hmid
    rw [ih hsound hrest, hsettled, and_assoc]
    refine and_congr_right fun _ => ⟨fun hboth next hnext => ?_, fun hevery => hevery mid hmid⟩
    obtain rfl : mid = next := Option.some.inj (hmid.symm.trans hnext)
    exact hboth

/-! ### Probes in flight -/

def Flight.holds (f : Flight) (key : String) : Bool :=
  match f.stage.entry with
  | some entry => f.call.settings.isSome && f.breakerKey entry == key
  | none => false

def Progress.held (key : String) : Progress → Nat
  | .flying f => if f.holds key then 1 else 0
  | .ended _ _ => 0

def Instance.Counted (s : Instance) : Prop :=
  ∀ key, s.breaker.probes key ≤ s.flights.countP (·.holds key)

theorem holds_iff (hstage : f.stage.entry = some entry) (key : String) :
    f.holds key = true ↔ f.call.settings.isSome = true ∧ key = f.breakerKey entry := by
  rw [Flight.holds, hstage, Bool.and_eq_true, beq_iff_eq]
  exact and_congr_right fun _ => eq_comm

variable (origin) in
theorem probes_seek_le (call : Call) (order : Order) (now : Nat) (key : String) :
    ∀ left attempt lastError (b : Breaker),
      (seek origin call order now left attempt lastError b).2.probes key ≤ b.probes key +
        match (seek origin call order now left attempt lastError b).1 with
        | .sending _ entry _ => if call.settings.isSome ∧ key = call.breakerKey entry then 1 else 0
        | .ended _ => 0 := by
  intro left
  induction left with
  | zero => intro attempt lastError b; exact Nat.le_refl _
  | succ left ih =>
    intro attempt lastError b
    have hasked := Breaker.probes_tryAcquire_le b (call.breakerKey (order.at attempt))
      call.settings now key
    cases hadmits : b.admits (call.breakerKey (order.at attempt)) call.settings now with
    | true =>
      have hfst : (b.tryAcquire (call.breakerKey (order.at attempt)) call.settings now).1 = true :=
        hadmits
      simp only [hadmits, and_true] at hasked
      simp only [seek, hfst, if_true]
      exact hasked
    | false =>
      have hfst : (b.tryAcquire (call.breakerKey (order.at attempt)) call.settings now).1 = false :=
        hadmits
      simp only [hadmits, Bool.false_eq_true, and_false, if_false, Nat.add_zero] at hasked
      simp only [seek, hfst, Bool.false_eq_true, if_false]
      cases origin (order.at attempt).url with
      | none => exact hasked
      | some site => exact Nat.le_trans (ih _ _ _) (Nat.add_le_add_right hasked _)

variable (origin) in
theorem probes_advance_le (f : Flight) (attempt : Nat) (lastError : Option LastError) (now : Nat)
    (b : Breaker) (key : String) :
    (f.advance origin attempt lastError now b).2.probes key ≤
      b.probes key + (f.advance origin attempt lastError now b).1.held key := by
  have hseek := probes_seek_le origin f.call f.order now key (f.maxAttempts - attempt)
    attempt lastError b
  unfold Flight.advance
  split
  · rename_i hturn
    rw [hturn] at hseek
    rename_i attempt entry lastError b'
    have hheld := holds_iff (f := { f with
      attempt := attempt, stage := .authenticating entry, lastError := lastError,
      slots := f.slots ++ [.acquired (f.breakerKey entry)] }) rfl key
    simp only [Progress.held, hheld]
    exact hseek
  · rename_i hturn
    rw [hturn] at hseek
    exact hseek

theorem probes_told_le (hstage : f.stage.entry = some entry) {b b' : Breaker} (key : String)
    (htold : ∀ s, f.call.settings = some s → b'.probes key =
      b.probes key - if key = f.breakerKey entry then 1 else 0)
    (hnone : f.call.settings = none → b' = b) :
    b'.probes key ≤ b.probes key - if f.holds key then 1 else 0 := by
  cases hsettings : f.call.settings with
  | none =>
    rw [hnone hsettings]
    simp [holds_iff hstage, hsettings]
  | some s =>
    rw [htold s hsettings]
    simp [holds_iff hstage, hsettings]

theorem probes_onSuccess_le (hstage : f.stage.entry = some entry) (b : Breaker) (key : String) :
    (b.onSuccess (f.breakerKey entry) f.call.settings).probes key ≤
      b.probes key - if f.holds key then 1 else 0 := by
  refine probes_told_le hstage key (fun s hs => ?_) fun hnone => ?_
  · rw [hs, Breaker.probes_onSuccess]
  · rw [hnone]
    rfl

theorem probes_onFailure_le (hstage : f.stage.entry = some entry) (b : Breaker) (now : Nat)
    (key : String) :
    (b.onFailure (f.breakerKey entry) f.call.settings now).probes key ≤
      b.probes key - if f.holds key then 1 else 0 := by
  refine probes_told_le hstage key (fun s hs => ?_) fun hnone => ?_
  · rw [hs, Breaker.probes_onFailure]
  · rw [hnone]
    rfl

theorem probes_authAnswered_le (hstage : f.stage = .authenticating entry) {answer : AuthAnswer}
    {now : Nat} (b : Breaker) (hkeeps : f.givesUp origin entry now answer = false) (key : String) :
    (f.authAnswered origin entry answer now b).2.probes key ≤
      (b.probes key - if f.holds key then 1 else 0) +
        (f.authAnswered origin entry answer now b).1.held key := by
  have hentry : f.stage.entry = some entry := by rw [hstage]; rfl
  cases answer with
  | threw => cases hkeeps
  | refused status detail => exact probes_onSuccess_le hentry b key
  | accepted buildThrows =>
    simp only [Flight.givesUp, Bool.or_eq_false_iff, decide_eq_false_iff_not] at hkeeps
    obtain ⟨⟨hintime, hparses⟩, hbuilds⟩ := hkeeps
    have hholds : ({ f with stage := .fetching entry } : Flight).holds key = f.holds key := by
      rw [Flight.holds, Flight.holds, hentry]
      rfl
    simp only [Flight.authAnswered, hintime, if_false, hparses, hbuilds, Bool.false_eq_true,
      or_self, Progress.held, hholds]
    omega

theorem probes_fetchAnswered_le (hstage : f.stage = .fetching entry) {answer : FetchAnswer}
    (now : Nat) (b : Breaker) (hkeeps : answer.dropped = false) (key : String) :
    (f.fetchAnswered origin entry answer now b).2.probes key ≤
      (b.probes key - if f.holds key then 1 else 0) +
        (f.fetchAnswered origin entry answer now b).1.held key := by
  have hentry : f.stage.entry = some entry := by rw [hstage]; rfl
  have hfailure := probes_onFailure_le hentry b now key
  have hsuccess := probes_onSuccess_le hentry b key
  cases answer with
  | responded status =>
    simp only [Flight.fetchAnswered]
    split
    · exact hfailure
    · split
      · exact hfailure
      · exact hsuccess
  | failed overCap aborted timedOut message =>
    simp only [FetchAnswer.dropped] at hkeeps
    simp only [Flight.fetchAnswered, hkeeps, Bool.false_eq_true, if_false]
    split
    · exact hsuccess
    · split
      · have hnext := probes_advance_le origin (f.settle entry) (f.attempt + 1)
          (some (f.call.fetchError entry timedOut message)) now
          (b.onFailure (f.breakerKey entry) f.call.settings now) key
        exact Nat.le_trans hnext (Nat.add_le_add_right hfailure _)
      · exact hfailure

theorem Instance.Counted.resume (hs : s.Counted) (hperm : s.flights.Perm (f :: others))
    (hsegment : ∀ key, outcome.2.probes key ≤
      (s.breaker.probes key - if f.holds key then 1 else 0) + outcome.1.held key) :
    (s.resume others outcome).Counted := by
  intro key
  have hbefore := hs key
  rw [hperm.countP_eq, List.countP_cons] at hbefore
  have hafter := hsegment key
  unfold Instance.resume
  cases hprogress : outcome.1 with
  | flying g =>
    rw [hprogress, Progress.held] at hafter
    show outcome.2.probes key ≤ (g :: others).countP (·.holds key)
    rw [List.countP_cons]
    omega
  | ended g answer =>
    rw [hprogress, Progress.held] at hafter
    show outcome.2.probes key ≤ others.countP (·.holds key)
    omega

theorem Instance.Counted.enter (hs : s.Counted)
    (hsegment : ∀ key, outcome.2.probes key ≤ s.breaker.probes key + outcome.1.held key) :
    (s.resume s.flights outcome).Counted := by
  intro key
  have hbefore := hs key
  have hafter := hsegment key
  unfold Instance.resume
  cases hprogress : outcome.1 with
  | flying g =>
    rw [hprogress, Progress.held] at hafter
    show outcome.2.probes key ≤ (g :: s.flights).countP (·.holds key)
    rw [List.countP_cons]
    omega
  | ended g answer =>
    rw [hprogress, Progress.held] at hafter
    show outcome.2.probes key ≤ s.flights.countP (·.holds key)
    omega

theorem probes_survey_le (call : Call) (now : Nat) (entries : List BackendEntry) (b : Breaker)
    (key : String) : (survey call now entries b).probes key ≤ b.probes key := by
  induction entries generalizing b with
  | nil => exact Nat.le_refl _
  | cons entry entries ih =>
    exact Nat.le_trans (ih _) (Breaker.probes_state_le b _ call.settings now key)

theorem step_counted {next : Instance} {e : Event} (hs : s.Counted)
    (hkeeps : forgets origin s e = false) (h : step origin s e = some next) : next.Counted := by
  cases e with
  | tick ms =>
    cases h
    exact hs
  | sweep =>
    cases h
    intro key
    exact Nat.le_trans (Breaker.probes_sweep_le s.breaker key) (hs key)
  | arrive id call cursor shed =>
    simp only [step] at h
    split at h
    · cases h
    · simp only [Instance.receive] at h
      split at h
      · cases h
        exact hs
      · rename_i hentries
        have hsurvey := probes_survey_le call s.now
          (selectionOrder call.pool call.rule cursor (s.isHealthy call)) s.breaker
        cases shed with
        | some denial =>
          cases h
          intro key
          exact Nat.le_trans (hsurvey key) (hs key)
        | none =>
          cases h
          refine hs.enter fun key => ?_
          exact Nat.le_trans (probes_advance_le origin _ _ _ _ _ key)
            (Nat.add_le_add_right (hsurvey key) _)
  | auth id answer =>
    obtain ⟨⟨f, others⟩, hpick, hrest⟩ := Option.bind_eq_some_iff.mp h
    cases hstage : f.stage with
    | authenticating entry =>
      simp only [hstage] at hrest
      cases hrest
      simp only [forgets, hpick, hstage] at hkeeps
      exact hs.resume (Table.pick_eq_some hpick).2 (probes_authAnswered_le hstage _ hkeeps)
    | fetching entry => simp [hstage] at hrest
    | draining => simp [hstage] at hrest
  | fetched id answer =>
    obtain ⟨⟨f, others⟩, hpick, hrest⟩ := Option.bind_eq_some_iff.mp h
    cases hstage : f.stage with
    | fetching entry =>
      simp only [hstage] at hrest
      cases hrest
      exact hs.resume (Table.pick_eq_some hpick).2 (probes_fetchAnswered_le hstage _ _ hkeeps)
    | authenticating entry => simp [hstage] at hrest
    | draining => simp [hstage] at hrest
  | drained id =>
    obtain ⟨⟨f, others⟩, hpick, hrest⟩ := Option.bind_eq_some_iff.mp h
    cases hstage : f.stage with
    | draining =>
      simp only [hstage] at hrest
      cases hrest
      have hfree : ∀ key, f.holds key = false := fun key => by
        simp [Flight.holds, Stage.entry, hstage]
      refine hs.resume (Table.pick_eq_some hpick).2 fun key => ?_
      rw [hfree key]
      exact probes_advance_le origin _ _ _ _ _ key
    | authenticating entry => simp [hstage] at hrest
    | fetching entry => simp [hstage] at hrest

end

/-! ### The law over a run -/

/-- No entry counts a probe, and a breaker that opened admits one as soon as its `openSec` has
passed. -/
def Instance.Probeable (s : Instance) : Prop :=
  ∀ key, s.breaker.probes key = 0 ∧ ∀ settings : BreakerSettings,
    ((s.breaker.entry key).state = .open →
      (s.breaker.entry key).openedAtMs + settings.openSec * 1000 ≤ s.now) →
    s.breaker.admits key (some settings) s.now = true

theorem Instance.Counted.probeable (hs : s.Counted) (hidle : s.flights = []) : s.Probeable := by
  intro key
  have hzero : s.breaker.probes key = 0 := by
    have hle := hs key
    rw [hidle, List.countP_nil] at hle
    exact Nat.le_zero.mp hle
  exact ⟨hzero, fun settings hdue => Breaker.admits_of_probes_eq_zero hzero settings s.now hdue⟩

theorem start_counted (now : Nat) : (Instance.start now).Counted := fun _ => Nat.le_refl 0

theorem slots_given_back (origin : String → Option String) (now : Nat) (events : List Event)
    (s : Instance) (h : exec (step origin) (Instance.start now) events = some s) :
    (s.Settled ↔ EveryStep (step origin) (fun s e _ => forgets origin s e = false)
      (Instance.start now) events) ∧
    (EveryStep (step origin) (fun s e _ => forgets origin s e = false) (Instance.start now) events →
      s.flights = [] → s.Probeable) := by
  have hsound : (Instance.start now).Sound := fun f hf => absurd hf List.not_mem_nil
  have hsettled : (Instance.start now).Settled := fun r hr => absurd hr List.not_mem_nil
  refine ⟨?_, fun hevery hidle => ?_⟩
  · rw [exec_settled_iff hsound h]
    exact and_iff_right hsettled
  · have hcounted : s.Counted :=
      exec_invariant_of_guarded (P := fun s e _ => forgets origin s e = false)
        (I := Instance.Counted) (fun _ _ _ hs hkeeps hstep => step_counted hs hkeeps hstep)
        (start_counted now) hevery h
    exact hcounted.probeable hidle

/-! ### A backend that fails once and is probed -/

/-- A breaker that opens on the first failure, for half a minute, and lets one probe through. -/
def oneProbe : BreakerSettings := ⟨1, 60, 30, 1, Nat.one_pos⟩

def petsCall : Call where
  resourceId := "pets"
  pool := [{ url := "https://petstore.swagger.io" }]
  rule := .failover
  settings := some oneProbe
  retries := none
  upstreamMethod := "GET"
  streamed := false
  timeoutMs := 1000
  routeMaxBody := 1048576

def refusedThenProbed : List Event :=
  [.arrive 1 petsCall 0 none, .auth 1 (.accepted false),
    .fetched 1 (.failed false false false "ECONNREFUSED"), .tick 30000, .arrive 2 petsCall 0 none]

def answeredProbe : List Event :=
  refusedThenProbed ++ [.auth 2 (.accepted false), .fetched 2 (.responded 200)]

def lateProbe : List Event := refusedThenProbed ++ [.tick 1000, .auth 2 (.accepted false)]

theorem answeredProbe_given_back : ∃ s, exec (step some) (Instance.start 0) answeredProbe = some s ∧
    s.Settled ∧ s.Probeable := by
  have hrun : (exec (step some) (Instance.start 0) answeredProbe).map
      (fun s => s.flights.isEmpty) = some true := by decide +kernel
  obtain ⟨s, hs, hidle⟩ := Option.map_eq_some_iff.mp hrun
  have hkeeps : EveryStep (step some) (fun s e _ => forgets some s e = false) (Instance.start 0)
      answeredProbe :=
    everyStep_of_passes (fun s e => !forgets some s e)
      (fun s e _ hpass => (Bool.not_eq_true' _).mp hpass) (by decide +kernel)
  obtain ⟨hsettled, hprobeable⟩ := slots_given_back some 0 answeredProbe s hs
  exact ⟨s, hs, hsettled.mpr hkeeps, hprobeable hkeeps (List.isEmpty_iff.mp hidle)⟩

theorem probe_slot_lost : ∃ s, exec (step some) (Instance.start 0) lateProbe = some s ∧
    s.flights = [] ∧ s.breaker.probes "pets|https://petstore.swagger.io" = 1 ∧
    ∀ now, s.breaker.admits "pets|https://petstore.swagger.io" (some oneProbe) now = false := by
  have hrun : (exec (step some) (Instance.start 0) lateProbe).map (fun s => s.flights.isEmpty &&
      (s.breaker.entry "pets|https://petstore.swagger.io" == ⟨[], .halfOpen, 0, 1⟩)) =
      some true := by decide +kernel
  obtain ⟨s, hs, hseen⟩ := Option.map_eq_some_iff.mp hrun
  obtain ⟨hidle, hentry⟩ := Bool.and_eq_true_iff.mp hseen
  have hentry := eq_of_beq hentry
  have hprobes : s.breaker.probes "pets|https://petstore.swagger.io" = 1 := by
    rw [Breaker.probes, hentry]
  refine ⟨s, hs, List.isEmpty_iff.mp hidle, hprobes, fun now => ?_⟩
  exact Breaker.not_admits_of_saturated (by rw [hentry]) (by rw [hprobes]; decide) now

end Apim.DataPlane
