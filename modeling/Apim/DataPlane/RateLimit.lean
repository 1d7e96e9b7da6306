import Apim.Lib.Overlay
import Apim.Lib.Trace
import Apim.DataPlane.Admission

/-!
# Rate limit windows

The limiter of an instance (`data-plane/src/ratelimit.ts:26-66`). One entry is kept for each key, with
the start of the window it counts; a run of it is its calls in the order of their times, and `made` is
the record of the checks so far, newest first.
-/

namespace Apim.DataPlane
open Overlay Trace

/-- `calls` and `periodSec` of a unit; the policy takes no period below one second. -/
@[ext] structure RateLimit where
  calls : Nat
  periodSec : Nat
  positive : 0 < periodSec

instance : DecidableEq RateLimit := fun a b =>
  decidable_of_iff (a.calls = b.calls ∧ a.periodSec = b.periodSec) RateLimit.ext_iff.symm

def RateLimit.periodMs (limit : RateLimit) : Nat := limit.periodSec * 1000

def RateLimit.windowStart (limit : RateLimit) (now : Nat) : Nat :=
  now / limit.periodMs * limit.periodMs

structure Window where
  start : Nat
  count : Nat
  periodMs : Nat
  deriving DecidableEq, Repr

structure RateVerdict where
  allowed : Bool
  limit : Nat
  remaining : Nat
  reset : Nat
  retryAfter : Nat
  deriving DecidableEq, Repr

abbrev RateLimiter := Dict String Window

namespace RateLimiter

def counted (windows : RateLimiter) (key : String) (limit : RateLimit) (now : Nat) : Window :=
  let start := limit.windowStart now
  match windows.lookup key with
  | some existing =>
    if existing.start = start then { existing with count := existing.count + 1 }
    else ⟨start, 1, limit.periodMs⟩
  | none => ⟨start, 1, limit.periodMs⟩

def check (windows : RateLimiter) (key : String) (limit : RateLimit) (now : Nat) :
    RateVerdict × RateLimiter :=
  let window := windows.counted key limit now
  let windowEnd := limit.windowStart now + limit.periodMs
  (⟨window.count ≤ limit.calls, limit.calls, limit.calls - window.count, windowEnd / 1000,
      max 1 ((windowEnd - now + 999) / 1000)⟩,
    windows.insert key window)

def Stale (window : Window) (now maxAgeMs : Nat) : Prop :=
  maxAgeMs < now - (window.start + window.periodMs)

instance (window : Window) (now maxAgeMs : Nat) : Decidable (Stale window now maxAgeMs) :=
  inferInstanceAs (Decidable (_ < _))

def sweep (windows : RateLimiter) (now maxAgeMs : Nat) : RateLimiter :=
  select (fun _ window => decide (¬ Stale window now maxAgeMs)) windows

end RateLimiter

structure RateCheck where
  key : String
  limit : RateLimit
  now : Nat
  deriving DecidableEq

def RateCheck.start (c : RateCheck) : Nat := c.limit.windowStart c.now

def RateCheck.closes (c : RateCheck) : Nat := c.start + c.limit.periodMs

theorem RateLimit.periodMs_pos (limit : RateLimit) : 0 < limit.periodMs := by
  have := limit.positive
  unfold RateLimit.periodMs
  omega

theorem RateCheck.start_le (c : RateCheck) : c.start ≤ c.now :=
  Nat.div_mul_le_self c.now c.limit.periodMs

theorem RateCheck.now_lt_closes (c : RateCheck) : c.now < c.closes := by
  have hmod := Nat.mod_lt c.now c.limit.periodMs_pos
  have hdiv := Nat.div_add_mod' c.now c.limit.periodMs
  unfold RateCheck.closes RateCheck.start RateLimit.windowStart
  omega

/-- The check `applyRateLimit` makes (`data-plane/src/pipeline.ts:2045-2054`). -/
def applyRateLimit (route : ConfigRoute) (unit : CountUnit) (positive : 0 < unit.periodSec)
    (subscription : ConfigSubscription) (now : Nat) : RateCheck :=
  ⟨subscription.id ++ "|" ++ unit.scope.text ++ "|" ++ scopeId route unit subscription,
    ⟨unit.calls, unit.periodSec, positive⟩, now⟩

namespace RateLimiting

inductive Event where
  | request (check : RateCheck)
  | sweep (now maxAgeMs : Nat)
  deriving DecidableEq

def Event.now : Event → Nat
  | .request check => check.now
  | .sweep now _ => now

structure System where
  windows : RateLimiter
  now : Nat
  made : List (RateCheck × RateVerdict)

def System.start : System := ⟨∅, 0, []⟩

def apply (s : System) : Event → System
  | .request c =>
    let (verdict, windows) := s.windows.check c.key c.limit c.now
    ⟨windows, c.now, (c, verdict) :: s.made⟩
  | .sweep now maxAgeMs => { s with windows := s.windows.sweep now maxAgeMs, now := now }

def step (s : System) (e : Event) : Option System :=
  if s.now ≤ e.now then some (apply s e) else none

theorem step_cases {s next : System} {e : Event} (h : step s e = some next) :
    s.now ≤ e.now ∧ next = apply s e := by
  unfold step at h
  split at h
  · exact ⟨‹_›, (Option.some.inj h).symm⟩
  · cases h

/-! ### What is counted, and what a limit promises -/

def sharing (made : List (RateCheck × RateVerdict)) (c : RateCheck) : Nat :=
  made.countP fun m =>
    m.1.key = c.key ∧ m.1.limit.periodSec = c.limit.periodSec ∧ m.1.start = c.start

/-- Of the checks made with one limit in one window of it, at most `calls` are allowed. -/
def AtMost (made : List (RateCheck × RateVerdict)) : Prop :=
  ∀ c : RateCheck, made.countP (fun m =>
    m.1.key = c.key ∧ m.1.limit = c.limit ∧ m.1.start = c.start ∧ m.2.allowed) ≤ c.limit.calls

/-- A check is refused only when `calls` checks of its key were made in its window. -/
def RefusedOnly (s : System) : Event → Prop
  | .request c => (s.windows.check c.key c.limit c.now).1.allowed = false →
      c.limit.calls ≤ s.made.countP fun m =>
        m.1.key = c.key ∧ c.start ≤ m.1.now ∧ m.1.now < c.closes
  | .sweep _ _ => True

/-- No entry is replaced or dropped while the window of a check it has counted is open. -/
def Spares (s : System) : Event → Prop
  | .request c => ∀ window, s.windows.lookup c.key = some window → window.start ≠ c.start →
      ∀ m ∈ s.made, m.1.key = c.key → m.1.closes ≤ c.now
  | .sweep now maxAgeMs => ∀ key window, s.windows.lookup key = some window →
      RateLimiter.Stale window now maxAgeMs → ∀ m ∈ s.made, m.1.key = key → m.1.closes ≤ now

structure Honest (s : System) : Prop where
  counts : ∀ key window, s.windows.lookup key = some window →
    window.count ≤ s.made.countP fun m => m.1.key = key ∧ m.1.start = window.start
  past : ∀ m ∈ s.made, m.1.now ≤ s.now

def Complete (s : System) : Prop :=
  ∀ m ∈ s.made, s.now < m.1.closes → ∃ window, s.windows.lookup m.1.key = some window ∧
    window.start = m.1.start ∧ sharing s.made m.1 ≤ window.count

theorem counted_cases (windows : RateLimiter) (c : RateCheck) :
    (∃ window, windows.lookup c.key = some window ∧ window.start = c.start ∧
      windows.counted c.key c.limit c.now = { window with count := window.count + 1 }) ∨
    ((∀ window, windows.lookup c.key = some window → window.start ≠ c.start) ∧
      windows.counted c.key c.limit c.now = ⟨c.start, 1, c.limit.periodMs⟩) := by
  unfold RateLimiter.counted
  cases hentry : windows.lookup c.key with
  | none => exact .inr ⟨by simp, rfl⟩
  | some existing =>
    by_cases hstart : existing.start = c.start
    · exact .inl ⟨existing, rfl, hstart, if_pos hstart⟩
    · have hother : ∀ window, some existing = some window → window.start ≠ c.start := by
        intro window hwindow
        cases hwindow
        exact hstart
      exact .inr ⟨hother, if_neg hstart⟩

theorem counted_start (windows : RateLimiter) (c : RateCheck) :
    (windows.counted c.key c.limit c.now).start = c.start := by
  obtain ⟨window, -, hstart, hcounted⟩ | ⟨-, hcounted⟩ := counted_cases windows c
  · rw [hcounted]
    exact hstart
  · rw [hcounted]

theorem allowed_iff (windows : RateLimiter) (c : RateCheck) :
    (windows.check c.key c.limit c.now).1.allowed = true ↔
      (windows.counted c.key c.limit c.now).count ≤ c.limit.calls := by
  simp [RateLimiter.check]

theorem lookup_sweep (windows : RateLimiter) (now maxAgeMs : Nat) (key : String) (window : Window) :
    (windows.sweep now maxAgeMs).lookup key = some window ↔
      windows.lookup key = some window ∧ ¬ RateLimiter.Stale window now maxAgeMs := by
  unfold RateLimiter.sweep
  rw [lookup_select, Option.filter_eq_some_iff]
  simp

theorem sharing_cons (made : List (RateCheck × RateVerdict)) (c d : RateCheck) (v : RateVerdict) :
    sharing ((d, v) :: made) c = sharing made c +
      if d.key = c.key ∧ d.limit.periodSec = c.limit.periodSec ∧ d.start = c.start then 1 else 0 := by
  simp [sharing, List.countP_cons]

/-! ### What every run keeps -/

theorem honest_start : Honest .start :=
  ⟨fun key window h => by simp [System.start] at h, fun m hm => by simp [System.start] at hm⟩

theorem honest_step {s next : System} {e : Event} (h : Honest s) (hstep : step s e = some next) :
    Honest next := by
  obtain ⟨hnow, rfl⟩ := step_cases hstep
  cases e with
  | sweep now maxAgeMs =>
    have hcounts : ∀ key window, (s.windows.sweep now maxAgeMs).lookup key = some window →
        window.count ≤ s.made.countP fun m => m.1.key = key ∧ m.1.start = window.start := by
      intro key window hwindow
      exact h.counts key window ((lookup_sweep _ _ _ _ _).mp hwindow).1
    exact ⟨hcounts, fun m hm => (h.past m hm).trans hnow⟩
  | request c =>
    have hpast : ∀ m ∈ (apply s (.request c)).made, m.1.now ≤ c.now := by
      intro m hm
      cases List.mem_cons.mp hm with
      | inl heq => exact heq ▸ le_rfl
      | inr hold => exact (h.past m hold).trans hnow
    have hcounts : ∀ key window, (apply s (.request c)).windows.lookup key = some window →
        window.count ≤ (apply s (.request c)).made.countP
          fun m => m.1.key = key ∧ m.1.start = window.start := by
      intro key window hwindow
      show window.count ≤ List.countP _ ((c, _) :: s.made)
      rw [List.countP_cons]
      by_cases hkey : key = c.key
      · subst hkey
        have heq : s.windows.counted c.key c.limit c.now = window := by
          simpa [apply, RateLimiter.check] using hwindow
        obtain ⟨old, hold, hstart, hcounted⟩ | ⟨-, hcounted⟩ := counted_cases s.windows c
        · have hcount := h.counts c.key old hold
          rw [← heq, hcounted]
          simp only [hstart, and_self, decide_true, if_true]
          rw [hstart] at hcount
          omega
        · rw [← heq, hcounted]
          simp
      · have hwindow' : s.windows.lookup key = some window := by
          simpa [apply, RateLimiter.check, AList.lookup_insert_ne hkey] using hwindow
        exact (h.counts key window hwindow').trans (Nat.le_add_right _ _)
    exact ⟨hcounts, hpast⟩

theorem refusedOnly_of_honest {s : System} {e : Event} (h : Honest s) (hnow : s.now ≤ e.now) :
    RefusedOnly s e := by
  cases e with
  | sweep now maxAgeMs => trivial
  | request c =>
    intro hrefused
    have hover : c.limit.calls < (s.windows.counted c.key c.limit c.now).count := by
      have hnot := (allowed_iff s.windows c).not.mp (by simp [hrefused])
      omega
    obtain ⟨old, hold, hstart, hcounted⟩ | ⟨-, hcounted⟩ := counted_cases s.windows c
    · have hcount := h.counts c.key old hold
      have hinside : s.made.countP (fun m => m.1.key = c.key ∧ m.1.start = old.start) ≤
          s.made.countP fun m => m.1.key = c.key ∧ c.start ≤ m.1.now ∧ m.1.now < c.closes := by
        apply List.countP_mono_left
        intro m hm hshared
        simp only [decide_eq_true_eq] at hshared ⊢
        have hpast := h.past m hm
        have hfrom := m.1.start_le
        have hopen := c.now_lt_closes
        have hnow' : s.now ≤ c.now := hnow
        exact ⟨hshared.1, by omega, by omega⟩
      rw [hcounted] at hover
      simp only at hover
      omega
    · rw [hcounted] at hover
      simp only at hover
      omega

/-! ### What a run keeps whose steps spare the open windows -/

theorem closes_eq {c d : RateCheck} (hperiod : c.limit.periodSec = d.limit.periodSec)
    (hstart : c.start = d.start) : c.closes = d.closes := by
  unfold RateCheck.closes RateLimit.periodMs
  rw [hstart, hperiod]

theorem sharing_lt_counted {s : System} {c : RateCheck} (h : Complete s) (hnow : s.now ≤ c.now) :
    sharing s.made c < (s.windows.counted c.key c.limit c.now).count := by
  by_cases hshared : 0 < sharing s.made c
  · obtain ⟨m, hm, hsame⟩ := List.countP_pos_iff.mp hshared
    simp only [decide_eq_true_eq] at hsame
    have hcloses := closes_eq hsame.2.1 hsame.2.2
    have hopen := c.now_lt_closes
    obtain ⟨window, hwindow, hstart, hcount⟩ := h m hm (by omega)
    rw [hsame.1] at hwindow
    have hsharing : sharing s.made m.1 = sharing s.made c := by
      unfold sharing
      rw [hsame.1, hsame.2.1, hsame.2.2]
    obtain ⟨old, hold, -, hcounted⟩ | ⟨hother, -⟩ := counted_cases s.windows c
    · rw [hwindow] at hold
      cases hold
      rw [hcounted]
      simp only
      omega
    · exact absurd (hstart.trans hsame.2.2) (hother window hwindow)
  · obtain ⟨old, -, -, hcounted⟩ | ⟨-, hcounted⟩ := counted_cases s.windows c <;>
      rw [hcounted] <;> simp only <;> omega

theorem complete_start : Complete .start := fun m hm => by simp [System.start] at hm

theorem complete_step {s next : System} {e : Event} (h : Complete s) (hspares : Spares s e)
    (hstep : step s e = some next) : Complete next := by
  obtain ⟨hnow, rfl⟩ := step_cases hstep
  cases e with
  | sweep now maxAgeMs =>
    intro m hm hopen
    obtain ⟨window, hwindow, hrest⟩ := h m hm (hnow.trans_lt hopen)
    have hfresh : ¬ RateLimiter.Stale window now maxAgeMs := by
      intro hstale
      have hclosed := hspares m.1.key window hwindow hstale m hm rfl
      exact absurd hopen (by simpa [apply] using hclosed)
    exact ⟨window, (lookup_sweep _ _ _ _ _).mpr ⟨hwindow, hfresh⟩, hrest⟩
  | request c =>
    have hnow' : s.now ≤ c.now := hnow
    have hcounted := sharing_lt_counted h hnow'
    have hentry : (apply s (.request c)).windows.lookup c.key =
        some (s.windows.counted c.key c.limit c.now) := by
      simp [apply, RateLimiter.check]
    intro m hm hopen
    have hopen' : c.now < m.1.closes := hopen
    show ∃ window, (apply s (.request c)).windows.lookup m.1.key = some window ∧
      window.start = m.1.start ∧ sharing ((c, _) :: s.made) m.1 ≤ window.count
    rw [sharing_cons]
    cases List.mem_cons.mp hm with
    | inl heq =>
      subst heq
      refine ⟨_, hentry, counted_start _ _, ?_⟩
      simp only [and_self, if_true]
      omega
    | inr hold =>
      obtain ⟨window, hwindow, hstart, hcount⟩ := h m hold (by omega)
      by_cases hkey : m.1.key = c.key
      · -- The entry was not replaced: the window of `m` is open.
        rw [hkey] at hwindow
        have hsame : window.start = c.start := by
          by_contra hother
          have hclosed := hspares window hwindow hother m hold hkey
          omega
        obtain ⟨old, hfound, -, heq⟩ | ⟨hother, -⟩ := counted_cases s.windows c
        · rw [hwindow] at hfound
          cases hfound
          have hentry' : (apply s (.request c)).windows.lookup m.1.key =
              some (s.windows.counted c.key c.limit c.now) := by
            rw [hkey]
            exact hentry
          refine ⟨_, hentry', (counted_start _ _).trans (hsame.symm.trans hstart), ?_⟩
          rw [heq]
          simp only
          split <;> omega
        · exact absurd hsame (hother window hwindow)
      · have hwindow' : (apply s (.request c)).windows.lookup m.1.key = some window := by
          simpa [apply, RateLimiter.check, AList.lookup_insert_ne hkey] using hwindow
        have hnone : ¬ (c.key = m.1.key ∧ c.limit.periodSec = m.1.limit.periodSec ∧
            c.start = m.1.start) := fun hsame => hkey hsame.1.symm
        exact ⟨window, hwindow', hstart, by rw [if_neg hnone]; exact hcount⟩

theorem atMost_start : AtMost System.start.made := fun c => by simp [System.start]

theorem atMost_step {s next : System} {e : Event} (h : Complete s) (hmost : AtMost s.made)
    (hstep : step s e = some next) : AtMost next.made := by
  obtain ⟨hnow, rfl⟩ := step_cases hstep
  cases e with
  | sweep now maxAgeMs => exact hmost
  | request c =>
    have hnow' : s.now ≤ c.now := hnow
    have hcounted := sharing_lt_counted h hnow'
    intro d
    show List.countP _ ((c, (s.windows.check c.key c.limit c.now).1) :: s.made) ≤ _
    rw [List.countP_cons]
    split
    next hallowed =>
      simp only [decide_eq_true_eq] at hallowed
      obtain ⟨hkey, hlimit, hstart, hallowed⟩ := hallowed
      have hcalls := (allowed_iff s.windows c).mp hallowed
      have hfew : s.made.countP (fun m =>
          m.1.key = d.key ∧ m.1.limit = d.limit ∧ m.1.start = d.start ∧ m.2.allowed) ≤
          sharing s.made c := by
        apply List.countP_mono_left
        intro m _ hm
        simp only [decide_eq_true_eq] at hm ⊢
        rw [hkey, hlimit, hstart]
        exact ⟨hm.1, congrArg _ hm.2.1, hm.2.2.1⟩
      calc _ ≤ sharing s.made c + 1 := Nat.add_le_add_right hfew 1
        _ ≤ c.limit.calls := by omega
        _ = d.limit.calls := by rw [hlimit]
    next => exact hmost d

/-! ### Along runs -/

theorem windows_along_runs (events : List Event) :
    EveryStep step (fun s e _ => RefusedOnly s e) .start events ∧
      (EveryStep step (fun s e _ => Spares s e) .start events →
        EveryStep step (fun _ _ next => AtMost next.made) .start events) := by
  constructor
  · have hstep : ∀ s e next, Honest s → step s e = some next → RefusedOnly s e :=
      fun s e next h hs => refusedOnly_of_honest h (step_cases hs).1
    exact everyStep_of_invariant (fun s e next h hs => honest_step h hs) hstep honest_start events
  · intro hspares
    have hstep : ∀ s e next, (Complete s ∧ AtMost s.made) → Spares s e → step s e = some next →
        (Complete next ∧ AtMost next.made) ∧ AtMost next.made := by
      intro s e next h hsp hs
      have hmost := atMost_step h.1 h.2 hs
      exact ⟨⟨complete_step h.1 hsp hs, hmost⟩, hmost⟩
    exact everyStep_of_guarded hstep ⟨complete_start, atMost_start⟩ hspares

def routeOf (resourceId : String) (unit : CountUnit) : ConfigRoute where
  resourceId := resourceId
  kind := .rest
  host := "*"
  basePath := "/" ++ resourceId
  productIds := ["gold"]
  pool := [⟨"http://backend:8080", none⟩]
  rule := .roundRobin
  policy := { rateLimit := some unit }
  operations := []
  artifact := none
  logBodiesUntil := none
  soap := none
  a2a := none

def onceAMinute : CountUnit := ⟨1, 60, .product⟩
def hundredAnHour : CountUnit := ⟨100, 3600, .product⟩
def gold : ConfigSubscription := ⟨"s1", [], "gold"⟩

def pets (now : Nat) : RateCheck :=
  applyRateLimit (routeOf "pets" onceAMinute) onceAMinute (by decide) gold now

def orders (now : Nat) : RateCheck :=
  applyRateLimit (routeOf "orders" hundredAnHour) hundredAnHour (by decide) gold now

/-- A request of `orders` between two of `pets`, all in one minute. -/
theorem second_allowed :
    ¬ EveryStep step (fun _ _ next => AtMost next.made) .start
      ([.request (pets 3660000), .request (orders 3660001)] ++ [.request (pets 3660002)]) := by
  have hviolates : ∀ s next : System, decide (1 < next.made.countP (fun m =>
      m.1.key = (pets 3660000).key ∧ m.1.limit = (pets 3660000).limit ∧
        m.1.start = (pets 3660000).start ∧ m.2.allowed)) = true → ¬ AtMost next.made := by
    intro _ next hmany hmost
    have hlimit := hmost (pets 3660000)
    have htwo := of_decide_eq_true hmany
    exact absurd hlimit (Nat.not_le.mpr htwo)
  apply not_everyStep_of_observed _ hviolates
  decide +kernel

end RateLimiting

end Apim.DataPlane
