import Apim.Lib.Trace

/-!
# The pool of validation samples

A sample is put in a bounded queue and run from it by a timer (`data-plane/src/validate.ts:314-379`).
A task runs inside the timer's callback and may itself submit and resize, so a callback is two steps
here, its beginning and its end, with any of the pool's calls between them.

The pool keeps a count of drains and never looks at the timers. That the count is the number of
callbacks that are set or running (`Pool.Counted`) is what the rest follows from: a queue with something
in it has a callback ahead of it, and every callback takes the first of the queue.
-/

namespace Apim.DataPlane.Validation
open Trace

variable {τ : Type*}

/-! ### The pool -/

/-- A submission: the task, the depth that was in force, and what `submit` returned. -/
structure Submission (τ : Type*) where
  task : τ
  depth : Nat
  answer : Bool

/-- `ValidationPool`, and beside its fields what the runtime does for it and what was asked of it. -/
structure ValidationPool (τ : Type*) where
  concurrency : { n : Nat // 0 < n }
  depth : Nat
  queue : List τ := []
  draining : Int := 0
  dropped : Nat := 0
  timers : Nat := 0
  running : Bool := false
  submissions : List (Submission τ) := []
  started : List τ := []

namespace ValidationPool

def resize (p : ValidationPool τ) (concurrency : { n : Nat // 0 < n }) (depth : Nat) :
    ValidationPool τ :=
  { p with concurrency, depth }

def setTimeout (p : ValidationPool τ) : ValidationPool τ := { p with timers := p.timers + 1 }

def submit (p : ValidationPool τ) (task : τ) : ValidationPool τ × Bool :=
  if p.queue.length ≥ p.depth then ({ p with dropped := p.dropped + 1 }, false)
  else
    let p := { p with queue := p.queue ++ [task] }
    if p.draining < p.concurrency.val then
      (setTimeout { p with draining := p.draining + 1 }, true)
    else (p, true)

def shift (p : ValidationPool τ) : ValidationPool τ :=
  match p.queue with
  | [] => { p with draining := p.draining - 1 }
  | task :: rest => { p with queue := rest, running := true, started := p.started ++ [task] }

def afterRun (p : ValidationPool τ) (throws : Bool) : ValidationPool τ :=
  let p := { p with running := false }
  let p := if throws then { p with dropped := p.dropped + 1 } else p
  if 0 < p.queue.length then p.setTimeout else { p with draining := p.draining - 1 }

end ValidationPool

inductive Event (τ : Type*) where
  | submit (task : τ)
  | resize (concurrency : { n : Nat // 0 < n }) (depth : Nat)
  | tick
  | ends (throws : Bool)

/-- One thread: while a task runs no timer fires, and the calls that are made are the task's own. -/
def step (p : ValidationPool τ) : Event τ → Option (ValidationPool τ)
  | .submit task =>
    some { (p.submit task).1 with
      submissions := p.submissions ++ [⟨task, p.depth, (p.submit task).2⟩] }
  | .resize concurrency depth => some (p.resize concurrency depth)
  | .tick =>
    if p.running = false ∧ 0 < p.timers then some { p with timers := p.timers - 1 }.shift else none
  | .ends throws => if p.running then some (p.afterRun throws) else none

def Event.isTick : Event τ → Bool
  | .tick => true
  | _ => false

def Event.isDrain : Event τ → Bool
  | .tick | .ends _ => true
  | _ => false

variable {p next : ValidationPool τ}

namespace ValidationPool

def accepted (p : ValidationPool τ) : List τ := (p.submissions.filter (·.answer)).map (·.task)

/-- The depth that was in force at the last submission, and at the last that was accepted. -/
def lastDepth (p : ValidationPool τ) : Option Nat := (p.submissions.getLast?).map (·.depth)

def acceptedDepth (p : ValidationPool τ) : Option Nat :=
  ((p.submissions.filter (·.answer)).getLast?).map (·.depth)

def AtRest (p : ValidationPool τ) : Prop := p.running = false ∧ p.timers = 0

/-- What holds of the pool at every moment of a run: between two callbacks and while a task runs. -/
structure Served (p : ValidationPool τ) : Prop where
  inOrder : p.started ++ p.queue = p.accepted
  bounded : ∀ depth, p.acceptedDepth = some depth → p.queue.length ≤ depth
  scheduled : p.queue ≠ [] → 0 < p.timers ∨ p.running = true
  ran : p.AtRest → p.started = p.accepted
  settled : p.queue = [] → p.AtRest → p.draining = 0

/-- What holds of every way on from here: each timer that fires on a queue starts its first task; with
nothing new submitted the callbacks come to an end, and until they have, one of them can go on. -/
structure NeverStalls (p : ValidationPool τ) : Prop where
  starts : ∀ events p', exec step p events = some p' →
    min p.accepted.length (p.started.length + events.countP Event.isTick) ≤ p'.started.length
  ends : ∃ bound, ∀ events p', exec step p events = some p' → (∀ e ∈ events, e.isDrain = true) →
    events.length ≤ bound
  goesOn : ¬ p.AtRest → ∃ e p', e.isDrain = true ∧ step p e = some p'

/-! ### One step -/

structure Counted (p : ValidationPool τ) : Prop where
  inOrder : p.started ++ p.queue = p.accepted
  bounded : ∀ depth, p.acceptedDepth = some depth → p.queue.length ≤ depth
  drains : p.draining = p.timers + if p.running then 1 else 0
  scheduled : p.queue ≠ [] → 0 < p.timers ∨ p.running = true

theorem counted_new (concurrency : { n : Nat // 0 < n }) (depth : Nat) :
    Counted ({ concurrency, depth } : ValidationPool τ) :=
  ⟨rfl, nofun, rfl, fun h => absurd rfl h⟩


theorem submit_cases (p : ValidationPool τ) (task : τ) :
    (p.depth ≤ p.queue.length ∧ p.submit task = ({ p with dropped := p.dropped + 1 }, false)) ∨
    (p.queue.length < p.depth ∧ p.draining < p.concurrency.val ∧ p.submit task =
      ({ p with queue := p.queue ++ [task], draining := p.draining + 1, timers := p.timers + 1 },
        true)) ∨
    (p.queue.length < p.depth ∧ p.concurrency.val ≤ p.draining ∧
      p.submit task = ({ p with queue := p.queue ++ [task] }, true)) := by
  by_cases hfull : p.depth ≤ p.queue.length
  · exact .inl ⟨hfull, if_pos hfull⟩
  · by_cases hfew : p.draining < p.concurrency.val
    · exact .inr (.inl ⟨by omega, hfew, by simp only [submit, if_neg hfull, if_pos hfew, setTimeout]⟩)
    · exact .inr (.inr ⟨by omega, by omega, by simp only [submit, if_neg hfull, if_neg hfew]⟩)

theorem submit_counted (h : p.Counted) (task : τ) (hstep : step p (.submit task) = some next) :
    next.Counted := by
  have hconcurrency := p.concurrency.property
  have horder : p.started ++ (p.queue ++ [task]) = p.accepted ++ [task] := by
    rw [← List.append_assoc, h.inOrder]
  have hlength : (p.queue ++ [task]).length = p.queue.length + 1 := List.length_append
  have hdrains := h.drains
  rcases submit_cases p task with ⟨hfull, heq⟩ | ⟨hroom, hfew, heq⟩ | ⟨hroom, hmany, heq⟩ <;>
    simp only [step, heq, Option.some.injEq] at hstep <;> subst hstep
  · exact ⟨by simpa [accepted] using h.inOrder, by simpa [acceptedDepth] using h.bounded, h.drains,
      h.scheduled⟩
  · refine ⟨by simpa [accepted] using horder, ?_, ?_, fun _ => .inl (Nat.succ_pos _)⟩
    · intro depth hdepth
      obtain rfl : p.depth = depth := by simpa [acceptedDepth] using hdepth
      exact hlength ▸ hroom
    · dsimp only
      omega
  · refine ⟨by simpa [accepted] using horder, ?_, h.drains, fun _ => ?_⟩
    · intro depth hdepth
      obtain rfl : p.depth = depth := by simpa [acceptedDepth] using hdepth
      exact hlength ▸ hroom
    · -- There are as many drains as there may be, and there may be one.
      cases hrunning : p.running with
      | true => exact .inr rfl
      | false =>
        rw [hrunning] at hdrains
        simp only [Bool.false_eq_true, if_false, Int.add_zero] at hdrains
        dsimp only
        omega

theorem tick_cases (hstep : step p .tick = some next) :
    p.running = false ∧ 0 < p.timers ∧
      ((p.queue = [] ∧ next = { p with timers := p.timers - 1, draining := p.draining - 1 }) ∨
      ∃ task rest, p.queue = task :: rest ∧ next =
        { p with timers := p.timers - 1, queue := rest, running := true,
                 started := p.started ++ [task] }) := by
  simp only [step] at hstep
  split at hstep
  · rename_i henabled
    cases hstep
    refine ⟨henabled.1, henabled.2, ?_⟩
    unfold shift
    split
    · rename_i hqueue
      exact .inl ⟨hqueue, rfl⟩
    · rename_i task rest hqueue
      exact .inr ⟨task, rest, hqueue, rfl⟩
  · cases hstep

theorem ends_cases {throws : Bool} (hstep : step p (.ends throws) = some next) :
    p.running = true ∧ ∃ dropped,
      (p.queue ≠ [] ∧ next = { p with running := false, dropped, timers := p.timers + 1 }) ∨
      (p.queue = [] ∧ next = { p with running := false, dropped, draining := p.draining - 1 }) := by
  simp only [step] at hstep
  split at hstep
  · rename_i hrunning
    cases hstep
    refine ⟨hrunning, if throws then p.dropped + 1 else p.dropped, ?_⟩
    cases hqueue : p.queue <;> cases throws <;> simp [afterRun, setTimeout, hqueue]
  · cases hstep

theorem tick_counted (h : p.Counted) (hstep : step p .tick = some next) : next.Counted := by
  have hdrains := h.drains
  obtain ⟨hidle, htimers, ⟨hqueue, rfl⟩ | ⟨task, rest, hqueue, rfl⟩⟩ := tick_cases hstep
  · refine ⟨h.inOrder, h.bounded, ?_, fun hne => absurd hqueue hne⟩
    simp only [hidle, Bool.false_eq_true, if_false, Int.add_zero] at hdrains ⊢
    omega
  · refine ⟨?_, ?_, ?_, fun _ => .inr rfl⟩
    · have horder := h.inOrder
      rw [hqueue] at horder
      simpa [accepted] using horder
    · intro depth hdepth
      have hbound := h.bounded depth hdepth
      rw [hqueue, List.length_cons] at hbound
      exact Nat.le_of_succ_le hbound
    · simp only [hidle, Bool.false_eq_true, if_false, Int.add_zero, if_true] at hdrains ⊢
      omega

theorem ends_counted (h : p.Counted) (throws : Bool) (hstep : step p (.ends throws) = some next) :
    next.Counted := by
  have hdrains := h.drains
  obtain ⟨hrunning, dropped, ⟨hqueue, rfl⟩ | ⟨hqueue, rfl⟩⟩ := ends_cases hstep <;>
    rw [hrunning, if_pos rfl] at hdrains
  · refine ⟨h.inOrder, h.bounded, ?_, fun _ => .inl (Nat.succ_pos _)⟩
    simp only [Bool.false_eq_true, if_false]
    omega
  · refine ⟨h.inOrder, h.bounded, ?_, fun hne => absurd hqueue hne⟩
    simp only [Bool.false_eq_true, if_false]
    omega

theorem step_counted (p : ValidationPool τ) (e : Event τ) (next : ValidationPool τ) (h : p.Counted)
    (hstep : step p e = some next) : next.Counted := by
  cases e with
  | submit task => exact submit_counted h task hstep
  | resize concurrency depth =>
    cases hstep
    exact ⟨h.inOrder, h.bounded, h.drains, h.scheduled⟩
  | tick => exact tick_counted h hstep
  | ends throws => exact ends_counted h throws hstep

theorem Counted.served (h : p.Counted) : p.Served := by
  refine ⟨h.inOrder, h.bounded, h.scheduled, fun hrest => ?_, fun _ hrest => ?_⟩
  · have hempty : p.queue = [] := by
      by_contra hne
      rcases h.scheduled hne with htimers | hrunning
      · exact Nat.ne_of_gt htimers hrest.2
      · exact absurd hrunning (by rw [hrest.1]; exact Bool.false_ne_true)
    rw [← h.inOrder, hempty, List.append_nil]
  · rw [h.drains, hrest.1, hrest.2]
    rfl

/-! ### Every way on -/

def left (p : ValidationPool τ) : Nat :=
  3 * p.queue.length + p.timers + if p.running then 2 else 0

theorem left_drain {e : Event τ} (he : e.isDrain = true) (hstep : step p e = some next) :
    next.left < p.left := by
  cases e with
  | submit task => cases he
  | resize concurrency depth => cases he
  | tick =>
    obtain ⟨hidle, htimers, ⟨hqueue, rfl⟩ | ⟨task, rest, hqueue, rfl⟩⟩ := tick_cases hstep <;>
      simp only [left, hqueue, hidle, List.length_nil, List.length_cons, Bool.false_eq_true,
        if_false, if_true] <;> omega
  | ends throws =>
    obtain ⟨hrunning, dropped, ⟨hqueue, rfl⟩ | ⟨hqueue, rfl⟩⟩ := ends_cases hstep <;>
      simp only [left, hrunning, Bool.false_eq_true, if_false, if_true] <;> omega

theorem step_starts {e : Event τ} (h : p.Counted) (hstep : step p e = some next) :
    p.accepted.length ≤ next.accepted.length ∧
      min p.accepted.length (p.started.length + if e.isTick then 1 else 0) ≤ next.started.length := by
  have hlength : p.accepted.length = p.started.length + p.queue.length := by
    rw [← h.inOrder, List.length_append]
  cases e with
  | submit task =>
    rcases submit_cases p task with ⟨-, heq⟩ | ⟨-, -, heq⟩ | ⟨-, -, heq⟩ <;>
      simp only [step, heq, Option.some.injEq] at hstep <;> subst hstep <;>
      simp [accepted, Event.isTick] <;> omega
  | resize concurrency depth =>
    cases hstep
    exact ⟨Nat.le_refl _, Nat.min_le_right _ _⟩
  | tick =>
    obtain ⟨-, -, ⟨hqueue, rfl⟩ | ⟨task, rest, hqueue, rfl⟩⟩ := tick_cases hstep <;>
      rw [hqueue] at hlength <;> refine ⟨Nat.le_refl _, ?_⟩
    · exact Nat.le_trans (Nat.min_le_left _ _) (Nat.le_of_eq hlength)
    · simpa [Event.isTick] using Nat.min_le_right _ _
  | ends throws =>
    obtain ⟨-, dropped, ⟨-, rfl⟩ | ⟨-, rfl⟩⟩ := ends_cases hstep <;>
      exact ⟨Nat.le_refl _, Nat.min_le_right _ _⟩

theorem Counted.starts {p' : ValidationPool τ} {events : List (Event τ)} (h : p.Counted)
    (hrun : exec step p events = some p') :
    min p.accepted.length (p.started.length + events.countP Event.isTick) ≤ p'.started.length := by
  induction events generalizing p with
  | nil =>
    cases hrun
    exact Nat.min_le_right _ _
  | cons e events ih =>
    obtain ⟨mid, hmid, hrest⟩ := exec_cons_eq_some hrun
    have hmore := ih (step_counted p e mid h hmid) hrest
    obtain ⟨haccepted, hstarted⟩ := step_starts h hmid
    rw [List.countP_cons]
    omega

theorem Counted.neverStalls (h : p.Counted) : p.NeverStalls where
  starts _ _ hrun := h.starts hrun
  ends := by
    refine ⟨p.left, fun events p' hrun hdrains => ?_⟩
    clear h
    induction events generalizing p with
    | nil => exact Nat.zero_le _
    | cons e events ih =>
      obtain ⟨mid, hmid, hrest⟩ := exec_cons_eq_some hrun
      have hfewer := left_drain (hdrains e List.mem_cons_self) hmid
      have hmore := ih hrest fun e' he' => hdrains e' (List.mem_cons_of_mem _ he')
      rw [List.length_cons]
      omega
  goesOn hbusy := by
    cases hrunning : p.running with
    | true => exact ⟨.ends false, _, rfl, if_pos hrunning⟩
    | false =>
      have htimers : 0 < p.timers := Nat.pos_of_ne_zero fun hzero => hbusy ⟨hrunning, hzero⟩
      exact ⟨.tick, _, rfl, if_pos ⟨hrunning, htimers⟩⟩

/-! ### Main results -/

/-- In every run of a pool the tasks that were accepted are started once each in their order, the queue
is within the depth at the last submission that was accepted, a queue with something in it has a drain
that is set or running, and a pool at rest with nothing queued counts no drain; and from every state of it
the pool never stalls. -/
theorem pool_runs (concurrency : { n : Nat // 0 < n }) (depth : Nat) (events : List (Event τ))
    (p : ValidationPool τ) (hrun : exec step { concurrency, depth } events = some p) :
    p.Served ∧ p.NeverStalls := by
  have hcounted := exec_invariant step_counted (counted_new concurrency depth) hrun
  exact ⟨hcounted.served, hcounted.neverStalls⟩

theorem pool_runs_two :
    ∃ p, exec step ({ concurrency := ⟨1, Nat.one_pos⟩, depth := 2 } : ValidationPool Nat)
        [.submit 1, .submit 2, .tick, .submit 3, .ends true, .tick, .ends false] = some p ∧
      p.Served ∧ p.NeverStalls := by
  refine ⟨_, rfl, pool_runs ⟨1, Nat.one_pos⟩ 2
    [.submit 1, .submit 2, .tick, .submit 3, .ends true, .tick, .ends false] _ rfl⟩

/-- The queue is over the depth at the last submission once the pool was made shallower, and while the
one drain there may be runs a task nothing is scheduled for what is queued behind it. -/
theorem queue_over_depth :
    (∃ (events : List (Event Nat)) (p : ValidationPool Nat) (depth : Nat),
      exec step { concurrency := ⟨1, Nat.one_pos⟩, depth := 2 } events = some p ∧
        p.lastDepth = some depth ∧ depth < p.queue.length) ∧
    ∃ (events : List (Event Nat)) (p : ValidationPool Nat),
      exec step { concurrency := ⟨1, Nat.one_pos⟩, depth := 2 } events = some p ∧
        p.queue ≠ [] ∧ p.timers = 0 :=
  ⟨⟨[.submit 1, .submit 2, .resize ⟨1, Nat.one_pos⟩ 1, .submit 3], _, 1, rfl, rfl, by decide⟩,
    [.submit 1, .submit 2, .tick], _, rfl, by decide, rfl⟩

end ValidationPool

end Apim.DataPlane.Validation
