import Apim.DataPlane.Bridge

/-!
# A supervised event stream

`superviseSse` (`data-plane/src/stream.ts:309-393`) passes the body of a response on, one chunk a pull, under
the bounds of a bridge. The body is one of `fetch`, whose signal is that of the request: the caller's
leaving, or the deadline of the route's timeout (`data-plane/src/pipeline.ts:1534-1543`). When it fires, the
body fails.
-/

namespace Apim.DataPlane.Supervised
open Bridging

structure SseStream where
  nowMs : Nat
  openedAtMs : Nat
  deadlineAt : Nat
  body : List Bytes
  ended : Option Ending
  reading : Bool
  bytes : Nat
  finished : Bool
  idleAt : Option Nat
  lifeAt : Option Nat
  registered : Bool
  closed : List (StreamCloseReason × Nat)
  heardMs : Nat
  backendEnded : Bool
  sent : List Bytes
  delivered : List Bytes

inductive Event where
  | pass (ms : Nat)
  | chunk (bytes : Bytes)
  | ends
  | breaks
  | deadline
  | clientGone
  | pull
  | read
  | cancel
  | idleFires
  | lifeFires
  | close (reason : StreamCloseReason)
  deriving DecidableEq

section
variable (limits : StreamLimits)

def supervise (nowMs deadlineAt : Nat) : SseStream where
  nowMs := nowMs
  openedAtMs := nowMs
  deadlineAt := deadlineAt
  body := []
  ended := none
  reading := false
  bytes := 0
  finished := false
  idleAt := (StreamLimits.msOf limits.streamIdleTimeoutSec).map (nowMs + ·)
  lifeAt := (StreamLimits.msOf limits.maxConnectionSec).map (nowMs + ·)
  registered := true
  closed := []
  heardMs := nowMs
  backendEnded := false
  sent := []
  delivered := []

def stop (s : SseStream) (reason : StreamCloseReason) : SseStream :=
  if s.finished then s
  else
    { s with
      finished := true
      idleAt := none
      lifeAt := none
      registered := false
      closed := s.closed ++ [(reason, s.bytes)] }

def touch (s : SseStream) : SseStream :=
  { s with
    heardMs := s.nowMs
    idleAt := (StreamLimits.msOf limits.streamIdleTimeoutSec).map (s.nowMs + ·) }

def signal (s : SseStream) : SseStream :=
  if s.ended.isSome then s else { s with body := [], ended := some .broken }

/-- What `pull` does with the answer of its read. On a stream that has stopped in between the chunk
cannot be enqueued. -/
def settle (s : SseStream) : SseStream :=
  match s.body with
  | chunk :: rest =>
    let counted := { s with reading := false, body := rest, bytes := s.bytes + chunk.length }
    if limits.exceeded counted.bytes then stop counted .byteBudget
    else if counted.finished then touch limits counted
    else touch limits { counted with delivered := counted.delivered ++ [chunk] }
  | [] => stop { s with reading := false } .backend

def step (s : SseStream) : Event → Option SseStream
  | .pass ms => some { s with nowMs := s.nowMs + ms }
  | .chunk bytes =>
    if s.ended.isSome then none
    else some { s with body := s.body ++ [bytes], sent := s.sent ++ [bytes] }
  | .ends => if s.ended.isSome then none else some { s with ended := some .done, backendEnded := true }
  | .breaks =>
    if s.ended.isSome then none
    else some { s with body := [], ended := some .broken, backendEnded := true }
  | .deadline => if s.deadlineAt ≤ s.nowMs then some (signal s) else none
  | .clientGone => some (signal s)
  | .pull => if s.reading || s.finished then none else some { s with reading := true }
  | .read =>
    if s.reading && (!s.body.isEmpty || s.ended.isSome || s.finished) then some (settle limits s) else none
  | .cancel => some (stop s .client)
  | .idleFires =>
    if s.idleAt.any (· ≤ s.nowMs) then some (stop { s with idleAt := none } .idle) else none
  | .lifeFires =>
    if s.lifeAt.any (· ≤ s.nowMs) then some (stop { s with lifeAt := none } .maxConnection) else none
  | .close reason =>
    if s.registered && (reason == .revoked || reason == .shutdown) then some (stop s reason) else none

/-! ### What is promised -/

/-- What ends a stream, for each reason it is recorded with; `ended` says when it is the backend. -/
def Cause (ended : SseStream → Bool) (s : SseStream) (e : Event) : StreamCloseReason → Prop
  | .client => e = .cancel
  | .backend => e = .read ∧ ended s = true
  | .idle => e = .idleFires ∧
    ∃ ms, StreamLimits.msOf limits.streamIdleTimeoutSec = some ms ∧ s.heardMs + ms ≤ s.nowMs
  | .maxConnection => e = .lifeFires ∧
    ∃ ms, StreamLimits.msOf limits.maxConnectionSec = some ms ∧ s.openedAtMs + ms ≤ s.nowMs
  | .byteBudget => e = .read ∧ ∃ chunk rest, s.body = chunk :: rest ∧
    limits.exceeded (s.bytes + chunk.length) = true
  | .revoked => e = .close .revoked
  | .shutdown => e = .close .shutdown

def Once (s : SseStream) : Prop :=
  (s.finished = false → s.registered = true ∧ s.closed = []) ∧
    (s.finished = true → s.registered = false ∧ ∃ record, s.closed = [record])

/-- The chunks delivered are a prefix of those sent; the stream ends for its reason only, and once. -/
structure Promised (ended : SseStream → Bool) (s : SseStream) (e : Event) (next : SseStream) : Prop where
  delivered : next.delivered <+: next.sent
  once : Once next
  cause : s.finished = false → ∀ record, next.closed = [record] → Cause limits ended s e record.1

/-! ### What holds of every stream -/

structure Inv (s : SseStream) : Prop where
  delivered : s.delivered <+: s.sent
  waiting : s.finished = false → s.delivered ++ s.body <+: s.sent
  whole : s.finished = false → s.ended = none → s.delivered ++ s.body = s.sent
  idle : ∀ t, s.idleAt = some t →
    ∃ ms, StreamLimits.msOf limits.streamIdleTimeoutSec = some ms ∧ t = s.heardMs + ms
  life : ∀ t, s.lifeAt = some t →
    ∃ ms, StreamLimits.msOf limits.maxConnectionSec = some ms ∧ t = s.openedAtMs + ms
  once : Once s

end

section
variable {limits : StreamLimits} {s next : SseStream}

theorem stop_of_open (reason : StreamCloseReason) (h : s.finished = false) :
    stop s reason =
      { s with
        finished := true
        idleAt := none
        lifeAt := none
        registered := false
        closed := s.closed ++ [(reason, s.bytes)] } := by
  unfold stop
  rw [h]
  rfl

theorem stop_of_finished (reason : StreamCloseReason) (h : s.finished = true) : stop s reason = s := by
  unfold stop
  rw [h]
  rfl

theorem once_stop (hs : Once s) (reason : StreamCloseReason) : Once (stop s reason) := by
  cases hfinished : s.finished with
  | true => rwa [stop_of_finished reason hfinished]
  | false =>
    rw [stop_of_open reason hfinished]
    refine ⟨nofun, fun _ => ⟨rfl, (reason, s.bytes), ?_⟩⟩
    simp only [(hs.1 hfinished).2, List.nil_append]

theorem inv_stop (reason : StreamCloseReason) (hdelivered : s.delivered <+: s.sent)
    (honce : Once s) (hfinished : s.finished = false) : Inv limits (stop s reason) := by
  have hstopped := once_stop honce reason
  rw [stop_of_open reason hfinished] at hstopped ⊢
  exact {
    delivered := hdelivered
    waiting := nofun
    whole := nofun
    idle := nofun
    life := nofun
    once := hstopped }

theorem stop_of_inv (hs : Inv limits s) (reason : StreamCloseReason) : Inv limits (stop s reason) := by
  cases hfinished : s.finished with
  | true => rwa [stop_of_finished reason hfinished]
  | false => exact inv_stop reason hs.delivered hs.once hfinished

theorem reason_of_stop {reason : StreamCloseReason} {record : StreamCloseReason × Nat}
    (hfinished : s.finished = false) (honce : Once s) (h : (stop s reason).closed = [record]) :
    record.1 = reason := by
  rw [stop_of_open reason hfinished] at h
  rw [(honce.1 hfinished).2, List.nil_append] at h
  rw [← (List.cons.inj h).1]

theorem inv_supervise (limits : StreamLimits) (nowMs deadlineAt : Nat) :
    Inv limits (supervise limits nowMs deadlineAt) where
  delivered := List.prefix_refl _
  waiting := fun _ => List.prefix_refl _
  whole := fun _ _ => rfl
  idle := by
    intro t h
    obtain ⟨ms, hms, rfl⟩ := Option.map_eq_some_iff.mp h
    exact ⟨ms, hms, rfl⟩
  life := by
    intro t h
    obtain ⟨ms, hms, rfl⟩ := Option.map_eq_some_iff.mp h
    exact ⟨ms, hms, rfl⟩
  once := ⟨fun _ => ⟨rfl, rfl⟩, nofun⟩

theorem inv_failed (hs : Inv limits s) (backendEnded : Bool) :
    Inv limits { s with body := [], ended := some .broken, backendEnded := backendEnded } where
  delivered := hs.delivered
  waiting := fun _ => by
    rw [show ({ s with body := [], ended := some .broken, backendEnded := backendEnded } :
      SseStream).delivered ++ [] = s.delivered from List.append_nil _]
    exact hs.delivered
  whole := nofun
  idle := hs.idle
  life := hs.life
  once := hs.once

theorem inv_signal (hs : Inv limits s) : Inv limits (signal s) := by
  unfold signal
  split
  · exact hs
  · exact inv_failed hs s.backendEnded

theorem idle_touch (s : SseStream) (t : Nat) (h : (touch limits s).idleAt = some t) :
    ∃ ms, StreamLimits.msOf limits.streamIdleTimeoutSec = some ms ∧ t = (touch limits s).heardMs + ms := by
  obtain ⟨ms, hms, rfl⟩ := Option.map_eq_some_iff.mp h
  exact ⟨ms, hms, rfl⟩

theorem inv_settle (hs : Inv limits s) : Inv limits (settle limits s) := by
  unfold settle
  split
  · next chunk rest hbody =>
    simp only
    split
    · -- The budget is passed: the stream stops, if it has not stopped yet.
      by_cases hfinished : s.finished = true
      · have hgone : s.finished ≠ false := by rw [hfinished]; decide
        have hcounted : Inv limits
            { s with reading := false, body := rest, bytes := s.bytes + chunk.length } :=
          ⟨hs.delivered, fun h => absurd h hgone, fun h => absurd h hgone, hs.idle, hs.life, hs.once⟩
        exact stop_of_inv hcounted _
      · exact inv_stop _ hs.delivered hs.once (Bool.eq_false_of_not_eq_true hfinished)
    · split
      · next hfinished =>
        have hgone : s.finished ≠ false := by rw [show s.finished = true from hfinished]; decide
        exact ⟨hs.delivered, fun h => absurd h hgone, fun h => absurd h hgone, idle_touch _, hs.life,
          hs.once⟩
      · next hgoes =>
        have hfinished : s.finished = false := Bool.eq_false_of_not_eq_true hgoes
        have hnext : s.delivered ++ [chunk] ++ rest = s.delivered ++ s.body := by
          rw [hbody, List.append_assoc]
          rfl
        have hwaiting := hs.waiting hfinished
        rw [← hnext] at hwaiting
        exact {
          delivered := (List.prefix_append _ _).trans hwaiting
          waiting := fun _ => hwaiting
          whole := fun _ hopen => hnext.trans (hs.whole hfinished hopen)
          idle := idle_touch _
          life := hs.life
          once := hs.once }
  · have hread : Inv limits { s with reading := false } :=
      ⟨hs.delivered, hs.waiting, hs.whole, hs.idle, hs.life, hs.once⟩
    exact stop_of_inv hread _

theorem inv_step {e : Event} (hs : Inv limits s) (h : step limits s e = some next) : Inv limits next := by
  cases e with
  | pass ms =>
    cases h
    exact ⟨hs.delivered, hs.waiting, hs.whole, hs.idle, hs.life, hs.once⟩
  | chunk bytes =>
    simp only [step, Option.ite_none_left_eq_some, Option.some.injEq, Option.not_isSome_iff_eq_none] at h
    obtain ⟨hopen, rfl⟩ := h
    have hwhole : s.finished = false → s.delivered ++ (s.body ++ [bytes]) = s.sent ++ [bytes] := by
      intro hfinished
      rw [← List.append_assoc, hs.whole hfinished hopen]
    exact {
      delivered := hs.delivered.trans (List.prefix_append _ _)
      waiting := fun hfinished => by
        rw [show s.delivered ++ (s.body ++ [bytes]) = _ from hwhole hfinished]
      whole := fun hfinished _ => hwhole hfinished
      idle := hs.idle
      life := hs.life
      once := hs.once }
  | ends =>
    simp only [step, Option.ite_none_left_eq_some, Option.some.injEq] at h
    obtain ⟨-, rfl⟩ := h
    exact ⟨hs.delivered, hs.waiting, nofun, hs.idle, hs.life, hs.once⟩
  | breaks =>
    simp only [step, Option.ite_none_left_eq_some, Option.some.injEq] at h
    obtain ⟨-, rfl⟩ := h
    exact inv_failed hs true
  | deadline =>
    simp only [step, Option.ite_none_right_eq_some, Option.some.injEq] at h
    obtain ⟨-, rfl⟩ := h
    exact inv_signal hs
  | clientGone =>
    cases h
    exact inv_signal hs
  | pull =>
    simp only [step, Option.ite_none_left_eq_some, Option.some.injEq] at h
    obtain ⟨-, rfl⟩ := h
    exact ⟨hs.delivered, hs.waiting, hs.whole, hs.idle, hs.life, hs.once⟩
  | read =>
    simp only [step, Option.ite_none_right_eq_some, Option.some.injEq] at h
    obtain ⟨-, rfl⟩ := h
    exact inv_settle hs
  | cancel =>
    cases h
    exact stop_of_inv hs _
  | idleFires =>
    simp only [step, Option.ite_none_right_eq_some, Option.some.injEq] at h
    obtain ⟨-, rfl⟩ := h
    have hfired : Inv limits { s with idleAt := none } :=
      ⟨hs.delivered, hs.waiting, hs.whole, nofun, hs.life, hs.once⟩
    exact stop_of_inv hfired _
  | lifeFires =>
    simp only [step, Option.ite_none_right_eq_some, Option.some.injEq] at h
    obtain ⟨-, rfl⟩ := h
    have hfired : Inv limits { s with lifeAt := none } :=
      ⟨hs.delivered, hs.waiting, hs.whole, hs.idle, nofun, hs.once⟩
    exact stop_of_inv hfired _
  | close reason =>
    simp only [step, Option.ite_none_right_eq_some, Option.some.injEq] at h
    obtain ⟨-, rfl⟩ := h
    exact stop_of_inv hs _

theorem cause_of_unended {ended : SseStream → Bool} {e : Event} {record : StreamCloseReason × Nat}
    (hclosed : next.closed = s.closed) (honce : Once s) (hfinished : s.finished = false)
    (h : next.closed = [record]) : Cause limits ended s e record.1 := by
  rw [hclosed, (honce.1 hfinished).2] at h
  cases h

def bodyEnded (s : SseStream) : Bool := s.ended.isSome

theorem cause_settle (hs : Inv limits s) (hfinished : s.finished = false)
    (hready : (!s.body.isEmpty || s.ended.isSome || s.finished) = true)
    (record : StreamCloseReason × Nat) (hrecord : (settle limits s).closed = [record]) :
    Cause limits bodyEnded s .read record.1 := by
  have honce := hs.once
  unfold settle at hrecord
  split at hrecord
  · next chunk rest hbody =>
    simp only at hrecord
    split at hrecord
    · next hover =>
      have hreason := reason_of_stop (show ({ s with reading := false, body := rest, bytes :=
        s.bytes + chunk.length } : SseStream).finished = false from hfinished) honce hrecord
      rw [hreason]
      exact ⟨rfl, chunk, rest, hbody, hover⟩
    · split at hrecord
      · exact cause_of_unended rfl honce hfinished hrecord
      · exact cause_of_unended rfl honce hfinished hrecord
  · next hbody =>
    have hreason := reason_of_stop (show ({ s with reading := false } : SseStream).finished = false
      from hfinished) honce hrecord
    rw [hreason]
    rw [hbody, hfinished] at hready
    exact ⟨rfl, by simpa [bodyEnded] using hready⟩

theorem cause_step {e : Event} (hs : Inv limits s) (h : step limits s e = some next)
    (hfinished : s.finished = false) (record : StreamCloseReason × Nat)
    (hrecord : next.closed = [record]) : Cause limits bodyEnded s e record.1 := by
  have honce := hs.once
  cases e with
  | pass ms =>
    cases h
    exact cause_of_unended rfl honce hfinished hrecord
  | chunk bytes =>
    simp only [step, Option.ite_none_left_eq_some, Option.some.injEq] at h
    obtain ⟨-, rfl⟩ := h
    exact cause_of_unended rfl honce hfinished hrecord
  | ends =>
    simp only [step, Option.ite_none_left_eq_some, Option.some.injEq] at h
    obtain ⟨-, rfl⟩ := h
    exact cause_of_unended rfl honce hfinished hrecord
  | breaks =>
    simp only [step, Option.ite_none_left_eq_some, Option.some.injEq] at h
    obtain ⟨-, rfl⟩ := h
    exact cause_of_unended rfl honce hfinished hrecord
  | deadline =>
    simp only [step, Option.ite_none_right_eq_some, Option.some.injEq] at h
    obtain ⟨-, rfl⟩ := h
    have hsame : (signal s).closed = s.closed := by unfold signal; split <;> rfl
    exact cause_of_unended hsame honce hfinished hrecord
  | clientGone =>
    cases h
    have hsame : (signal s).closed = s.closed := by unfold signal; split <;> rfl
    exact cause_of_unended hsame honce hfinished hrecord
  | pull =>
    simp only [step, Option.ite_none_left_eq_some, Option.some.injEq] at h
    obtain ⟨-, rfl⟩ := h
    exact cause_of_unended rfl honce hfinished hrecord
  | read =>
    simp only [step, Option.ite_none_right_eq_some, Option.some.injEq] at h
    obtain ⟨hready, rfl⟩ := h
    rw [Bool.and_eq_true] at hready
    exact cause_settle hs hfinished hready.2 record hrecord
  | cancel =>
    cases h
    rw [reason_of_stop hfinished honce hrecord]
    rfl
  | idleFires =>
    simp only [step, Option.ite_none_right_eq_some, Option.some.injEq] at h
    obtain ⟨hdue, rfl⟩ := h
    have hreason := reason_of_stop (show ({ s with idleAt := none } : SseStream).finished = false
      from hfinished) honce hrecord
    rw [hreason]
    obtain ⟨t, ht, hpast⟩ := (Option.any_eq_true _ _).mp hdue
    obtain ⟨ms, hms, rfl⟩ := hs.idle t ht
    exact ⟨rfl, ms, hms, of_decide_eq_true hpast⟩
  | lifeFires =>
    simp only [step, Option.ite_none_right_eq_some, Option.some.injEq] at h
    obtain ⟨hdue, rfl⟩ := h
    have hreason := reason_of_stop (show ({ s with lifeAt := none } : SseStream).finished = false
      from hfinished) honce hrecord
    rw [hreason]
    obtain ⟨t, ht, hpast⟩ := (Option.any_eq_true _ _).mp hdue
    obtain ⟨ms, hms, rfl⟩ := hs.life t ht
    exact ⟨rfl, ms, hms, of_decide_eq_true hpast⟩
  | close reason =>
    simp only [step, Option.ite_none_right_eq_some, Option.some.injEq, Bool.and_eq_true, Bool.or_eq_true,
      beq_iff_eq] at h
    obtain ⟨⟨-, houtside⟩, rfl⟩ := h
    rw [reason_of_stop hfinished honce hrecord]
    cases houtside with
    | inl heq => rw [heq]; rfl
    | inr heq => rw [heq]; rfl

end

theorem sse_promised (limits : StreamLimits) (nowMs deadlineAt : Nat) (events : List Event) :
    Trace.EveryStep (step limits) (Promised limits bodyEnded) (supervise limits nowMs deadlineAt)
      events := by
  have hkeeps : ∀ s e next, Inv limits s → step limits s e = some next → Inv limits next :=
    fun _ _ _ hs h => inv_step hs h
  have hpromised : ∀ s e next, Inv limits s → step limits s e = some next →
      Promised limits bodyEnded s e next := by
    intro s e next hs h
    have hnext := inv_step hs h
    exact ⟨hnext.delivered, hnext.once, cause_step hs h⟩
  exact Trace.everyStep_of_invariant hkeeps hpromised (inv_supervise limits nowMs deadlineAt) events

theorem streams_promised (limits : StreamLimits) (nowMs : Nat) :
    (∀ events, Trace.EveryStep (Bridging.step limits) (Bridging.Promised limits admitted (·.heardMs))
      (start limits nowMs) events) ∧
    ∀ deadlineAt events, Trace.EveryStep (step limits) (Promised limits bodyEnded)
      (supervise limits nowMs deadlineAt) events :=
  ⟨bridge_promised limits nowMs, sse_promised limits nowMs⟩

/-! ### A queue that is full, a timer that does not see it, and a deadline -/

def unlimited : StreamLimits := ⟨none, none, none⟩

def early : List Bridging.Event :=
  (List.range 33).map (fun n => .clientMessage [UInt8.ofNat n]) ++ [.connected]

def waited : List Bridging.Event := [.pass 900, .clientMessage [1], .pass 100]

def oneSecond : StreamLimits := ⟨some 1, none, none⟩

/-- A chunk is delivered; then the two minutes of the request's timeout pass, and nothing else happens. -/
def quiet : List Event := [.pull, .chunk [1], .read, .pull, .pass 120000, .deadline]

def hasHole (_ next : WebSocketBridge) : Bool := !(next.toBackend.isPrefixOf (sent next.arrivals))

def endsHeard (s next : WebSocketBridge) : Bool :=
  !s.closing && next.closed.map (·.reason) == [.idle] && decide (s.nowMs < s.seenMs + 1000)

def endsUnasked (s next : SseStream) : Bool :=
  !s.finished && !s.backendEnded && next.closed == [(.backend, 1)]

theorem hole_idle_and_deadline :
    ¬ Trace.EveryStep (Bridging.step unlimited) (Bridging.Promised unlimited sent (·.seenMs))
        (start unlimited 0) (early ++ [.clientMessage [33]]) ∧
      ¬ Trace.EveryStep (Bridging.step oneSecond) (Bridging.Promised oneSecond sent (·.seenMs))
        (start oneSecond 0) (waited ++ [.idleFires]) ∧
      ¬ Trace.EveryStep (step unlimited) (Promised unlimited (·.backendEnded))
        (supervise unlimited 0 120000) (quiet ++ [.read]) := by
  have hhole : ∀ s next, hasHole s next = true →
      ¬ Bridging.Promised unlimited sent (·.seenMs) s (.clientMessage [33]) next := by
    intro s next hseen hpromised
    have hstarts := List.isPrefixOf_iff_prefix.mpr hpromised.toBackend
    rw [hasHole, hstarts] at hseen
    cases hseen
  have hheard : ∀ s next, endsHeard s next = true →
      ¬ Bridging.Promised oneSecond sent (·.seenMs) s .idleFires next := by
    intro s next hseen hpromised
    simp only [endsHeard, Bool.and_eq_true, Bool.not_eq_true', beq_iff_eq, decide_eq_true_eq] at hseen
    obtain ⟨⟨hclosing, hclosed⟩, hrecent⟩ := hseen
    obtain ⟨record, hrecord, hreason⟩ := List.map_eq_singleton_iff.mp hclosed
    have hcause := hpromised.cause hclosing record hrecord
    rw [hreason] at hcause
    obtain ⟨-, ms, hms, hsilent⟩ := hcause
    have hsecond : ms = 1000 := (Option.some.inj (show some 1000 = some ms from hms)).symm
    simp only at hsilent
    omega
  have hended : ∀ s next, endsUnasked s next = true → ¬ Promised unlimited (·.backendEnded) s .read next := by
    intro s next hseen hpromised
    simp only [endsUnasked, Bool.and_eq_true, Bool.not_eq_true', beq_iff_eq] at hseen
    obtain ⟨⟨hfinished, hbackend⟩, hclosed⟩ := hseen
    have hcause : s.backendEnded = true := (hpromised.cause hfinished _ hclosed).2
    rw [hbackend] at hcause
    cases hcause
  have hfirst : ((Trace.exec (Bridging.step unlimited) (start unlimited 0) early).bind fun s =>
      (Bridging.step unlimited s (.clientMessage [33])).map (hasHole s)) = some true := by
    decide +kernel
  have hsecond : ((Trace.exec (Bridging.step oneSecond) (start oneSecond 0) waited).bind fun s =>
      (Bridging.step oneSecond s .idleFires).map (endsHeard s)) = some true := by
    decide +kernel
  have hthird : ((Trace.exec (step unlimited) (supervise unlimited 0 120000) quiet).bind fun s =>
      (step unlimited s .read).map (endsUnasked s)) = some true := by
    decide +kernel
  exact ⟨Trace.not_everyStep_of_observed hasHole hhole hfirst,
    Trace.not_everyStep_of_observed endsHeard hheard hsecond,
    Trace.not_everyStep_of_observed endsUnasked hended hthird⟩

end Apim.DataPlane.Supervised
