import Apim.DataPlane.Http
import Apim.Lib.Trace

/-!
# A bridged WebSocket

`WebSocketBridge` (`data-plane/src/stream.ts:160-291`) copies messages between the socket of a client and one
opened to the backend. What the client sends before that one is open waits in a queue of 32 and is
dropped past it. Two timers, the byte budget, either side, a revocation and a shutdown all end the
stream through `finish`, which does its work once.
-/

namespace Apim.DataPlane

structure StreamLimits where
  streamIdleTimeoutSec : Option Nat
  maxConnectionSec : Option Nat
  maxBytesPerConnection : Option Nat

inductive StreamCloseReason where
  | client
  | backend
  | idle
  | maxConnection
  | byteBudget
  | revoked
  | shutdown
  deriving DecidableEq, Repr

structure CloseRecord where
  reason : StreamCloseReason
  bytesIn : Nat
  bytesOut : Nat
  durationMs : Nat
  deriving DecidableEq, Repr

namespace StreamLimits

def msOf (limit : Option Nat) : Option Nat := (limit.filter (· ≠ 0)).map (· * 1000)

def exceeded (limits : StreamLimits) (bytes : Nat) : Bool :=
  let budget := limits.maxBytesPerConnection.getD 0
  0 < budget && budget < bytes

end StreamLimits

namespace Bridging

inductive ReadyState where
  | connecting
  | open_
  | closing
  | closed
  deriving DecidableEq, Repr

structure WebSocketBridge where
  nowMs : Nat
  openedAtMs : Nat
  upstream : ReadyState
  bytesIn : Nat
  bytesOut : Nat
  pending : List Bytes
  closing : Bool
  idleAt : Option Nat
  lifeAt : Option Nat
  registered : Bool
  closed : List CloseRecord
  opened : Bool
  heardMs : Nat
  seenMs : Nat
  arrivals : List (Bytes × Bool)
  toBackend : List Bytes
  fromBackend : List Bytes
  toClient : List Bytes

inductive Event where
  | pass (ms : Nat)
  | connected
  | clientMessage (message : Bytes)
  | backendMessage (message : Bytes)
  | backendClosing
  | backendClosed
  | backendError
  | clientClosed
  | idleFires
  | lifeFires
  | close (reason : StreamCloseReason)
  deriving DecidableEq

section
variable (limits : StreamLimits)

def start (nowMs : Nat) : WebSocketBridge where
  nowMs := nowMs
  openedAtMs := nowMs
  upstream := .connecting
  bytesIn := 0
  bytesOut := 0
  pending := []
  closing := false
  idleAt := (StreamLimits.msOf limits.streamIdleTimeoutSec).map (nowMs + ·)
  lifeAt := (StreamLimits.msOf limits.maxConnectionSec).map (nowMs + ·)
  registered := true
  closed := []
  opened := false
  heardMs := nowMs
  seenMs := nowMs
  arrivals := []
  toBackend := []
  fromBackend := []
  toClient := []

def finish (s : WebSocketBridge) (reason : StreamCloseReason) : WebSocketBridge :=
  if s.closing then s
  else
    { s with
      closing := true
      idleAt := none
      lifeAt := none
      registered := false
      upstream := .closed
      closed := s.closed ++ [⟨reason, s.bytesIn, s.bytesOut, s.nowMs - s.openedAtMs⟩] }

def count (s : WebSocketBridge) (inBytes outBytes : Nat) : WebSocketBridge :=
  let counted := { s with bytesIn := s.bytesIn + inBytes, bytesOut := s.bytesOut + outBytes }
  if limits.exceeded (counted.bytesIn + counted.bytesOut) then finish counted .byteBudget else counted

def touch (s : WebSocketBridge) : WebSocketBridge :=
  { s with
    heardMs := s.nowMs
    idleAt := (StreamLimits.msOf limits.streamIdleTimeoutSec).map (s.nowMs + ·) }

def fromClient (s : WebSocketBridge) (message : Bytes) : WebSocketBridge :=
  let counted := count limits
    { s with seenMs := s.nowMs, arrivals := s.arrivals ++ [(message, s.opened)] } message.length 0
  if counted.closing then counted
  else if counted.upstream ≠ .open_ then
    if counted.pending.length < 32 then { counted with pending := counted.pending ++ [message] }
    else counted
  else touch limits { counted with toBackend := counted.toBackend ++ [message] }

def fromUpstream (s : WebSocketBridge) (message : Bytes) : WebSocketBridge :=
  let counted := count limits
    { s with seenMs := s.nowMs, fromBackend := s.fromBackend ++ [message] } 0 message.length
  if counted.closing then counted
  else touch limits { counted with toClient := counted.toClient ++ [message] }

def step (s : WebSocketBridge) : Event → Option WebSocketBridge
  | .pass ms => some { s with nowMs := s.nowMs + ms }
  | .connected =>
    if s.upstream = .connecting then
      some { s with
        upstream := .open_
        opened := true
        toBackend := s.toBackend ++ s.pending
        pending := [] }
    else none
  | .clientMessage message => some (fromClient limits s message)
  | .backendMessage message => if s.opened then some (fromUpstream limits s message) else none
  | .backendClosing => if s.upstream = .open_ then some { s with upstream := .closing } else none
  | .backendClosed => some (finish s .backend)
  | .backendError => some (finish s .backend)
  | .clientClosed => some (finish s .client)
  | .idleFires =>
    if s.idleAt.any (· ≤ s.nowMs) then some (finish { s with idleAt := none } .idle) else none
  | .lifeFires =>
    if s.lifeAt.any (· ≤ s.nowMs) then some (finish { s with lifeAt := none } .maxConnection) else none
  -- The registry closes a handle it still has, for a revocation or a shutdown.
  | .close reason =>
    if s.registered && (reason == .revoked || reason == .shutdown) then some (finish s reason) else none

/-! ### What is promised -/

def sent (arrivals : List (Bytes × Bool)) : List Bytes := arrivals.map (·.1)

/-- The first 32 of those sent before the backend's connection opened, and all that were sent after. -/
def admitted (arrivals : List (Bytes × Bool)) : List Bytes :=
  ((arrivals.filter fun a => !a.2).map (·.1)).take 32 ++ (arrivals.filter (·.2)).map (·.1)

/-- What ends a stream, for each reason it is recorded with; `since` is what silence is counted from. -/
def Cause (since : WebSocketBridge → Nat) (s : WebSocketBridge) (e : Event) : StreamCloseReason → Prop
  | .client => e = .clientClosed
  | .backend => e = .backendClosed ∨ e = .backendError
  | .idle => e = .idleFires ∧
    ∃ ms, StreamLimits.msOf limits.streamIdleTimeoutSec = some ms ∧ since s + ms ≤ s.nowMs
  | .maxConnection => e = .lifeFires ∧
    ∃ ms, StreamLimits.msOf limits.maxConnectionSec = some ms ∧ s.openedAtMs + ms ≤ s.nowMs
  | .byteBudget => ∃ message, (e = .clientMessage message ∨ e = .backendMessage message) ∧
    limits.exceeded (s.bytesIn + s.bytesOut + message.length) = true
  | .revoked => e = .close .revoked
  | .shutdown => e = .close .shutdown

def Once (s : WebSocketBridge) : Prop :=
  (s.closing = false → s.registered = true ∧ s.closed = []) ∧
    (s.closing = true → s.registered = false ∧ ∃ record, s.closed = [record])

/-- The messages delivered are a prefix of those that are due, in both directions; the stream ends for
its reason only, and once. -/
structure Promised (due : List (Bytes × Bool) → List Bytes) (since : WebSocketBridge → Nat)
    (s : WebSocketBridge) (e : Event) (next : WebSocketBridge) : Prop where
  toBackend : next.toBackend <+: due next.arrivals
  toClient : next.toClient <+: next.fromBackend
  once : Once next
  cause : s.closing = false → ∀ record, next.closed = [record] → Cause limits since s e record.reason

/-! ### What holds of every bridge -/

structure Inv (s : WebSocketBridge) : Prop where
  toBackend : s.toBackend <+: admitted s.arrivals
  connecting : s.upstream = .connecting →
    s.closing = false ∧ s.opened = false ∧ s.pending = admitted s.arrivals
  unopened : s.opened = false → s.toBackend = [] ∧ ∀ a ∈ s.arrivals, a.2 = false
  isOpen : s.upstream = .open_ → s.opened = true ∧ s.toBackend = admitted s.arrivals
  ended : s.closing = true → s.upstream = .closed
  toClient : s.toClient <+: s.fromBackend
  copied : s.closing = false → s.toClient = s.fromBackend
  idle : ∀ t, s.idleAt = some t →
    ∃ ms, StreamLimits.msOf limits.streamIdleTimeoutSec = some ms ∧ t = s.heardMs + ms
  life : ∀ t, s.lifeAt = some t →
    ∃ ms, StreamLimits.msOf limits.maxConnectionSec = some ms ∧ t = s.openedAtMs + ms
  once : Once s

end

section
variable {limits : StreamLimits} {s next : WebSocketBridge}

/-! ### The messages that are due -/

theorem admitted_append_opened (arrivals : List (Bytes × Bool)) (message : Bytes) :
    admitted (arrivals ++ [(message, true)]) = admitted arrivals ++ [message] := by
  simp [admitted, List.filter_append, List.append_assoc]

theorem admitted_of_unopened {arrivals : List (Bytes × Bool)} (h : ∀ a ∈ arrivals, a.2 = false) :
    admitted arrivals = (sent arrivals).take 32 := by
  have hall : arrivals.filter (fun a => !a.2) = arrivals :=
    List.filter_eq_self.mpr fun a ha => by simp [h a ha]
  have hnone : arrivals.filter (·.2) = [] := List.filter_eq_nil_iff.mpr fun a ha => by simp [h a ha]
  rw [admitted, hall, hnone, List.map_nil, List.append_nil, sent]

theorem admitted_append_unopened {arrivals : List (Bytes × Bool)} (h : ∀ a ∈ arrivals, a.2 = false)
    (message : Bytes) : admitted (arrivals ++ [(message, false)]) =
      if (admitted arrivals).length < 32 then admitted arrivals ++ [message] else admitted arrivals := by
  have hnext : ∀ a ∈ arrivals ++ [(message, false)], a.2 = false := by
    intro a ha
    cases List.mem_append.mp ha with
    | inl hold => exact h a hold
    | inr hnew => rw [List.mem_singleton.mp hnew]
  rw [admitted_of_unopened hnext, admitted_of_unopened h]
  have hsent : sent (arrivals ++ [(message, false)]) = sent arrivals ++ [message] := by simp [sent]
  rw [hsent, List.length_take]
  by_cases hroom : (sent arrivals).length < 32
  · rw [if_pos (by omega), List.take_of_length_le (by simp; omega), List.take_of_length_le (by omega)]
  · rw [if_neg (by omega), List.take_append_of_le_length (by omega)]

theorem toBackend_arrives (hs : Inv limits s) (message : Bytes) :
    s.toBackend <+: admitted (s.arrivals ++ [(message, s.opened)]) := by
  cases hopened : s.opened with
  | true =>
    rw [admitted_append_opened]
    exact hs.toBackend.trans (List.prefix_append _ _)
  | false =>
    rw [(hs.unopened hopened).1]
    exact List.nil_prefix

theorem unopened_arrives (hs : Inv limits s) (message : Bytes) (hopened : s.opened = false) :
    s.toBackend = [] ∧ ∀ a ∈ s.arrivals ++ [(message, s.opened)], a.2 = false := by
  obtain ⟨hnothing, hflags⟩ := hs.unopened hopened
  refine ⟨hnothing, fun a ha => ?_⟩
  cases List.mem_append.mp ha with
  | inl hold => exact hflags a hold
  | inr hnew =>
    rw [List.mem_singleton.mp hnew]
    exact hopened

/-! ### The end of a stream -/

theorem finish_of_open (reason : StreamCloseReason) (h : s.closing = false) :
    finish s reason =
      { s with
        closing := true
        idleAt := none
        lifeAt := none
        registered := false
        upstream := .closed
        closed := s.closed ++ [⟨reason, s.bytesIn, s.bytesOut, s.nowMs - s.openedAtMs⟩] } := by
  unfold finish
  rw [h]
  rfl

theorem finish_of_closing (reason : StreamCloseReason) (h : s.closing = true) : finish s reason = s := by
  unfold finish
  rw [h]
  rfl

theorem once_finish (hs : Once s) (reason : StreamCloseReason) : Once (finish s reason) := by
  cases hclosing : s.closing with
  | true => rwa [finish_of_closing reason hclosing]
  | false =>
    rw [finish_of_open reason hclosing]
    obtain ⟨-, hclosed⟩ := hs.1 hclosing
    refine ⟨nofun, fun _ => ⟨rfl, ⟨reason, s.bytesIn, s.bytesOut, s.nowMs - s.openedAtMs⟩, ?_⟩⟩
    simp only [hclosed, List.nil_append]

theorem inv_finish (reason : StreamCloseReason)
    (htoBackend : s.toBackend <+: admitted s.arrivals)
    (hunopened : s.opened = false → s.toBackend = [] ∧ ∀ a ∈ s.arrivals, a.2 = false)
    (htoClient : s.toClient <+: s.fromBackend) (honce : Once s) (hclosing : s.closing = false) :
    Inv limits (finish s reason) := by
  have hfinished := once_finish honce reason
  rw [finish_of_open reason hclosing] at hfinished ⊢
  exact {
    toBackend := htoBackend
    connecting := nofun
    unopened := hunopened
    isOpen := nofun
    ended := fun _ => rfl
    toClient := htoClient
    copied := nofun
    idle := nofun
    life := nofun
    once := hfinished }

theorem finish_of_inv (hs : Inv limits s) (reason : StreamCloseReason) : Inv limits (finish s reason) := by
  cases hclosing : s.closing with
  | true => rwa [finish_of_closing reason hclosing]
  | false => exact inv_finish reason hs.toBackend hs.unopened hs.toClient hs.once hclosing

theorem reason_of_finish {reason : StreamCloseReason} {record : CloseRecord} (hclosing : s.closing = false)
    (honce : Once s) (h : (finish s reason).closed = [record]) : record.reason = reason := by
  rw [finish_of_open reason hclosing] at h
  rw [(honce.1 hclosing).2, List.nil_append] at h
  rw [← (List.cons.inj h).1]

/-! ### Messages -/

def arrived (s : WebSocketBridge) (message : Bytes) : WebSocketBridge :=
  { s with
    bytesIn := s.bytesIn + message.length
    seenMs := s.nowMs
    arrivals := s.arrivals ++ [(message, s.opened)] }

def returned (s : WebSocketBridge) (message : Bytes) : WebSocketBridge :=
  { s with
    bytesOut := s.bytesOut + message.length
    seenMs := s.nowMs
    fromBackend := s.fromBackend ++ [message] }

theorem fromClient_of_closing (message : Bytes) (h : s.closing = true) :
    fromClient limits s message = arrived s message := by
  have hcount : count limits
    { s with seenMs := s.nowMs, arrivals := s.arrivals ++ [(message, s.opened)] } message.length 0 =
      arrived s message := by
    unfold count
    simp only
    split
    · exact finish_of_closing _ h
    · rfl
  unfold fromClient
  rw [hcount]
  exact if_pos h

theorem fromClient_of_over (message : Bytes) (h : s.closing = false)
    (hover : limits.exceeded (s.bytesIn + message.length + s.bytesOut) = true) :
    fromClient limits s message = finish (arrived s message) .byteBudget := by
  have hcount : count limits
    { s with seenMs := s.nowMs, arrivals := s.arrivals ++ [(message, s.opened)] } message.length 0 =
      finish (arrived s message) .byteBudget := if_pos hover
  have hclosing : (finish (arrived s message) .byteBudget).closing = true := by
    rw [finish_of_open _ (show (arrived s message).closing = false from h)]
  unfold fromClient
  rw [hcount]
  exact if_pos hclosing

theorem fromClient_of_within (message : Bytes) (h : s.closing = false)
    (hwithin : limits.exceeded (s.bytesIn + message.length + s.bytesOut) = false) :
    fromClient limits s message =
      if s.upstream = .open_ then
        touch limits { arrived s message with toBackend := s.toBackend ++ [message] }
      else if s.pending.length < 32 then
        { arrived s message with pending := s.pending ++ [message] }
      else arrived s message := by
  have hcount : count limits
    { s with seenMs := s.nowMs, arrivals := s.arrivals ++ [(message, s.opened)] } message.length 0 =
      arrived s message := if_neg (by rw [← Bool.not_eq_true] at hwithin; exact hwithin)
  have hgoes : ¬ (arrived s message).closing = true := by
    rw [show (arrived s message).closing = false from h]
    exact Bool.false_ne_true
  unfold fromClient
  rw [hcount]
  by_cases hopen : s.upstream = .open_
  · rw [if_pos hopen]
    exact (if_neg hgoes).trans (if_neg (not_not.mpr hopen))
  · rw [if_neg hopen]
    exact (if_neg hgoes).trans (if_pos hopen)

theorem fromUpstream_of_closing (message : Bytes) (h : s.closing = true) :
    fromUpstream limits s message = returned s message := by
  have hcount : count limits
    { s with seenMs := s.nowMs, fromBackend := s.fromBackend ++ [message] } 0 message.length =
      returned s message := by
    unfold count
    simp only
    split
    · exact finish_of_closing _ h
    · rfl
  unfold fromUpstream
  rw [hcount]
  exact if_pos h

theorem fromUpstream_of_over (message : Bytes) (h : s.closing = false)
    (hover : limits.exceeded (s.bytesIn + (s.bytesOut + message.length)) = true) :
    fromUpstream limits s message = finish (returned s message) .byteBudget := by
  have hcount : count limits
    { s with seenMs := s.nowMs, fromBackend := s.fromBackend ++ [message] } 0 message.length =
      finish (returned s message) .byteBudget := if_pos hover
  have hclosing : (finish (returned s message) .byteBudget).closing = true := by
    rw [finish_of_open _ (show (returned s message).closing = false from h)]
  unfold fromUpstream
  rw [hcount]
  exact if_pos hclosing

theorem fromUpstream_of_within (message : Bytes) (h : s.closing = false)
    (hwithin : limits.exceeded (s.bytesIn + (s.bytesOut + message.length)) = false) :
    fromUpstream limits s message =
      touch limits { returned s message with toClient := s.toClient ++ [message] } := by
  have hcount : count limits
    { s with seenMs := s.nowMs, fromBackend := s.fromBackend ++ [message] } 0 message.length =
      returned s message := if_neg (by rw [← Bool.not_eq_true] at hwithin; exact hwithin)
  have hgoes : ¬ (returned s message).closing = true := by
    rw [show (returned s message).closing = false from h]
    exact Bool.false_ne_true
  unfold fromUpstream
  rw [hcount]
  exact if_neg hgoes

theorem idle_touch (s : WebSocketBridge) (t : Nat) (h : (touch limits s).idleAt = some t) :
    ∃ ms, StreamLimits.msOf limits.streamIdleTimeoutSec = some ms ∧ t = (touch limits s).heardMs + ms := by
  obtain ⟨ms, hms, rfl⟩ := Option.map_eq_some_iff.mp h
  exact ⟨ms, hms, rfl⟩

theorem inv_fromClient (hs : Inv limits s) (message : Bytes) : Inv limits (fromClient limits s message) := by
  cases hclosing : s.closing with
  | true =>
    rw [fromClient_of_closing message hclosing]
    have hended := hs.ended hclosing
    exact {
      toBackend := toBackend_arrives hs message
      connecting := fun h => by
        rw [show s.upstream = .connecting from h] at hended
        cases hended
      unopened := unopened_arrives hs message
      isOpen := fun h => by
        rw [show s.upstream = .open_ from h] at hended
        cases hended
      ended := hs.ended
      toClient := hs.toClient
      copied := hs.copied
      idle := hs.idle
      life := hs.life
      once := hs.once }
  | false =>
    cases hover : limits.exceeded (s.bytesIn + message.length + s.bytesOut) with
    | true =>
      rw [fromClient_of_over message hclosing hover]
      exact inv_finish _ (toBackend_arrives hs message) (unopened_arrives hs message) hs.toClient hs.once
        hclosing
    | false =>
      rw [fromClient_of_within message hclosing hover]
      by_cases hopen : s.upstream = .open_
      · rw [if_pos hopen]
        obtain ⟨hopened, hall⟩ := hs.isOpen hopen
        have hnext : s.toBackend ++ [message] = admitted (s.arrivals ++ [(message, s.opened)]) := by
          rw [hopened, admitted_append_opened, hall]
        have hdelivered : s.toBackend ++ [message] <+: admitted (s.arrivals ++ [(message, s.opened)]) := by
          rw [hnext]
        exact {
          toBackend := hdelivered
          connecting := fun h => by
            rw [show s.upstream = .connecting from h] at hopen
            cases hopen
          unopened := fun h => by
            rw [show s.opened = false from h] at hopened
            cases hopened
          isOpen := fun _ => ⟨hopened, hnext⟩
          ended := fun h => by
            rw [show s.closing = true from h] at hclosing
            cases hclosing
          toClient := hs.toClient
          copied := hs.copied
          idle := idle_touch _
          life := hs.life
          once := hs.once }
      · rw [if_neg hopen]
        -- While the connection is being opened the queue holds what is due.
        have hqueue : s.upstream = .connecting →
            (if s.pending.length < 32 then s.pending ++ [message] else s.pending) =
              admitted (s.arrivals ++ [(message, s.opened)]) := by
          intro hconnecting
          obtain ⟨-, hopened, hpending⟩ := hs.connecting hconnecting
          rw [hopened, admitted_append_unopened (hs.unopened hopened).2, hpending]
        by_cases hroom : s.pending.length < 32
        · rw [if_pos hroom]
          exact {
            toBackend := toBackend_arrives hs message
            connecting := fun h => by
              have hheld := hqueue h
              rw [if_pos hroom] at hheld
              exact ⟨hclosing, (hs.connecting h).2.1, hheld⟩
            unopened := unopened_arrives hs message
            isOpen := fun h => absurd h hopen
            ended := hs.ended
            toClient := hs.toClient
            copied := hs.copied
            idle := hs.idle
            life := hs.life
            once := hs.once }
        · rw [if_neg hroom]
          exact {
            toBackend := toBackend_arrives hs message
            connecting := fun h => by
              have hheld := hqueue h
              rw [if_neg hroom] at hheld
              exact ⟨hclosing, (hs.connecting h).2.1, hheld⟩
            unopened := unopened_arrives hs message
            isOpen := fun h => absurd h hopen
            ended := hs.ended
            toClient := hs.toClient
            copied := hs.copied
            idle := hs.idle
            life := hs.life
            once := hs.once }

theorem inv_fromUpstream (hs : Inv limits s) (message : Bytes) :
    Inv limits (fromUpstream limits s message) := by
  have hlonger : s.toClient <+: s.fromBackend ++ [message] := hs.toClient.trans (List.prefix_append _ _)
  cases hclosing : s.closing with
  | true =>
    rw [fromUpstream_of_closing message hclosing]
    exact {
      toBackend := hs.toBackend
      connecting := hs.connecting
      unopened := hs.unopened
      isOpen := hs.isOpen
      ended := hs.ended
      toClient := hlonger
      copied := fun h => by
        rw [show s.closing = false from h] at hclosing
        cases hclosing
      idle := hs.idle
      life := hs.life
      once := hs.once }
  | false =>
    cases hover : limits.exceeded (s.bytesIn + (s.bytesOut + message.length)) with
    | true =>
      rw [fromUpstream_of_over message hclosing hover]
      exact inv_finish _ hs.toBackend hs.unopened hlonger hs.once hclosing
    | false =>
      rw [fromUpstream_of_within message hclosing hover]
      have hcopied : s.toClient ++ [message] = s.fromBackend ++ [message] := by rw [hs.copied hclosing]
      have hdelivered : s.toClient ++ [message] <+: s.fromBackend ++ [message] := by
        rw [hcopied]
      exact {
        toBackend := hs.toBackend
        connecting := hs.connecting
        unopened := hs.unopened
        isOpen := hs.isOpen
        ended := hs.ended
        toClient := hdelivered
        copied := fun _ => hcopied
        idle := idle_touch _
        life := hs.life
        once := hs.once }

/-! ### Steps -/

theorem inv_start (limits : StreamLimits) (nowMs : Nat) : Inv limits (start limits nowMs) where
  toBackend := List.nil_prefix
  connecting := fun _ => ⟨rfl, rfl, rfl⟩
  unopened := fun _ => ⟨rfl, nofun⟩
  isOpen := nofun
  ended := nofun
  toClient := List.prefix_refl _
  copied := fun _ => rfl
  idle := by
    intro t h
    obtain ⟨ms, hms, rfl⟩ := Option.map_eq_some_iff.mp h
    exact ⟨ms, hms, rfl⟩
  life := by
    intro t h
    obtain ⟨ms, hms, rfl⟩ := Option.map_eq_some_iff.mp h
    exact ⟨ms, hms, rfl⟩
  once := ⟨fun _ => ⟨rfl, rfl⟩, nofun⟩

theorem inv_connected (hs : Inv limits s) (hconnecting : s.upstream = .connecting) :
    Inv limits { s with
      upstream := .open_
      opened := true
      toBackend := s.toBackend ++ s.pending
      pending := [] } := by
  obtain ⟨hclosing, hopened, hpending⟩ := hs.connecting hconnecting
  have hall : s.toBackend ++ s.pending = admitted s.arrivals := by
    rw [(hs.unopened hopened).1, List.nil_append, hpending]
  have hdelivered : s.toBackend ++ s.pending <+: admitted s.arrivals := by rw [hall]
  exact {
    toBackend := hdelivered
    connecting := nofun
    unopened := nofun
    isOpen := fun _ => ⟨rfl, hall⟩
    ended := fun h => by
      rw [show s.closing = true from h] at hclosing
      cases hclosing
    toClient := hs.toClient
    copied := hs.copied
    idle := hs.idle
    life := hs.life
    once := hs.once }

theorem inv_step {e : Event} (hs : Inv limits s) (h : step limits s e = some next) : Inv limits next := by
  cases e with
  | pass ms =>
    cases h
    exact ⟨hs.toBackend, hs.connecting, hs.unopened, hs.isOpen, hs.ended, hs.toClient, hs.copied, hs.idle,
      hs.life, hs.once⟩
  | connected =>
    simp only [step, Option.ite_none_right_eq_some, Option.some.injEq] at h
    obtain ⟨hconnecting, rfl⟩ := h
    exact inv_connected hs hconnecting
  | clientMessage message =>
    cases h
    exact inv_fromClient hs message
  | backendMessage message =>
    simp only [step, Option.ite_none_right_eq_some, Option.some.injEq] at h
    obtain ⟨-, rfl⟩ := h
    exact inv_fromUpstream hs message
  | backendClosing =>
    simp only [step, Option.ite_none_right_eq_some, Option.some.injEq] at h
    obtain ⟨hopen, rfl⟩ := h
    exact {
      toBackend := hs.toBackend
      connecting := nofun
      unopened := hs.unopened
      isOpen := nofun
      ended := fun hclosing => by
        have hended := hs.ended hclosing
        rw [hopen] at hended
        cases hended
      toClient := hs.toClient
      copied := hs.copied
      idle := hs.idle
      life := hs.life
      once := hs.once }
  | backendClosed =>
    cases h
    exact finish_of_inv hs _
  | backendError =>
    cases h
    exact finish_of_inv hs _
  | clientClosed =>
    cases h
    exact finish_of_inv hs _
  | idleFires =>
    simp only [step, Option.ite_none_right_eq_some, Option.some.injEq] at h
    obtain ⟨-, rfl⟩ := h
    have hfired : Inv limits { s with idleAt := none } :=
      ⟨hs.toBackend, hs.connecting, hs.unopened, hs.isOpen, hs.ended, hs.toClient, hs.copied, nofun,
        hs.life, hs.once⟩
    exact finish_of_inv hfired _
  | lifeFires =>
    simp only [step, Option.ite_none_right_eq_some, Option.some.injEq] at h
    obtain ⟨-, rfl⟩ := h
    have hfired : Inv limits { s with lifeAt := none } :=
      ⟨hs.toBackend, hs.connecting, hs.unopened, hs.isOpen, hs.ended, hs.toClient, hs.copied, hs.idle,
        nofun, hs.once⟩
    exact finish_of_inv hfired _
  | close reason =>
    simp only [step, Option.ite_none_right_eq_some, Option.some.injEq] at h
    obtain ⟨-, rfl⟩ := h
    exact finish_of_inv hs _

theorem cause_of_unended {since : WebSocketBridge → Nat} {e : Event} {record : CloseRecord} (hclosed : next.closed = s.closed)
    (honce : Once s) (hclosing : s.closing = false) (h : next.closed = [record]) :
    Cause limits since s e record.reason := by
  rw [hclosed, (honce.1 hclosing).2] at h
  cases h

theorem cause_step {e : Event} (hs : Inv limits s) (h : step limits s e = some next)
    (hclosing : s.closing = false) (record : CloseRecord) (hrecord : next.closed = [record]) :
    Cause limits (·.heardMs) s e record.reason := by
  have honce := hs.once
  cases e with
  | pass ms =>
    cases h
    exact cause_of_unended rfl honce hclosing hrecord
  | connected =>
    simp only [step, Option.ite_none_right_eq_some, Option.some.injEq] at h
    obtain ⟨-, rfl⟩ := h
    exact cause_of_unended rfl honce hclosing hrecord
  | clientMessage message =>
    cases h
    cases hover : limits.exceeded (s.bytesIn + message.length + s.bytesOut) with
    | true =>
      rw [fromClient_of_over message hclosing hover] at hrecord
      rw [reason_of_finish (show (arrived s message).closing = false from hclosing) honce hrecord]
      refine ⟨message, .inl rfl, ?_⟩
      rw [show s.bytesIn + s.bytesOut + message.length = s.bytesIn + message.length + s.bytesOut by omega]
      exact hover
    | false =>
      rw [fromClient_of_within message hclosing hover] at hrecord
      split at hrecord
      · exact cause_of_unended rfl honce hclosing hrecord
      · split at hrecord
        · exact cause_of_unended rfl honce hclosing hrecord
        · exact cause_of_unended rfl honce hclosing hrecord
  | backendMessage message =>
    simp only [step, Option.ite_none_right_eq_some, Option.some.injEq] at h
    obtain ⟨-, rfl⟩ := h
    cases hover : limits.exceeded (s.bytesIn + (s.bytesOut + message.length)) with
    | true =>
      rw [fromUpstream_of_over message hclosing hover] at hrecord
      rw [reason_of_finish (show (returned s message).closing = false from hclosing) honce hrecord]
      refine ⟨message, .inr rfl, ?_⟩
      rw [Nat.add_assoc]
      exact hover
    | false =>
      rw [fromUpstream_of_within message hclosing hover] at hrecord
      exact cause_of_unended rfl honce hclosing hrecord
  | backendClosing =>
    simp only [step, Option.ite_none_right_eq_some, Option.some.injEq] at h
    obtain ⟨-, rfl⟩ := h
    exact cause_of_unended rfl honce hclosing hrecord
  | backendClosed =>
    cases h
    rw [reason_of_finish hclosing honce hrecord]
    exact .inl rfl
  | backendError =>
    cases h
    rw [reason_of_finish hclosing honce hrecord]
    exact .inr rfl
  | clientClosed =>
    cases h
    rw [reason_of_finish hclosing honce hrecord]
    rfl
  | idleFires =>
    simp only [step, Option.ite_none_right_eq_some, Option.some.injEq] at h
    obtain ⟨hdue, rfl⟩ := h
    have hreason := reason_of_finish (show ({ s with idleAt := none } : WebSocketBridge).closing = false
      from hclosing) honce hrecord
    rw [hreason]
    obtain ⟨t, ht, hpast⟩ := (Option.any_eq_true _ _).mp hdue
    obtain ⟨ms, hms, rfl⟩ := hs.idle t ht
    exact ⟨rfl, ms, hms, of_decide_eq_true hpast⟩
  | lifeFires =>
    simp only [step, Option.ite_none_right_eq_some, Option.some.injEq] at h
    obtain ⟨hdue, rfl⟩ := h
    have hreason := reason_of_finish (show ({ s with lifeAt := none } : WebSocketBridge).closing = false
      from hclosing) honce hrecord
    rw [hreason]
    obtain ⟨t, ht, hpast⟩ := (Option.any_eq_true _ _).mp hdue
    obtain ⟨ms, hms, rfl⟩ := hs.life t ht
    exact ⟨rfl, ms, hms, of_decide_eq_true hpast⟩
  | close reason =>
    simp only [step, Option.ite_none_right_eq_some, Option.some.injEq, Bool.and_eq_true, Bool.or_eq_true,
      beq_iff_eq] at h
    obtain ⟨⟨-, houtside⟩, rfl⟩ := h
    rw [reason_of_finish hclosing honce hrecord]
    cases houtside with
    | inl heq => rw [heq]; rfl
    | inr heq => rw [heq]; rfl

theorem promised_of_inv {e : Event} (hs : Inv limits s) (h : step limits s e = some next) :
    Promised limits admitted (·.heardMs) s e next := by
  have hnext := inv_step hs h
  exact ⟨hnext.toBackend, hnext.toClient, hnext.once, cause_step hs h⟩

theorem bridge_promised (limits : StreamLimits) (nowMs : Nat) (events : List Event) :
    Trace.EveryStep (step limits) (Promised limits admitted (·.heardMs)) (start limits nowMs) events := by
  have hkeeps : ∀ s e next, Inv limits s → step limits s e = some next → Inv limits next :=
    fun _ _ _ hs h => inv_step hs h
  have hpromised : ∀ s e next, Inv limits s → step limits s e = some next →
      Promised limits admitted (·.heardMs) s e next := fun _ _ _ hs h => promised_of_inv hs h
  exact Trace.everyStep_of_invariant hkeeps hpromised (inv_start limits nowMs) events

end

end Bridging
end Apim.DataPlane
