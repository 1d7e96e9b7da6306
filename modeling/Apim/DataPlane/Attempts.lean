import Apim.DataPlane.Respond
import Apim.Lib.Table
import Apim.Lib.Trace
import Apim.Shared.Backend

/-!
# The attempt loop

Steps 17 to 19 of `handleRequest` (`data-plane/src/pipeline.ts:1442-1670`): the order of the
backends, the number of attempts, and the loop that asks the breaker, authenticates to the backend
and fetches. A request gives up the thread at three places of the loop: while it waits for the
backend's credential, for the response, and for the response of a failed attempt to be cancelled.
Between two of these its steps are one step here, and the steps of several requests interleave over
one breaker (`step`).

`origin` is `new URL(url).origin`, with `none` where the constructor throws. What the backend and
its credential provider answer is part of the event that reports it. `slots` records what a request
did to the breaker, and nothing reads it.
-/

namespace Apim.DataPlane

open Apim.Backend

/-! ### What a request brings to the loop -/

structure RetriesUnit where
  attempts : Nat
  on : List String
  idempotentOnly : Option Bool
  deriving DecidableEq, Repr

/-- `IDEMPOTENT_METHODS` (`shared/policy.ts:523`). -/
def IDEMPOTENT_METHODS : List String := ["GET", "HEAD", "PUT", "DELETE", "OPTIONS", "TRACE"]

def isIdempotent (method : String) : Bool := IDEMPOTENT_METHODS.contains method.toUpper

/-- What the loop reads of the request and its route. `streamed` says that the body is still a
stream (`upstreamBody !== null`). -/
structure Call where
  resourceId : String
  pool : List BackendEntry
  rule : PoolRule
  settings : Option BreakerSettings
  retries : Option RetriesUnit
  upstreamMethod : String
  streamed : Bool
  timeoutMs : Nat
  routeMaxBody : Nat
  deriving DecidableEq, Repr

def Call.breakerKey (call : Call) (entry : BackendEntry) : String :=
  call.resourceId ++ "|" ++ entry.url

/-- `maxAttempts` (`data-plane/src/pipeline.ts:1457-1469`). -/
def Call.maxAttempts (call : Call) (backends : Nat) : Nat :=
  match call.retries with
  | none => 1
  | some retries =>
    if retries.idempotentOnly ≠ some false ∧ ¬ isIdempotent call.upstreamMethod then 1
    else if call.streamed then 1
    else min (retries.attempts + 1) (backends + 1)

def isRetryable (status : Nat) (retries : Option RetriesUnit) : Bool :=
  match retries with
  | none => false
  | some retries => retries.on.contains (toString status)

def Call.retriesOn (call : Call) (name : String) : Bool :=
  match call.retries with
  | none => false
  | some retries => retries.on.contains name

structure Order where
  entries : List BackendEntry
  nonempty : entries ≠ []
  deriving DecidableEq, Repr

def Order.at (order : Order) (attempt : Nat) : BackendEntry :=
  order.entries.get ⟨min attempt (order.entries.length - 1), by
    have hpos := List.length_pos_iff.mpr order.nonempty
    omega⟩

/-! ### A request in the loop -/

structure LastError where
  status : Nat
  detail : String
  outcome : Outcome
  backend : String
  deriving DecidableEq, Repr

/-- How a request leaves the loop: with the backend's response, with a refusal, or with an
exception that `handleRequest` does not catch. -/
inductive Answer where
  | responded (status : Nat)
  | denied (denial : Denial)
  | threw
  deriving DecidableEq, Repr

inductive Stage where
  | authenticating (entry : BackendEntry)
  | fetching (entry : BackendEntry)
  | draining
  deriving DecidableEq, Repr

inductive SlotEvent where
  | acquired (key : String)
  | settled (key : String)
  deriving DecidableEq, Repr

structure Flight where
  id : Nat
  call : Call
  order : Order
  maxAttempts : Nat
  deadlineAt : Nat
  attempt : Nat
  stage : Stage
  lastError : Option LastError
  slots : List SlotEvent
  deriving DecidableEq, Repr

def Flight.breakerKey (f : Flight) (entry : BackendEntry) : String := f.call.breakerKey entry

def Flight.settle (f : Flight) (entry : BackendEntry) : Flight :=
  { f with slots := f.slots ++ [.settled (f.breakerKey entry)] }

inductive Progress where
  | flying (f : Flight)
  | ended (f : Flight) (answer : Answer)
  deriving DecidableEq, Repr

/-! ### The segments between two waits -/

section
variable (origin : String → Option String)

/-- The refusal after the loop (`data-plane/src/pipeline.ts:1646-1669`). -/
def conclude : Option LastError → Answer
  | none => .denied ⟨503, "no backend accepted the request", .poolOpen⟩
  | some failure =>
    match origin failure.backend with
    | none => .threw
    | some _ => .denied ⟨failure.status, failure.detail, failure.outcome⟩

inductive Turn where
  | sending (attempt : Nat) (entry : BackendEntry) (lastError : Option LastError)
  | ended (answer : Answer)
  deriving DecidableEq, Repr

/-- The head of the loop (`data-plane/src/pipeline.ts:1499-1511`): `left` attempts from `attempt`
on, each of which asks the breaker of its backend, up to the first that is admitted. -/
def seek (call : Call) (order : Order) (now : Nat) :
    Nat → Nat → Option LastError → Breaker → Turn × Breaker
  | 0, _, lastError, b => (.ended (conclude origin lastError), b)
  | left + 1, attempt, lastError, b =>
    let entry := order.at attempt
    let asked := b.tryAcquire (call.breakerKey entry) call.settings now
    if asked.1 then (.sending attempt entry lastError, asked.2)
    else
      match origin entry.url with
      | none => (.ended .threw, asked.2)
      | some site =>
        seek call order now left (attempt + 1)
          (some ⟨503, s!"the circuit breaker is open for {site}", .poolOpen, entry.url⟩) asked.2

def Flight.advance (f : Flight) (attempt : Nat) (lastError : Option LastError) (now : Nat)
    (b : Breaker) : Progress × Breaker :=
  match seek origin f.call f.order now (f.maxAttempts - attempt) attempt lastError b with
  | (.sending attempt entry lastError, b) =>
    (.flying { f with
      attempt := attempt
      stage := .authenticating entry
      lastError := lastError
      slots := f.slots ++ [.acquired (f.breakerKey entry)] }, b)
  | (.ended answer, b) => (.ended f answer, b)

/-- What becomes of `applyBackendAuth` and of what is built from its result: `buildThrows` says that
the target or the TLS options could not be made of an accepted one. -/
inductive AuthAnswer where
  | threw
  | refused (status : Nat) (detail : String)
  | accepted (buildThrows : Bool)
  deriving DecidableEq, Repr

/-- From the backend's credential to the call (`data-plane/src/pipeline.ts:1514-1566`). -/
def Flight.authAnswered (f : Flight) (entry : BackendEntry) (answer : AuthAnswer) (now : Nat)
    (b : Breaker) : Progress × Breaker :=
  match answer with
  | .threw => (.ended f .threw, b)
  | .refused status detail =>
    (.ended (f.settle entry) (.denied ⟨status, detail, .backendUnreachable⟩),
      b.onSuccess (f.breakerKey entry) f.call.settings)
  | .accepted buildThrows =>
    if f.deadlineAt ≤ now then
      (.ended f (conclude origin (some ⟨504,
        s!"the backend did not respond within {f.call.timeoutMs}ms", .backendTimeout, entry.url⟩)), b)
    else if (origin entry.url).isNone ∨ buildThrows then (.ended f .threw, b)
    else (.flying { f with stage := .fetching entry }, b)

inductive FetchAnswer where
  | responded (status : Nat)
  | failed (overCap aborted timedOut : Bool) (message : String)
  deriving DecidableEq, Repr

def Call.fetchError (call : Call) (entry : BackendEntry) (timedOut : Bool) (message : String) :
    LastError :=
  if timedOut then
    ⟨504, s!"the backend did not respond within {call.timeoutMs}ms", .backendTimeout, entry.url⟩
  else ⟨502, s!"could not reach the backend: {message}", .backendUnreachable, entry.url⟩

def failureName (timedOut : Bool) : String := if timedOut then "timeout" else "connect"

/-- From the answer of the call (`data-plane/src/pipeline.ts:1568-1640`). -/
def Flight.fetchAnswered (f : Flight) (entry : BackendEntry) (answer : FetchAnswer) (now : Nat)
    (b : Breaker) : Progress × Breaker :=
  let key := f.breakerKey entry
  match answer with
  | .responded status =>
    if isRetryable status f.call.retries ∧ f.attempt + 1 < f.maxAttempts then
      (.flying { f.settle entry with
        stage := .draining
        lastError := some ⟨status, s!"the backend answered {status}", .upstreamError, entry.url⟩ },
        b.onFailure key f.call.settings now)
    else if 500 ≤ status ∧ f.call.retriesOn (toString status) then
      (.ended (f.settle entry) (.responded status), b.onFailure key f.call.settings now)
    else (.ended (f.settle entry) (.responded status), b.onSuccess key f.call.settings)
  | .failed overCap aborted timedOut message =>
    if overCap then
      (.ended f (.denied ⟨413,
        s!"body larger than {f.call.routeMaxBody} bytes (enforced while streaming)",
        .bodyTooLarge⟩), b)
    else if aborted then
      (.ended (f.settle entry) (.denied ⟨499,
        "the client disconnected before the backend answered; the upstream call was abandoned too",
        .clientGone⟩), b.onSuccess key f.call.settings)
    else
      let failure := f.call.fetchError entry timedOut message
      let b := b.onFailure key f.call.settings now
      if f.attempt + 1 < f.maxAttempts ∧ f.call.retriesOn (failureName timedOut) then
        (f.settle entry).advance origin (f.attempt + 1) (some failure) now b
      else (.ended (f.settle entry) (conclude origin (some failure)), b)

end

/-! ### An instance and its requests -/

structure Instance where
  now : Nat
  breaker : Breaker
  flights : List Flight
  ended : List (Flight × Answer)

def Instance.start (now : Nat) : Instance := ⟨now, ∅, [], []⟩

inductive Event where
  | tick (ms : Nat)
  | sweep
  /-- A request reaches step 17; `shed` is the refusal of the bulkhead, when it sheds. -/
  | arrive (id : Nat) (call : Call) (cursor : Nat) (shed : Option Denial)
  | auth (id : Nat) (answer : AuthAnswer)
  | fetched (id : Nat) (answer : FetchAnswer)
  | drained (id : Nat)

def Instance.isHealthy (s : Instance) (call : Call) (url : String) : Bool :=
  (s.breaker.state (call.resourceId ++ "|" ++ url) call.settings s.now).1 != .open

def survey (call : Call) (now : Nat) (entries : List BackendEntry) (b : Breaker) : Breaker :=
  entries.foldl (fun b entry => (b.state (call.breakerKey entry) call.settings now).2) b

def Flight.entering (id : Nat) (call : Call) (order : Order) (now : Nat) : Flight where
  id := id
  call := call
  order := order
  maxAttempts := call.maxAttempts order.entries.length
  deadlineAt := now + call.timeoutMs
  attempt := 0
  stage := .draining
  lastError := none
  slots := []

/-- The instance once a segment has run, with the requests that did not take part. -/
def Instance.resume (s : Instance) (others : List Flight) (outcome : Progress × Breaker) :
    Instance :=
  match outcome.1 with
  | .flying f => { s with breaker := outcome.2, flights := f :: others }
  | .ended f answer =>
    { s with breaker := outcome.2, flights := others, ended := (f, answer) :: s.ended }

theorem forall_resume {P : Flight → Prop} {s : Instance} {others : List Flight}
    (h : ∀ f ∈ others, P f) {outcome : Progress × Breaker}
    (hflying : ∀ f, outcome.1 = .flying f → P f) : ∀ f ∈ (s.resume others outcome).flights, P f := by
  unfold Instance.resume
  cases hprogress : outcome.1 with
  | flying f =>
    intro g hg
    rcases List.mem_cons.mp hg with rfl | hother
    · exact hflying _ hprogress
    · exact h g hother
  | ended f answer => exact h

theorem forall_pick {P : Flight → Prop} {s : Instance} (hs : ∀ f ∈ s.flights, P f)
    {p : Flight → Bool} {f : Flight} {others : List Flight}
    (h : Table.pick p s.flights = some (f, others)) : P f ∧ ∀ g ∈ others, P g := by
  have hperm := (Table.pick_eq_some h).2
  have hall : ∀ g ∈ f :: others, P g := fun g hg => hs g (hperm.mem_iff.mpr hg)
  exact ⟨hall f List.mem_cons_self, fun g hg => hall g (List.mem_cons_of_mem f hg)⟩

def Instance.knows (s : Instance) (id : Nat) : Bool :=
  s.flights.any (·.id == id) || s.ended.any (·.1.id == id)

section
variable (origin : String → Option String)

/-- Steps 17 to 19 up to the first wait (`data-plane/src/pipeline.ts:1442-1511`). -/
def Instance.receive (s : Instance) (id : Nat) (call : Call) (cursor : Nat)
    (shed : Option Denial) : Option Instance :=
  let entries := selectionOrder call.pool call.rule cursor (s.isHealthy call)
  if h : entries = [] then some s
  else
    let b := survey call s.now entries s.breaker
    match shed with
    | some _ => some { s with breaker := b }
    | none =>
      let f := Flight.entering id call ⟨entries, h⟩ s.now
      some (s.resume s.flights (f.advance origin 0 none s.now b))

def step (s : Instance) : Event → Option Instance
  | .tick ms => some { s with now := s.now + ms }
  | .sweep => some { s with breaker := s.breaker.sweep }
  | .arrive id call cursor shed =>
    if s.knows id then none else s.receive origin id call cursor shed
  | .auth id answer => do
    let (f, others) ← Table.pick (·.id == id) s.flights
    match f.stage with
    | .authenticating entry =>
      some (s.resume others (f.authAnswered origin entry answer s.now s.breaker))
    | _ => none
  | .fetched id answer => do
    let (f, others) ← Table.pick (·.id == id) s.flights
    match f.stage with
    | .fetching entry =>
      some (s.resume others (f.fetchAnswered origin entry answer s.now s.breaker))
    | _ => none
  | .drained id => do
    let (f, others) ← Table.pick (·.id == id) s.flights
    match f.stage with
    | .draining =>
      some (s.resume others (f.advance origin (f.attempt + 1) f.lastError s.now s.breaker))
    | _ => none

end

end Apim.DataPlane
