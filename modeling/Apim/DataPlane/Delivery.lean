import Apim.DataPlane.Gateway
import Apim.Lib.Totals
import Apim.Lib.Trace

/-!
# How a backend's body reaches the caller

The end of `handleRequest` (`data-plane/src/pipeline.ts:1727-1937`), for what is no event stream. A
response is handed on as it comes, perhaps with its first bytes read and put back; or it is read up
to a cap, checked, converted, stored and sent, and what passes the cap is handed on after all or
refused. Responses that are checked in blocking mode share a budget with the requests whose bodies
are read, so what is proved is about an instance with many of them in flight: a body that breaks off
shows, except where it was to be read and nobody was to block on it (`bodies_shown_iff`).
-/

namespace Apim.DataPlane.Delivery

open Apim.Totals Apim.Trace

/-! ### The budget -/

/-- `BlockingBudget` (`data-plane/src/validate.ts:417-442`). -/
structure BlockingBudget where
  total : Nat
  used : Nat := 0
  deriving DecidableEq, Repr

namespace BlockingBudget

def resize (b : BlockingBudget) (total : Nat) : BlockingBudget := { b with total }

def tryReserve (b : BlockingBudget) (bytes : Nat) : Option BlockingBudget :=
  if b.total < b.used + bytes then none else some { b with used := b.used + bytes }

def release (b : BlockingBudget) (bytes : Nat) : BlockingBudget := { b with used := b.used - bytes }

theorem used_tryReserve {b b' : BlockingBudget} {bytes : Nat} (h : b.tryReserve bytes = some b') :
    b'.used = b.used + bytes := by
  simp only [tryReserve, Option.ite_none_left_eq_some, Option.some.injEq] at h
  obtain ⟨-, rfl⟩ := h
  rfl

end BlockingBudget

/-! ### The readers -/

structure Resumable where
  bytes : Bytes
  overCap : Bool
  rest : Option Stream
  deriving DecidableEq, Repr

/-- The loop of `readResumable` (`data-plane/src/pipeline.ts:2400-2443`) with the chunks read so far.
A body that breaks off under the cap is over the cap with nothing to resume. -/
def resumeFrom (max : Nat) (chunks : List Bytes) : List Bytes → Ending → Resumable
  | [], .done => ⟨chunks.flatten, false, none⟩
  | [], _ => ⟨[], true, none⟩
  | chunk :: coming, ending =>
    if max < (chunks ++ [chunk]).flatten.length then
      ⟨[], true, some ⟨chunks ++ [chunk] ++ coming, ending⟩⟩
    else resumeFrom max (chunks ++ [chunk]) coming ending

def readResumable (body : Option Stream) (max : Nat) : Resumable :=
  match body with
  | none => ⟨[], false, none⟩
  | some body => resumeFrom max [] body.chunks body.ending

/-- `MAX_LOGGED_BODY_BYTES` (`shared/config-doc.ts:47`). -/
def MAX_LOGGED_BODY_BYTES : Nat := 8 * 1024

/-! ### A response -/

inductive Downstream where
  | shared
  | own
  | none
  deriving DecidableEq, Repr

def Downstream.text : Downstream → String
  | .shared => "public"
  | .own => "private"
  | .none => "none"

structure CacheUnit where
  ttlSec : Nat
  mustRevalidate : Bool := false
  downstream : Option Downstream := none
  maxBodyBytes : Option Nat := none
  deriving DecidableEq, Repr

/-- `downstreamCacheControl` (`data-plane/src/cache.ts:125-130`). -/
def downstreamCacheControl (unit : CacheUnit) : Option String :=
  match unit.downstream with
  | none | some .none => none
  | some downstream =>
    some (", ".intercalate ([downstream.text, s!"max-age={unit.ttlSec}"] ++
      if unit.mustRevalidate then ["must-revalidate"] else []))

structure CachedResponse where
  status : Nat
  headers : Headers
  body : Bytes
  storedAtMs : Nat
  expiresAtMs : Nat

/-- A backend's response, with what its route and its request say about the delivery. `headers` are
the response headers as the rules left them. -/
structure Response where
  status : Nat
  headers : Headers
  body : Option Stream
  kind : ResourceKind
  validate : ValidateUnit
  artifact : Option ValidationArtifact
  operation : Option ConfigOperation
  soapToJson : Bool
  cacheKey : Option String
  cacheUnit : Option CacheUnit
  captureBodies : Bool
  maxBodyBytes : Nat

structure Readers where
  validateResponse : Response → Bytes → ValidationOutcome
  /-- `soapToJson` of the decoded bytes, encoded, when they can be converted. -/
  soapToJson : Bytes → Option Bytes
  rpcErrorInBody : Bytes → Headers → Bool

namespace Response

def responseState (r : Response) : ValidationState := r.validate.response.getD .disabled

def rpcRoute (r : Response) : Bool := r.kind = .mcp || r.kind = .a2a

def checked (r : Response) : Bool :=
  r.responseState ≠ .disabled && r.artifact.isSome && r.operation.any (·.schemaState = .ok)

def success (r : Response) : Bool := 200 ≤ r.status && r.status < 300

def wantsResponseWork (r : Response) : Bool :=
  r.checked || r.soapToJson || r.rpcRoute || (r.cacheKey.isSome && r.success)

def cap (r : Response) : Nat :=
  min ((r.validate.always.bind (·.maxBodyBytes)).getD r.maxBodyBytes) r.maxBodyBytes

def reserved (r : Response) : Nat := if r.responseState = .blocking then r.cap else 0

end Response

/-- What the caller is given: a refusal of the gateway, or the backend's response. -/
inductive Reply where
  | denied (denial : Denial)
  | response (status : Nat) (headers : Headers) (body : Option Stream) (outcome : Outcome)

namespace Response

def forwarded (r : Response) (body : Option Stream) : Reply :=
  .response r.status r.headers body (if 400 ≤ r.status then .upstreamError else .ok)

/-- `if (!wantsResponseWork)`: the body is streamed, perhaps with an excerpt taken and put back. -/
def streamed (r : Response) : Reply :=
  match r.body with
  | none => r.forwarded none
  | some body =>
    if r.captureBodies then
      match body.takePrefix (MAX_LOGGED_BODY_BYTES + 1) with
      | none =>
        .denied ⟨502, "the backend's response body ended before it was complete", .upstreamError⟩
      | some (_, stream) => r.forwarded (some stream)
    else r.forwarded (some body)

def shed : Reply :=
  .denied ⟨502, "this gateway is at its blocking-validation buffer ceiling, so the response could " ++
    "not be validated and is refused rather than passed through unchecked", .validateBudget⟩

def cutOff (r : Response) (rest : Option Stream) : Reply :=
  if r.responseState = .blocking then
    .denied ⟨502, s!"the backend's response is larger than {r.cap} bytes, so it could not be validated",
      .validateBudget⟩
  else r.forwarded rest

def storedUnder (r : Response) (body : Bytes) : Option (String × CacheUnit) :=
  match r.cacheKey, r.cacheUnit with
  | some key, some unit =>
    if r.success = true ∧ body.length ≤ unit.maxBodyBytes.getD (1024 * 1024) then some (key, unit)
    else none
  | _, _ => none

def cached (r : Response) (headers : Headers) (unit : CacheUnit) (body : Bytes) (now : Nat) :
    CachedResponse where
  status := r.status
  headers := ⟨Overlay.select (fun name _ => name != "age" && name != "x-cache") headers.fields⟩
  body := body
  storedAtMs := now
  expiresAtMs := now + unit.ttlSec * 1000

/-- What follows a body that was read whole: the reply and what is stored of it. -/
def answered (readers : Readers) (r : Response) (body : Bytes) (now : Nat) :
    Reply × List (String × CachedResponse) :=
  let outcome := readers.validateResponse r body
  if r.checked && !outcome.ok && r.responseState = .blocking then
    (.denied ⟨502, "the backend's response does not match this API's contract: " ++
      validationDetail outcome, .validationRejected⟩, [])
  else
    let converted := if r.soapToJson then readers.soapToJson body else none
    let typed := if converted.isSome then
      r.headers.set "content-type" "application/json; charset=utf-8" else r.headers
    let outBody := converted.getD body
    let sized := typed.set "content-length" (toString outBody.length)
    let finalOutcome := fun (headers : Headers) =>
      if 400 ≤ r.status then Outcome.upstreamError
      else if r.rpcRoute && readers.rpcErrorInBody body headers then .rpcError else .ok
    match r.storedUnder outBody with
    | none => (.response r.status sized (some (Stream.ofBytes outBody)) (finalOutcome sized), [])
    | some (key, unit) =>
      let shaped := match downstreamCacheControl unit with
        | some control => sized.set "cache-control" control
        | none => sized
      let headers := shaped.set "x-cache" "miss"
      (.response r.status headers (some (Stream.ofBytes outBody)) (finalOutcome headers),
        [(key, r.cached shaped unit outBody now)])

def concluded (readers : Readers) (r : Response) (now : Nat) :
    Reply × List (String × CachedResponse) :=
  let read := readResumable r.body r.cap
  if read.overCap then (r.cutOff read.rest, []) else r.answered readers read.bytes now

end Response

/-! ### An instance -/

inductive Work where
  | request (bytes : Nat)
  | response (r : Response)

def Work.reserved : Work → Nat
  | .request bytes => bytes
  | .response r => r.reserved

structure Instance where
  budget : BlockingBudget
  inFlight : List Work
  stored : List (String × CachedResponse)
  replies : List (Response × Reply)

def opened (total : Nat) : Instance := ⟨⟨total, 0⟩, [], [], []⟩

inductive Event where
  /-- A request's body is about to be read (`data-plane/src/pipeline.ts:1051-1071`). -/
  | reads (bytes : Nat)
  | arrives (r : Response)
  | finishes (index now : Nat)
  | resizes (total : Nat)

namespace Instance

def reply (s : Instance) (r : Response) (reply : Reply) : Instance :=
  { s with replies := s.replies ++ [(r, reply)] }

def begin (s : Instance) (work : Work) (budget : BlockingBudget) : Instance :=
  { s with budget, inFlight := s.inFlight ++ [work] }

def arrive (s : Instance) (r : Response) : Instance :=
  if r.wantsResponseWork = false then s.reply r r.streamed
  else if r.responseState = .blocking then
    match s.budget.tryReserve r.cap with
    | none => s.reply r Response.shed
    | some budget => s.begin (.response r) budget
  else s.begin (.response r) s.budget

def finish (readers : Readers) (s : Instance) (index now : Nat) : Work → Instance
  | .request bytes =>
    { s with budget := s.budget.release bytes, inFlight := s.inFlight.eraseIdx index }
  | .response r =>
    let (answer, stored) := r.concluded readers now
    { s with
      budget := if r.responseState = .blocking then s.budget.release r.cap else s.budget
      inFlight := s.inFlight.eraseIdx index
      stored := s.stored ++ stored
      replies := s.replies ++ [(r, answer)] }

end Instance

def step (readers : Readers) (s : Instance) : Event → Option Instance
  | .reads bytes => (s.budget.tryReserve bytes).map (s.begin (.request bytes))
  | .arrives r => some (s.arrive r)
  | .finishes index now => s.inFlight[index]?.map (s.finish readers index now)
  | .resizes total => some { s with budget := s.budget.resize total }

/-! ### What the caller may conclude -/

def Ended (body : Option Stream) : Prop := ∀ stream, body = some stream → stream.ending = .done

def received (body : Option Stream) : Bytes := (body.map Stream.bytes).getD []

structure Shows (readers : Readers) (r : Response) (reply : Reply) : Prop where
  whole : ∀ headers body outcome, reply = .response r.status headers body outcome → Ended body →
    Ended r.body ∧ (received body = received r.body ∨
      (r.soapToJson = true ∧ readers.soapToJson (received r.body) = some (received body)))
  broken : ¬ Ended r.body → (∃ denial, reply = .denied denial ∧ 500 ≤ denial.status) ∨
    ∃ status headers body outcome, reply = .response status headers body outcome ∧ ¬ Ended body

/-- A step shows what became of the body it answers with, stores no other, and leaves the budget
with what is in flight: a read that is over gives back what was reserved for it, once. -/
structure Promised (readers : Readers) (s : Instance) (e : Event) (next : Instance) : Prop where
  answers : ∀ r reply, next.replies = s.replies ++ [(r, reply)] → Shows readers r reply
  stored : next.stored ≠ s.stored →
    ∃ r reply, next.replies = s.replies ++ [(r, reply)] ∧ Ended r.body
  returned : ∀ index now work, e = .finishes index now → s.inFlight[index]? = some work →
    next.inFlight = s.inFlight.eraseIdx index ∧ next.budget.used + work.reserved = s.budget.used
  budget : next.budget.used = total Work.reserved next.inFlight

def Response.Lost (r : Response) : Prop :=
  r.responseState ≠ .blocking ∧ ¬ Ended r.body ∧ (received r.body).length ≤ r.cap

def KeepsTrack (s : Instance) (e : Event) : Prop :=
  ∀ index now r, e = .finishes index now → s.inFlight[index]? = some (.response r) → ¬ r.Lost

/-! ### The readers -/

theorem resumeFrom_eq {max : Nat} {chunks : List Bytes} (coming : List Bytes) (ending : Ending)
    (hunder : chunks.flatten.length ≤ max) :
    resumeFrom max chunks coming ending =
      if max < (chunks ++ coming).flatten.length then ⟨[], true, some ⟨chunks ++ coming, ending⟩⟩
      else if ending = .done then ⟨(chunks ++ coming).flatten, false, none⟩ else ⟨[], true, none⟩ := by
  induction coming generalizing chunks with
  | nil =>
    rw [List.append_nil, if_neg (by omega)]
    cases ending <;> rfl
  | cons chunk coming ih =>
    have hmoved : chunks ++ [chunk] ++ coming = chunks ++ chunk :: coming := by simp
    rw [resumeFrom]
    by_cases hover : max < (chunks ++ [chunk]).flatten.length
    · have hall : max < (chunks ++ chunk :: coming).flatten.length := by
        rw [← hmoved, List.flatten_append, List.length_append]
        omega
      rw [if_pos hover, if_pos hall, hmoved]
    · have hstill : (chunks ++ [chunk]).flatten.length ≤ max := by omega
      rw [if_neg hover, ih hstill, hmoved]

theorem readResumable_eq (body : Stream) (max : Nat) :
    readResumable (some body) max =
      if max < body.bytes.length then ⟨[], true, some body⟩
      else if body.ending = .done then ⟨body.bytes, false, none⟩ else ⟨[], true, none⟩ := by
  have hunder : ([] : List Bytes).flatten.length ≤ max := Nat.zero_le max
  exact resumeFrom_eq body.chunks body.ending hunder

theorem ended_none : Ended none := nofun

theorem ended_some (body : Stream) : Ended (some body) ↔ body.ending = .done := by
  constructor
  · intro h
    exact h body rfl
  · intro h stream hstream
    cases hstream
    exact h

theorem received_ofBytes (bytes : Bytes) : received (some (Stream.ofBytes bytes)) = bytes :=
  Stream.bytes_ofBytes bytes

/-! ### One response -/

section
variable (readers : Readers) (r : Response)

theorem shows_denied {denial : Denial} (hstatus : 500 ≤ denial.status) :
    Shows readers r (.denied denial) :=
  ⟨nofun, fun _ => .inl ⟨denial, rfl, hstatus⟩⟩

theorem shows_forwarded {body : Option Stream} (hended : Ended body ↔ Ended r.body)
    (hbytes : received body = received r.body) : Shows readers r (r.forwarded body) where
  whole _ _ _ hreply hbody := by
    simp only [Response.forwarded, Reply.response.injEq] at hreply
    obtain ⟨-, -, rfl, -⟩ := hreply
    exact ⟨hended.mp hbody, .inl hbytes⟩
  broken hbroken := .inr ⟨_, _, _, _, rfl, fun hbody => hbroken (hended.mp hbody)⟩

theorem shows_streamed : Shows readers r r.streamed := by
  unfold Response.streamed
  cases hbody : r.body with
  | none => exact shows_forwarded readers r (by rw [hbody]) (by rw [hbody])
  | some body =>
    by_cases hcapture : r.captureBodies = true
    · simp only [hcapture, if_true]
      cases htaken : body.takePrefix (MAX_LOGGED_BODY_BYTES + 1) with
      | none => exact shows_denied readers r (by decide)
      | some taken =>
        obtain ⟨excerpt, stream⟩ := taken
        obtain ⟨hbytes, hending⟩ := Stream.same_of_takePrefix htaken
        refine shows_forwarded readers r ?_ ?_
        · rw [hbody, ended_some, ended_some, hending]
        · rw [hbody, received, received, Option.map_some, Option.map_some, hbytes]
    · simp only [hcapture]
      exact shows_forwarded readers r (by rw [hbody]) (by rw [hbody])

theorem answered_eq (body : Bytes) (now : Nat) :
    (∃ denial, (r.answered readers body now) = (.denied denial, []) ∧ denial.status = 502) ∨
      ∃ headers outcome stored, r.answered readers body now =
        (.response r.status headers (some (Stream.ofBytes
          ((if r.soapToJson then readers.soapToJson body else none).getD body))) outcome, stored) := by
  unfold Response.answered
  simp only
  split
  · exact .inl ⟨_, rfl, rfl⟩
  · split
    · exact .inr ⟨_, _, _, rfl⟩
    · exact .inr ⟨_, _, _, rfl⟩

theorem shows_answered {body : Bytes} (hended : Ended r.body) (hbytes : body = received r.body)
    (now : Nat) : Shows readers r (r.answered readers body now).1 := by
  obtain ⟨denial, heq, hstatus⟩ | ⟨headers, outcome, stored, heq⟩ := answered_eq readers r body now
  · rw [heq]
    exact shows_denied readers r (by omega)
  · rw [heq]
    refine ⟨?_, fun hbroken => absurd hended hbroken⟩
    intro headers' body' outcome' hreply hbody'
    simp only [Reply.response.injEq] at hreply
    obtain ⟨-, -, rfl, -⟩ := hreply
    refine ⟨hended, ?_⟩
    rw [received_ofBytes, ← hbytes]
    by_cases hconvert : r.soapToJson = true
    · rw [if_pos hconvert]
      cases hjson : readers.soapToJson body with
      | none => exact .inl rfl
      | some converted => exact .inr ⟨hconvert, rfl⟩
    · rw [if_neg hconvert]
      exact .inl rfl

theorem shows_over {body : Stream} (hbody : r.body = some body) :
    Shows readers r (r.cutOff (some body)) := by
  unfold Response.cutOff
  split
  · exact shows_denied readers r (Nat.le_add_right 500 2)
  · exact shows_forwarded readers r (by rw [hbody]) (by rw [hbody])

theorem shows_gone_iff (hbroken : ¬ Ended r.body) :
    Shows readers r (r.cutOff none) ↔ r.responseState = .blocking := by
  unfold Response.cutOff
  split
  · rename_i hblocking
    exact ⟨fun _ => hblocking, fun _ => shows_denied readers r (Nat.le_add_right 500 2)⟩
  · rename_i hblocking
    refine ⟨fun h => ?_, fun h => absurd h hblocking⟩
    exact absurd (h.whole _ _ _ rfl ended_none).1 hbroken

theorem shows_concluded_iff (now : Nat) :
    Shows readers r (r.concluded readers now).1 ↔ ¬ r.Lost := by
  unfold Response.concluded
  cases hbody : r.body with
  | none =>
    have hended : Ended r.body := by
      rw [hbody]
      exact ended_none
    have hbytes : ([] : Bytes) = received r.body := by
      rw [hbody]
      rfl
    have hshows := shows_answered readers r hended hbytes now
    exact ⟨fun _ hlost => hlost.2.1 hended, fun _ => hshows⟩
  | some body =>
    have hreceived : received r.body = body.bytes := by
      rw [hbody]
      rfl
    simp only [readResumable_eq]
    by_cases hover : r.cap < body.bytes.length
    · rw [if_pos hover]
      refine ⟨fun _ hlost => ?_, fun _ => shows_over readers r hbody⟩
      have hwithin := hlost.2.2
      rw [hreceived] at hwithin
      omega
    · rw [if_neg hover]
      have hended : Ended r.body ↔ body.ending = .done := by
        rw [hbody]
        exact ended_some body
      by_cases hdone : body.ending = .done
      · rw [if_pos hdone]
        refine ⟨fun _ hlost => hlost.2.1 (hended.mpr hdone), fun _ => ?_⟩
        exact shows_answered readers r (hended.mpr hdone) hreceived.symm now
      · rw [if_neg hdone]
        have hbroken : ¬ Ended r.body := fun h => hdone (hended.mp h)
        have hwithin : (received r.body).length ≤ r.cap := by
          rw [hreceived]
          omega
        have hgone := shows_gone_iff readers r hbroken
        refine hgone.trans ⟨fun hblocking hlost => hlost.1 hblocking, fun hkept => ?_⟩
        by_contra hblocking
        exact hkept ⟨hblocking, hbroken, hwithin⟩

theorem ended_of_stored {now : Nat} (h : (r.concluded readers now).2 ≠ []) : Ended r.body := by
  unfold Response.concluded at h
  cases hbody : r.body with
  | none => exact ended_none
  | some body =>
    rw [ended_some]
    by_contra hdone
    simp only [hbody, readResumable_eq, if_neg hdone] at h
    -- A body that breaks off passed the cap or did not: it is over the cap in both cases.
    by_cases hover : r.cap < body.bytes.length
    · rw [if_pos hover] at h
      exact h rfl
    · rw [if_neg hover] at h
      exact h rfl

end

/-! ### Runs of an instance -/

section
variable {readers : Readers} {s next : Instance}

def Accounted (s : Instance) : Prop := s.budget.used = total Work.reserved s.inFlight

theorem accounted_opened (total : Nat) : Accounted (opened total) := rfl

theorem accounted_begin {work : Work} {budget : BlockingBudget} (h : Accounted s)
    (hused : budget.used = s.budget.used + work.reserved) : Accounted (s.begin work budget) := by
  unfold Accounted at h ⊢
  rw [Instance.begin, total_append, total_cons, total_nil, hused, h, Nat.add_zero]

theorem arrive_cases (s : Instance) (r : Response) :
    (∃ reply, s.arrive r = s.reply r reply ∧ (reply = r.streamed ∨ reply = Response.shed)) ∨
      ∃ budget, s.arrive r = s.begin (.response r) budget ∧
        budget.used = s.budget.used + r.reserved := by
  unfold Instance.arrive
  split
  · exact .inl ⟨_, rfl, .inl rfl⟩
  · split
    · rename_i hblocking
      have hreserved : r.reserved = r.cap := if_pos hblocking
      cases hreserve : s.budget.tryReserve r.cap with
      | none => exact .inl ⟨_, rfl, .inr rfl⟩
      | some budget =>
        refine .inr ⟨budget, rfl, ?_⟩
        rw [BlockingBudget.used_tryReserve hreserve, hreserved]
    · rename_i hblocking
      have hreserved : r.reserved = 0 := if_neg hblocking
      exact .inr ⟨s.budget, rfl, by omega⟩

theorem finish_returns (readers : Readers) {index now : Nat} {work : Work} (h : Accounted s)
    (hwork : s.inFlight[index]? = some work) :
    (s.finish readers index now work).inFlight = s.inFlight.eraseIdx index ∧
      (s.finish readers index now work).budget.used + work.reserved = s.budget.used := by
  have hheld := le_total Work.reserved hwork
  rw [← h] at hheld
  cases work with
  | request bytes =>
    have hbytes : bytes ≤ s.budget.used := hheld
    refine ⟨rfl, ?_⟩
    simp only [Instance.finish, BlockingBudget.release, Work.reserved]
    omega
  | response r =>
    refine ⟨rfl, ?_⟩
    by_cases hblocking : r.responseState = .blocking
    · have hreserved : r.reserved = r.cap := if_pos hblocking
      have hcap : r.cap ≤ s.budget.used := hreserved ▸ hheld
      simp only [Instance.finish, hblocking, if_true, BlockingBudget.release, Work.reserved, hreserved]
      omega
    · have hreserved : r.reserved = 0 := if_neg hblocking
      simp only [Instance.finish, hblocking, if_false, Work.reserved, hreserved, Nat.add_zero]

theorem accounted_finish (readers : Readers) {index now : Nat} {work : Work} (h : Accounted s)
    (hwork : s.inFlight[index]? = some work) : Accounted (s.finish readers index now work) := by
  obtain ⟨hflight, hused⟩ := @finish_returns s readers index now work h hwork
  have hleft := total_eraseIdx Work.reserved hwork
  unfold Accounted at h ⊢
  rw [hflight]
  omega

theorem accounted_step {e : Event} (h : Accounted s) (hstep : step readers s e = some next) :
    Accounted next := by
  cases e with
  | reads bytes =>
    obtain ⟨budget, hreserve, rfl⟩ := Option.map_eq_some_iff.mp hstep
    exact accounted_begin h (BlockingBudget.used_tryReserve hreserve)
  | arrives r =>
    cases hstep
    obtain ⟨reply, heq, -⟩ | ⟨budget, heq, hused⟩ := arrive_cases s r
    · rw [heq]
      exact h
    · rw [heq]
      exact accounted_begin h hused
  | finishes index now =>
    obtain ⟨work, hwork, rfl⟩ := Option.map_eq_some_iff.mp hstep
    exact accounted_finish readers h hwork
  | resizes total =>
    cases hstep
    exact h

theorem reply_inj {replies : List (Response × Reply)} {r r' : Response} {reply reply' : Reply}
    (h : replies ++ [(r, reply)] = replies ++ [(r', reply')]) : r = r' ∧ reply = reply' := by
  have hlast := List.append_cancel_left h
  simp only [List.cons.injEq, Prod.mk.injEq, and_true] at hlast
  exact hlast

theorem keepsTrack_of_ne {e : Event} (hreads : ∀ index now, e ≠ .finishes index now) :
    KeepsTrack s e :=
  fun index now _ he => absurd he (hreads index now)

theorem promised_quiet {e : Event} (hreplies : next.replies = s.replies)
    (hstored : next.stored = s.stored)
    (hreturned : ∀ index now work, e = .finishes index now → s.inFlight[index]? = some work →
      next.inFlight = s.inFlight.eraseIdx index ∧ next.budget.used + work.reserved = s.budget.used)
    (h : Accounted next) : Promised readers s e next where
  answers r reply hreply := by
    have hlength := congrArg List.length (hreplies.symm.trans hreply)
    simp at hlength
  stored hnew := absurd hstored hnew
  returned := hreturned
  budget := h

theorem promised_arrives (r : Response) (h : Accounted (s.arrive r)) :
    Promised readers s (.arrives r) (s.arrive r) := by
  obtain ⟨reply, heq, hkind⟩ | ⟨budget, heq, -⟩ := arrive_cases s r
  · rw [heq] at h ⊢
    refine ⟨fun r' reply' hreply => ?_, fun hnew => absurd rfl hnew,
      fun _ _ _ he => absurd he nofun, h⟩
    obtain ⟨rfl, rfl⟩ := reply_inj hreply
    rcases hkind with rfl | rfl
    · exact shows_streamed readers r
    · exact shows_denied readers r (Nat.le_add_right 500 2)
  · rw [heq] at h ⊢
    exact promised_quiet rfl rfl (fun _ _ _ he => absurd he nofun) h

theorem promised_finishes_iff {index now : Nat} {r : Response} (h : Accounted s)
    (hwork : s.inFlight[index]? = some (.response r)) :
    Promised readers s (.finishes index now) (s.finish readers index now (.response r)) ↔
      Shows readers r (r.concluded readers now).1 := by
  have hnext := @accounted_finish s readers index now (.response r) h hwork
  constructor
  · intro hpromised
    exact hpromised.answers r _ rfl
  · intro hshows
    refine ⟨fun r' reply' hreply => ?_, fun hnew => ?_, fun index' now' work he hwork' => ?_, hnext⟩
    · obtain ⟨rfl, rfl⟩ := reply_inj hreply
      exact hshows
    · refine ⟨r, _, rfl, @ended_of_stored readers r now fun hnone => hnew ?_⟩
      have happend : (s.finish readers index now (.response r)).stored =
          s.stored ++ (r.concluded readers now).2 := rfl
      rw [happend, hnone, List.append_nil]
    · simp only [Event.finishes.injEq] at he
      obtain ⟨rfl, rfl⟩ := he
      obtain rfl := Option.some.inj (hwork.symm.trans hwork')
      exact finish_returns readers h hwork

theorem promised_iff {e : Event} (h : Accounted s) (hstep : step readers s e = some next) :
    Promised readers s e next ↔ KeepsTrack s e := by
  have hnext := accounted_step h hstep
  cases e with
  | reads bytes =>
    obtain ⟨budget, -, rfl⟩ := Option.map_eq_some_iff.mp hstep
    exact ⟨fun _ => keepsTrack_of_ne nofun, fun _ => promised_quiet rfl rfl (fun _ _ _ he => absurd he nofun) hnext⟩
  | arrives r =>
    cases hstep
    exact ⟨fun _ => keepsTrack_of_ne nofun, fun _ => promised_arrives r hnext⟩
  | finishes index now =>
    obtain ⟨work, hwork, rfl⟩ := Option.map_eq_some_iff.mp hstep
    cases work with
    | request bytes =>
      constructor
      · intro _ index' now' r he hresponse
        simp only [Event.finishes.injEq] at he
        obtain ⟨rfl, -⟩ := he
        rw [hwork] at hresponse
        cases hresponse
      · intro _
        refine promised_quiet rfl rfl (fun index' now' work he hwork' => ?_) hnext
        simp only [Event.finishes.injEq] at he
        obtain ⟨rfl, rfl⟩ := he
        obtain rfl := Option.some.inj (hwork.symm.trans hwork')
        exact finish_returns readers h hwork
    | response r =>
      rw [promised_finishes_iff h hwork, shows_concluded_iff]
      constructor
      · intro hkept index' now' r' he hresponse
        simp only [Event.finishes.injEq] at he
        obtain ⟨rfl, -⟩ := he
        rw [hwork] at hresponse
        cases hresponse
        exact hkept
      · intro hkept
        exact hkept index now r rfl hwork
  | resizes total =>
    cases hstep
    exact ⟨fun _ => keepsTrack_of_ne nofun, fun _ => promised_quiet rfl rfl (fun _ _ _ he => absurd he nofun) hnext⟩

end

/-- Along every run of an instance, what its callers are answered shows what became of the bodies,
no broken body is stored and the budget holds what is in flight, if and only if no read ends with a
response that nobody blocks on and that breaks off within its cap. -/
theorem bodies_shown_iff (readers : Readers) (total : Nat) (events : List Event) :
    EveryStep (step readers) (Promised readers) (opened total) events ↔
      EveryStep (step readers) (fun s e _ => KeepsTrack s e) (opened total) events := by
  have hkept : ∀ s e next, Accounted s → step readers s e = some next → Accounted next :=
    fun _ _ _ => accounted_step
  have hagree : ∀ s e next, Accounted s → step readers s e = some next →
      (Promised readers s e next ↔ KeepsTrack s e) :=
    fun _ _ _ => promised_iff
  exact everyStep_congr_of_invariant hkept hagree (accounted_opened total) events

/-- Three bytes of a cacheable answer, and then the backend's connection is lost. -/
def cutShort : Response where
  status := 200
  headers := Headers.empty
  body := some ⟨[[72, 97, 108]], .broken⟩
  kind := .rest
  validate := {}
  artifact := none
  operation := none
  soapToJson := false
  cacheKey := some "GET /pets"
  cacheUnit := some { ttlSec := 60 }
  captureBodies := false
  maxBodyBytes := 1024

def plainReaders : Readers := ⟨fun _ _ => OK, fun _ => none, fun _ _ => false⟩

/-- The caller of a route with a cache is answered `200` with an empty body that ends normally. -/
theorem broken_becomes_empty :
    ¬ EveryStep (step plainReaders) (Promised plainReaders) (opened 0)
        [.arrives cutShort, .finishes 0 0] ∧
      (cutShort.concluded plainReaders 0).1 = .response 200 Headers.empty none .ok := by
  have hbroken : ¬ Ended cutShort.body := by
    intro hended
    cases hended _ rfl
  have hlost : cutShort.Lost := by
    refine ⟨?_, hbroken, ?_⟩
    · decide
    · decide
  have harrives : step plainReaders (opened 0) (.arrives cutShort) =
      some ((opened 0).begin (.response cutShort) ⟨0, 0⟩) := by
    have hwants : cutShort.wantsResponseWork = true := by decide
    have hstate : cutShort.responseState ≠ .blocking := by decide
    rw [step, Instance.arrive, if_neg (by rw [hwants]; decide), if_neg hstate]
    rfl
  refine ⟨fun h => ?_, rfl⟩
  obtain ⟨-, hrest⟩ := h _ harrives
  obtain ⟨hpromised, -⟩ := hrest _ rfl
  have hshows := hpromised.answers cutShort _ rfl
  exact (shows_concluded_iff plainReaders cutShort 0).mp hshows hlost

end Apim.DataPlane.Delivery
