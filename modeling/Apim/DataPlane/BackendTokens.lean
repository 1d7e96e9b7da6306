import Apim.DataPlane.BackendAuth
import Apim.Lib.Trace
import Mathlib.Data.Rat.Defs
import Mathlib.Algebra.Order.Ring.Rat
import Mathlib.Tactic.Linarith

/-!
# The tokens of backends

A gateway keeps one cache of provider tokens for its whole life (`data-plane/src/backend-auth.ts:44-107`),
across the documents it activates. A request that finds no live token joins the fetch that is under
way for its key, or begins one; all that wait on a fetch resume one by one once it has settled, and
each writes the cache and takes the fetch off the table. A backend that answers 401 or 403 has the
token of its key dropped (`data-plane/src/pipeline.ts:1672-1679`).
-/

namespace Apim.DataPlane.BackendTokens
open Apim.Overlay

structure TokenUse where
  document : Nat
  ref : RefName
  scope : Option String
  invalidateOnStatus : Option (List Nat)
  provider : ConfigTokenProvider
  deriving DecidableEq

def TokenUse.key (use : TokenUse) : String := use.ref.text ++ "|" ++ use.scope.getD ""

structure TokenRequest where
  tokenUrl : String
  credential : String
  scope : Option String
  deriving DecidableEq

def fetchToken (provider : ConfigTokenProvider) (scope : Option String) : TokenRequest where
  tokenUrl := provider.tokenUrl
  credential := provider.credential
  scope := (scope.or provider.scope).filter (· ≠ "")

inductive Answer where
  | token (accessToken : String) (expiresIn : Option ℚ)
  | failed
  deriving DecidableEq

def lifetime (provider : ConfigTokenProvider) (expiresIn : Option ℚ) : ℚ :=
  max 1 (expiresIn.getD 300 - (provider.skewSec.getD 30 : ℕ))

structure Settled where
  atMs : Nat
  answer : Answer
  deriving DecidableEq

structure Fetch where
  use : TokenUse
  begun : Nat
  settled : Option Settled
  deriving DecidableEq

def Fetch.request (fetch : Fetch) : TokenRequest := fetchToken fetch.use.provider fetch.use.scope

structure CachedToken where
  value : String
  expiresAtMs : ℚ
  fetch : Nat
  deriving DecidableEq

def Fetch.token? (fetch : Fetch) (number : Nat) : Option CachedToken :=
  match fetch.settled with
  | some ⟨atMs, .token accessToken expiresIn⟩ =>
    some ⟨accessToken, atMs + lifetime fetch.use.provider expiresIn * 1000, number⟩
  | _ => none

structure Waiter where
  use : TokenUse
  fetch : Nat
  deriving DecidableEq

structure Presented where
  use : TokenUse
  token : CachedToken
  turn : Nat
  atMs : Nat
  deriving DecidableEq

structure TokenState where
  nowMs : Nat
  turn : Nat
  documents : List (Dict String ConfigTokenProvider)
  tokens : Dict String CachedToken
  inFlight : Dict String Nat
  fetches : List Fetch
  waiting : List Waiter
  presented : List Presented
  invalidations : List (String × Nat)

def TokenState.initial (nowMs : Nat) : TokenState :=
  ⟨nowMs, 0, [], ∅, ∅, [], [], [], []⟩

inductive Event where
  | pass (ms : Nat)
  | activate (tokenProviders : Dict String ConfigTokenProvider)
  | ask (document : Nat) (ref : RefName) (scope : Option String)
      (invalidateOnStatus : Option (List Nat))
  | settle (fetch : Nat) (answer : Answer)
  | resume (waiter : Nat)
  | response (presented : Nat) (status : Nat)

def TokenState.live (s : TokenState) (key : String) : Option CachedToken :=
  (s.tokens.lookup key).filter fun cached => (s.nowMs : ℚ) < cached.expiresAtMs

def TokenState.give (s : TokenState) (use : TokenUse) (token : CachedToken) : TokenState :=
  { s with presented := s.presented ++ [⟨use, token, s.turn, s.nowMs⟩] }

def TokenState.get (s : TokenState) (use : TokenUse) : TokenState :=
  match s.live use.key with
  | some cached => s.give use cached
  | none =>
    match s.inFlight.lookup use.key with
    | some pending => { s with waiting := s.waiting ++ [⟨use, pending⟩] }
    | none =>
      { s with
        fetches := s.fetches ++ [⟨use, s.turn, none⟩]
        inFlight := s.inFlight.insert use.key s.fetches.length
        waiting := s.waiting ++ [⟨use, s.fetches.length⟩] }

def TokenState.invalidate (s : TokenState) (key : String) : TokenState :=
  { s with
    tokens := s.tokens.erase key
    invalidations := s.invalidations ++ [(key, s.turn)] }

/-- The rest of `get` for one that awaited: the cache is written, and the fetch taken off. -/
def TokenState.resumed (s : TokenState) (number : Nat) (waiter : Waiter) (fetch : Fetch) : TokenState :=
  let left :=
    { s with
      waiting := s.waiting.eraseIdx number
      inFlight := s.inFlight.erase waiter.use.key }
  match fetch.token? waiter.fetch with
  | some token => { left with tokens := s.tokens.insert waiter.use.key token }.give waiter.use token
  | none => left

def TokenState.provider? (s : TokenState) (document : Nat) (ref : RefName) : Option ConfigTokenProvider :=
  s.documents[document]?.bind fun tokenProviders => tokenProviders.lookup ref.text

def invalidates (use : TokenUse) (status : Nat) : Bool :=
  (use.invalidateOnStatus.getD [401, 403]).contains status

def effect (s : TokenState) : Event → Option TokenState
  | .pass ms => some { s with nowMs := s.nowMs + ms }
  | .activate tokenProviders => some { s with documents := s.documents ++ [tokenProviders] }
  | .ask document ref scope invalidateOnStatus =>
    match s.provider? document ref with
    | none => some s
    | some provider => some (s.get ⟨document, ref, scope, invalidateOnStatus, provider⟩)
  | .settle fetch answer => do
    let pending ← s.fetches[fetch]?
    if pending.settled.isSome then none
    else some { s with
      fetches := s.fetches.set fetch { pending with settled := some ⟨s.nowMs, answer⟩ } }
  | .resume number => do
    let waiter ← s.waiting[number]?
    let fetch ← s.fetches[waiter.fetch]?
    if fetch.settled.isSome then some (s.resumed number waiter fetch) else none
  | .response number status => do
    let given ← s.presented[number]?
    if invalidates given.use status then some (s.invalidate given.use.key) else some s

def step (s : TokenState) (e : Event) : Option TokenState :=
  (effect s e).map fun next => { next with turn := s.turn + 1 }

/-! ### What is promised -/

/-- The token was fetched with the URL, the credential and the scope that the document of the request
gives for its names; it is alive; and no fetch that began before an invalidation of its key issued it. -/
structure Presented.Sound (s : TokenState) (given : Presented) (fetch : Fetch) : Prop where
  issued : fetch.token? given.token.fetch = some given.token
  own : (s.provider? given.use.document given.use.ref).map (fetchToken · given.use.scope) =
    some fetch.request
  unexpired : (given.atMs : ℚ) < given.token.expiresAtMs
  alive : ∃ atMs accessToken expiresIn, fetch.settled = some ⟨atMs, .token accessToken expiresIn⟩ ∧
    (given.atMs : ℚ) < atMs + expiresIn.getD 300 * 1000
  fresh : ∀ turn, (given.use.key, turn) ∈ s.invalidations → turn < given.turn → turn < fetch.begun

structure Kept (s : TokenState) : Prop where
  once : ∀ (i j : Nat) (f g : Fetch), s.fetches[i]? = some f → s.fetches[j]? = some g → f.settled = none →
    g.settled = none → f.use.key = g.use.key → i = j
  shared : ∀ p ∈ s.presented, ∀ q ∈ s.presented, p.token.fetch = q.token.fetch →
    p.use.ref = q.use.ref ∧ p.use.scope = q.use.scope
  sound : ∀ p ∈ s.presented, ∃ fetch, s.fetches[p.token.fetch]? = some fetch ∧ p.Sound s fetch

/-! ### The condition -/

def TokenState.source (s : TokenState) (key : String) : Option Nat :=
  match s.live key with
  | some cached => some cached.fetch
  | none => s.inFlight.lookup key

/-- A request finds a fetch that was begun for its own scope and its own provider, and asks when no
request for its key is still to resume from a settled fetch; an endpoint answers with a lifetime of
one second at least; a waiter resumes before its token has expired; and no request is waiting on a
fetch of a key when the key is invalidated. -/
def Steady (s : TokenState) : Event → Prop
  | .ask document ref scope invalidateOnStatus => ∀ provider, s.provider? document ref = some provider →
    let use : TokenUse := ⟨document, ref, scope, invalidateOnStatus, provider⟩
    (∀ (i : Nat) (fetch : Fetch), s.source use.key = some i → s.fetches[i]? = some fetch →
      fetch.use.scope = scope ∧ fetch.request = fetchToken provider scope) ∧
    (s.live use.key = none → ∀ waiter ∈ s.waiting, waiter.use.key = use.key →
      ∀ fetch : Fetch, s.fetches[waiter.fetch]? = some fetch → fetch.settled = none)
  | .settle _ (.token _ expiresIn) => 1 ≤ expiresIn.getD 300
  | .resume number => ∀ (waiter : Waiter) (fetch : Fetch) (token : CachedToken),
    s.waiting[number]? = some waiter → s.fetches[waiter.fetch]? = some fetch →
      fetch.token? waiter.fetch = some token → (s.nowMs : ℚ) < token.expiresAtMs
  | .response number status => ∀ given, s.presented[number]? = some given →
    invalidates given.use status = true → ∀ waiter ∈ s.waiting, waiter.use.key ≠ given.use.key
  | _ => True

/-! ### What holds along a steady run -/

structure Serves (s : TokenState) (use : TokenUse) (fetch : Fetch) : Prop where
  ref : fetch.use.ref = use.ref
  scope : fetch.use.scope = use.scope
  own : (s.provider? use.document use.ref).map (fetchToken · use.scope) = some fetch.request
  fresh : ∀ turn, (use.key, turn) ∈ s.invalidations → turn < fetch.begun

structure Inv (s : TokenState) : Prop where
  pending : ∀ (i : Nat) (f : Fetch), s.fetches[i]? = some f → f.settled = none →
    s.inFlight.lookup f.use.key = some i
  joined : ∀ key i, s.inFlight.lookup key = some i → ∃ w ∈ s.waiting, w.fetch = i ∧ w.use.key = key
  waiting : ∀ w ∈ s.waiting, ∃ f, s.fetches[w.fetch]? = some f ∧ Serves s w.use f
  alone : ∀ w ∈ s.waiting, ∀ f : Fetch, s.fetches[w.fetch]? = some f → f.settled.isSome →
    ∀ (i : Nat) (g : Fetch), s.fetches[i]? = some g → g.settled = none → g.use.key ≠ w.use.key
  cached : ∀ key token, s.tokens.lookup key = some token → ∃ f, s.fetches[token.fetch]? = some f ∧
    f.token? token.fetch = some token ∧ f.use.key = key ∧
    ∀ turn, (key, turn) ∈ s.invalidations → turn < f.begun
  lifetimes : ∀ (i : Nat) (f : Fetch) atMs accessToken expiresIn, s.fetches[i]? = some f →
    f.settled = some ⟨atMs, .token accessToken expiresIn⟩ → 1 ≤ expiresIn.getD 300
  presented : ∀ p ∈ s.presented, ∃ f, s.fetches[p.token.fetch]? = some f ∧ p.Sound s f ∧
    f.use.ref = p.use.ref ∧ f.use.scope = p.use.scope
  turns : ∀ key turn, (key, turn) ∈ s.invalidations → turn < s.turn
  given : ∀ p ∈ s.presented, p.turn < s.turn

variable {use : TokenUse}

theorem Serves.key {s : TokenState} {fetch : Fetch} (h : Serves s use fetch) :
    fetch.use.key = use.key := by
  rw [TokenUse.key, TokenUse.key, h.ref, h.scope]

theorem ref_of_key {use' : TokenUse} (h : use.key = use'.key) : use.ref = use'.ref :=
  (tokenCacheKey_inj h).1

structure Later (s next : TokenState) : Prop where
  own : ∀ document ref scope request,
    (s.provider? document ref).map (fetchToken · scope) = some request →
      (next.provider? document ref).map (fetchToken · scope) = some request
  fetches : ∀ (i : Nat) (f : Fetch), s.fetches[i]? = some f → ∃ f' : Fetch,
    next.fetches[i]? = some f' ∧ f'.use = f.use ∧ f'.begun = f.begun ∧ (f.settled.isSome → f' = f)
  invalidations : ∀ key turn, (key, turn) ∈ next.invalidations →
    (key, turn) ∈ s.invalidations ∨ turn = s.turn
  turn : next.turn = s.turn + 1

variable {number : Nat} {token : CachedToken}

section
variable {s next : TokenState}

theorem settled_of_token {f : Fetch} (h : f.token? number = some token) :
    ∃ atMs accessToken expiresIn,
      f.settled = some ⟨atMs, .token accessToken expiresIn⟩ ∧
      token = ⟨accessToken, atMs + lifetime f.use.provider expiresIn * 1000, number⟩ := by
  unfold Fetch.token? at h
  split at h
  · rename_i atMs accessToken expiresIn hsettled
    exact ⟨atMs, accessToken, expiresIn, hsettled, (Option.some.inj h).symm⟩
  · cases h

theorem presented_later (hs : Inv s) (hlater : Later s next) (p : Presented) (hp : p ∈ s.presented) :
    ∃ f, next.fetches[p.token.fetch]? = some f ∧ p.Sound next f ∧
      f.use.ref = p.use.ref ∧ f.use.scope = p.use.scope := by
  obtain ⟨f, hf, hsound, hnames⟩ := hs.presented p hp
  obtain ⟨atMs, accessToken, expiresIn, hsettled, -⟩ := settled_of_token hsound.issued
  obtain ⟨f', hf', -, -, hkeep⟩ := hlater.fetches _ f hf
  have heq : f' = f := hkeep (by rw [hsettled]; rfl)
  rw [heq] at hf'
  have hfresh : ∀ turn, (p.use.key, turn) ∈ next.invalidations → turn < p.turn → turn < f.begun := by
    intro turn hturn hbefore
    cases hlater.invalidations _ _ hturn with
    | inl hold => exact hsound.fresh turn hold hbefore
    | inr hnow =>
      have hpast := hs.given p hp
      omega
  exact ⟨f, hf', ⟨hsound.issued, hlater.own _ _ _ _ hsound.own, hsound.unexpired, hsound.alive, hfresh⟩,
    hnames⟩

theorem cached_later (hs : Inv s) (hlater : Later s next) {key : String}
    (htoken : s.tokens.lookup key = some token)
    (hkept : ∀ turn, (key, turn) ∈ next.invalidations → (key, turn) ∈ s.invalidations) :
    ∃ f, next.fetches[token.fetch]? = some f ∧ f.token? token.fetch = some token ∧ f.use.key = key ∧
      ∀ turn, (key, turn) ∈ next.invalidations → turn < f.begun := by
  obtain ⟨f, hf, hissued, hkey, hfresh⟩ := hs.cached key token htoken
  obtain ⟨atMs, accessToken, expiresIn, hsettled, -⟩ := settled_of_token hissued
  obtain ⟨f', hf', -, -, hkeep⟩ := hlater.fetches _ f hf
  have heq : f' = f := hkeep (by rw [hsettled]; rfl)
  rw [heq] at hf'
  exact ⟨f, hf', hissued, hkey, fun turn hturn => hfresh turn (hkept turn hturn)⟩

theorem waiting_later (hs : Inv s) (hlater : Later s next) {w : Waiter} (hw : w ∈ s.waiting)
    (hkept : ∀ turn, (w.use.key, turn) ∈ next.invalidations → (w.use.key, turn) ∈ s.invalidations) :
    ∃ f, next.fetches[w.fetch]? = some f ∧ Serves next w.use f := by
  obtain ⟨f, hf, hserves⟩ := hs.waiting w hw
  obtain ⟨f', hf', huse, hbegun, -⟩ := hlater.fetches _ f hf
  have hrequest : f'.request = f.request := by rw [Fetch.request, Fetch.request, huse]
  refine ⟨f', hf', ?_, ?_, ?_, ?_⟩
  · rw [huse]
    exact hserves.ref
  · rw [huse]
    exact hserves.scope
  · rw [hrequest]
    exact hlater.own _ _ _ _ hserves.own
  · intro turn hturn
    rw [hbegun]
    exact hserves.fresh turn (hkept turn hturn)

theorem sound_of_issued {f : Fetch} (hlifetimes : ∀ atMs accessToken expiresIn,
      f.settled = some ⟨atMs, .token accessToken expiresIn⟩ → 1 ≤ expiresIn.getD 300)
    (hissued : f.token? token.fetch = some token) (hunexpired : (s.nowMs : ℚ) < token.expiresAtMs)
    (hown : (s.provider? use.document use.ref).map (fetchToken · use.scope) = some f.request)
    (hfresh : ∀ turn, (use.key, turn) ∈ s.invalidations → turn < f.begun) :
    (⟨use, token, s.turn, s.nowMs⟩ : Presented).Sound s f := by
  obtain ⟨atMs, accessToken, expiresIn, hsettled, htoken⟩ := settled_of_token hissued
  have hexpires : token.expiresAtMs = atMs + lifetime f.use.provider expiresIn * 1000 := by
    rw [htoken]
  have hone := hlifetimes atMs accessToken expiresIn hsettled
  have hskew : (0 : ℚ) ≤ (f.use.provider.skewSec.getD 30 : ℕ) := Nat.cast_nonneg _
  have hlifetime : lifetime f.use.provider expiresIn ≤ expiresIn.getD 300 :=
    max_le hone (by linarith)
  have halive : (s.nowMs : ℚ) < atMs + expiresIn.getD 300 * 1000 := by
    rw [hexpires] at hunexpired
    linarith
  exact ⟨hissued, hown, hunexpired, ⟨atMs, accessToken, expiresIn, hsettled, halive⟩,
    fun turn hturn _ => hfresh turn hturn⟩

end

/-! ### One step -/

section
variable {s : TokenState}

theorem inv_unchanged (hs : Inv s) (nowMs : Nat) (more : List (Dict String ConfigTokenProvider)) :
    Inv { s with nowMs := nowMs, documents := s.documents ++ more, turn := s.turn + 1 } := by
  have hlater : Later s
      { s with nowMs := nowMs, documents := s.documents ++ more, turn := s.turn + 1 } := by
    refine ⟨?_, fun i f hf => ⟨f, hf, rfl, rfl, fun _ => rfl⟩, fun _ _ h => .inl h, rfl⟩
    intro document ref scope request h
    unfold TokenState.provider? at h ⊢
    cases hdocument : s.documents[document]? with
    | none =>
      rw [hdocument] at h
      cases h
    | some tokenProviders =>
      have hlt := (List.getElem?_eq_some_iff.mp hdocument).1
      rw [List.getElem?_append_left hlt, hdocument]
      rwa [hdocument] at h
  exact {
    pending := hs.pending
    joined := hs.joined
    waiting := fun w hw => waiting_later hs hlater hw fun _ h => h
    alone := hs.alone
    cached := fun key token h => cached_later hs hlater h fun _ h => h
    lifetimes := hs.lifetimes
    presented := fun p hp => presented_later hs hlater p hp
    turns := fun key turn h => Nat.lt_succ_of_lt (hs.turns key turn h)
    given := fun p hp => Nat.lt_succ_of_lt (hs.given p hp) }

theorem inv_give (hs : Inv s) (hlive : s.live use.key = some token)
    (hown : (s.provider? use.document use.ref).map (fetchToken · use.scope) =
      some (fetchToken use.provider use.scope))
    (hsource : ∀ (i : Nat) (f : Fetch), s.source use.key = some i → s.fetches[i]? = some f →
      f.use.scope = use.scope ∧ f.request = fetchToken use.provider use.scope) :
    Inv { s.give use token with turn := s.turn + 1 } := by
  have hlater : Later s { s.give use token with turn := s.turn + 1 } :=
    ⟨fun _ _ _ _ h => h, fun i f hf => ⟨f, hf, rfl, rfl, fun _ => rfl⟩, fun _ _ h => .inl h, rfl⟩
  obtain ⟨htoken, halive⟩ := Option.filter_eq_some_iff.mp hlive
  obtain ⟨f, hf, hissued, hkey, hfresh⟩ := hs.cached _ _ htoken
  have hat : s.source use.key = some token.fetch := by
    unfold TokenState.source
    rw [hlive]
  obtain ⟨hscope, hrequest⟩ := hsource _ f hat hf
  have hsound : (⟨use, token, s.turn, s.nowMs⟩ : Presented).Sound s f :=
    sound_of_issued (fun atMs accessToken expiresIn => hs.lifetimes _ f atMs accessToken expiresIn hf)
      hissued (of_decide_eq_true halive) (by rw [hrequest]; exact hown) hfresh
  exact {
    pending := hs.pending
    joined := hs.joined
    waiting := fun w hw => waiting_later hs hlater hw fun _ h => h
    alone := hs.alone
    cached := fun key token h => cached_later hs hlater h fun _ h => h
    lifetimes := hs.lifetimes
    presented := by
      intro p hp
      cases List.mem_append.mp hp with
      | inl hold => exact presented_later hs hlater p hold
      | inr hnew =>
        obtain rfl := List.mem_singleton.mp hnew
        exact ⟨f, hf, ⟨hsound.issued, hsound.own, hsound.unexpired, hsound.alive, hsound.fresh⟩,
          ref_of_key hkey, hscope⟩
    turns := fun key turn h => Nat.lt_succ_of_lt (hs.turns key turn h)
    given := by
      intro p hp
      cases List.mem_append.mp hp with
      | inl hold => exact Nat.lt_succ_of_lt (hs.given p hold)
      | inr hnew =>
        obtain rfl := List.mem_singleton.mp hnew
        exact Nat.lt_succ_self _ }

theorem inv_join (hs : Inv s) {pending : Nat} (hpending : s.inFlight.lookup use.key = some pending)
    (hown : (s.provider? use.document use.ref).map (fetchToken · use.scope) =
      some (fetchToken use.provider use.scope)) (hsource : ∀ f : Fetch, s.fetches[pending]? = some f →
      f.use.scope = use.scope ∧ f.request = fetchToken use.provider use.scope)
    (hawaits : ∀ w ∈ s.waiting, w.use.key = use.key → ∀ f : Fetch, s.fetches[w.fetch]? = some f →
      f.settled = none) :
    Inv { s with waiting := s.waiting ++ [⟨use, pending⟩], turn := s.turn + 1 } := by
  have hlater : Later s { s with waiting := s.waiting ++ [⟨use, pending⟩], turn := s.turn + 1 } :=
    ⟨fun _ _ _ _ h => h, fun i f hf => ⟨f, hf, rfl, rfl, fun _ => rfl⟩, fun _ _ h => .inl h, rfl⟩
  obtain ⟨w, hw, hfetch, hkey⟩ := hs.joined _ _ hpending
  obtain ⟨f, hf, hserves⟩ := hs.waiting w hw
  rw [hfetch] at hf
  obtain ⟨hscope, hrequest⟩ := hsource f hf
  have hserves' : Serves s use f := by
    refine ⟨hserves.ref.trans (ref_of_key hkey), hscope, by rw [hrequest]; exact hown, ?_⟩
    intro turn hturn
    rw [← hkey] at hturn
    exact hserves.fresh turn hturn
  exact {
    pending := hs.pending
    joined := by
      intro key i h
      obtain ⟨w, hw, hrest⟩ := hs.joined key i h
      exact ⟨w, List.mem_append_left _ hw, hrest⟩
    waiting := by
      intro v hv
      cases List.mem_append.mp hv with
      | inl hold => exact waiting_later hs hlater hold fun _ h => h
      | inr hnew =>
        obtain rfl := List.mem_singleton.mp hnew
        exact ⟨f, hf, ⟨hserves'.ref, hserves'.scope, hserves'.own, hserves'.fresh⟩⟩
    alone := by
      intro v hv g hg hsettled
      cases List.mem_append.mp hv with
      | inl hold => exact hs.alone v hold g hg hsettled
      | inr hnew =>
        obtain rfl := List.mem_singleton.mp hnew
        have hopen := hawaits w hw hkey g (by rw [hfetch]; exact hg)
        rw [hopen] at hsettled
        cases hsettled
    cached := fun key token h => cached_later hs hlater h fun _ h => h
    lifetimes := hs.lifetimes
    presented := fun p hp => presented_later hs hlater p hp
    turns := fun key turn h => Nat.lt_succ_of_lt (hs.turns key turn h)
    given := fun p hp => Nat.lt_succ_of_lt (hs.given p hp) }

theorem inv_begin (hs : Inv s) (hnone : s.inFlight.lookup use.key = none)
    (hown : (s.provider? use.document use.ref).map (fetchToken · use.scope) =
      some (fetchToken use.provider use.scope))
    (hawaits : ∀ w ∈ s.waiting, w.use.key = use.key → ∀ f : Fetch, s.fetches[w.fetch]? = some f →
      f.settled = none) :
    Inv { s with
      fetches := s.fetches ++ [⟨use, s.turn, none⟩]
      inFlight := s.inFlight.insert use.key s.fetches.length
      waiting := s.waiting ++ [⟨use, s.fetches.length⟩]
      turn := s.turn + 1 } := by
  have hold : ∀ (i : Nat) (f : Fetch), s.fetches[i]? = some f →
      (s.fetches ++ [⟨use, s.turn, none⟩])[i]? = some f := by
    intro i f hf
    rw [List.getElem?_append_left (List.getElem?_eq_some_iff.mp hf).1]
    exact hf
  have hcases : ∀ (i : Nat) (f : Fetch), (s.fetches ++ [⟨use, s.turn, none⟩])[i]? = some f →
      s.fetches[i]? = some f ∨ (i = s.fetches.length ∧ f = ⟨use, s.turn, none⟩) := by
    intro i f hf
    rw [List.getElem?_append] at hf
    split at hf
    · exact .inl hf
    · obtain ⟨hlt, heq⟩ := List.getElem?_eq_some_iff.mp hf
      simp only [List.length_singleton] at hlt
      have hzero : i - s.fetches.length = 0 := by omega
      simp only [hzero, List.getElem_cons_zero] at heq
      exact .inr ⟨by omega, heq.symm⟩
  have hlater : Later s { s with
      fetches := s.fetches ++ [⟨use, s.turn, none⟩]
      inFlight := s.inFlight.insert use.key s.fetches.length
      waiting := s.waiting ++ [⟨use, s.fetches.length⟩]
      turn := s.turn + 1 } :=
    ⟨fun _ _ _ _ h => h, fun i f hf => ⟨f, hold i f hf, rfl, rfl, fun _ => rfl⟩, fun _ _ h => .inl h, rfl⟩
  -- A request that waits for this key would await an open fetch, which would be on the table.
  have hnobody : ∀ w ∈ s.waiting, w.use.key ≠ use.key := by
    intro w hw hkey
    obtain ⟨f, hf, hserves⟩ := hs.waiting w hw
    have hopen := hawaits w hw hkey f hf
    have htable := hs.pending _ f hf hopen
    rw [hserves.key, hkey, hnone] at htable
    cases htable
  exact {
    pending := by
      intro i f hf hopen
      cases hcases i f hf with
      | inl hin =>
        have htable := hs.pending i f hin hopen
        by_cases hkey : f.use.key = use.key
        · rw [hkey, hnone] at htable
          cases htable
        · rw [AList.lookup_insert_ne hkey]
          exact htable
      | inr hnew =>
        obtain ⟨rfl, rfl⟩ := hnew
        exact AList.lookup_insert _
    joined := by
      intro key i h
      by_cases hkey : key = use.key
      · subst hkey
        rw [AList.lookup_insert] at h
        exact ⟨⟨use, s.fetches.length⟩, List.mem_append_right _ (List.mem_singleton.mpr rfl),
          Option.some.inj h, rfl⟩
      · rw [AList.lookup_insert_ne hkey] at h
        obtain ⟨w, hw, hrest⟩ := hs.joined key i h
        exact ⟨w, List.mem_append_left _ hw, hrest⟩
    waiting := by
      intro w hw
      cases List.mem_append.mp hw with
      | inl hin => exact waiting_later hs hlater hin fun _ h => h
      | inr hnew =>
        obtain rfl := List.mem_singleton.mp hnew
        refine ⟨⟨use, s.turn, none⟩, ?_, ⟨rfl, rfl, hown, fun turn h => hs.turns _ _ h⟩⟩
        simp
    alone := by
      intro w hw f hf hsettled i g hg hopen
      cases List.mem_append.mp hw with
      | inl hin =>
        cases hcases i g hg with
        | inl hgin =>
          cases hcases w.fetch f hf with
          | inl hfin => exact hs.alone w hin f hfin hsettled i g hgin hopen
          | inr hnew =>
            rw [hnew.2] at hsettled
            cases hsettled
        | inr hnew =>
          rw [hnew.2]
          exact fun hkey => hnobody w hin hkey.symm
      | inr hnew =>
        obtain rfl := List.mem_singleton.mp hnew
        cases hcases _ f hf with
        | inl hfin =>
          have hlt := (List.getElem?_eq_some_iff.mp hfin).1
          simp at hlt
        | inr hnew =>
          rw [hnew.2] at hsettled
          cases hsettled
    cached := fun key token h => cached_later hs hlater h fun _ h => h
    lifetimes := by
      intro i f atMs accessToken expiresIn hf hsettled
      cases hcases i f hf with
      | inl hin => exact hs.lifetimes i f atMs accessToken expiresIn hin hsettled
      | inr hnew =>
        rw [hnew.2] at hsettled
        cases hsettled
    presented := fun p hp => presented_later hs hlater p hp
    turns := fun key turn h => Nat.lt_succ_of_lt (hs.turns key turn h)
    given := fun p hp => Nat.lt_succ_of_lt (hs.given p hp) }

theorem inv_settle (hs : Inv s) {fetch : Fetch} (hfetch : s.fetches[number]? = some fetch)
    (hopen : fetch.settled = none) {answer : Answer}
    (hlifetime : ∀ accessToken expiresIn, answer = .token accessToken expiresIn →
      1 ≤ expiresIn.getD 300) :
    Inv { s with
      fetches := s.fetches.set number { fetch with settled := some ⟨s.nowMs, answer⟩ }
      turn := s.turn + 1 } := by
  have hlt := (List.getElem?_eq_some_iff.mp hfetch).1
  have hother : ∀ (i : Nat), i ≠ number →
      (s.fetches.set number { fetch with settled := some ⟨s.nowMs, answer⟩ })[i]? = s.fetches[i]? :=
    fun i hne => List.getElem?_set_ne hne.symm
  have hat : (s.fetches.set number { fetch with settled := some ⟨s.nowMs, answer⟩ })[number]? =
      some { fetch with settled := some ⟨s.nowMs, answer⟩ } := List.getElem?_set_self hlt
  have hlater : Later s { s with
      fetches := s.fetches.set number { fetch with settled := some ⟨s.nowMs, answer⟩ }
      turn := s.turn + 1 } := by
    refine ⟨fun _ _ _ _ h => h, fun i f hf => ?_, fun _ _ h => .inl h, rfl⟩
    by_cases hi : i = number
    · subst hi
      obtain rfl := Option.some.inj (hfetch.symm.trans hf)
      refine ⟨_, hat, rfl, rfl, fun hsettled => ?_⟩
      rw [hopen] at hsettled
      cases hsettled
    · exact ⟨f, (hother i hi).trans hf, rfl, rfl, fun _ => rfl⟩
  exact {
    pending := by
      intro i f hf hnone
      by_cases hi : i = number
      · subst hi
        obtain rfl := Option.some.inj (hat.symm.trans hf)
        cases hnone
      · exact hs.pending i f ((hother i hi).symm.trans hf) hnone
    joined := hs.joined
    waiting := fun w hw => waiting_later hs hlater hw fun _ h => h
    alone := by
      intro w hw f hf hsettled i g hg hnone
      have hi : i ≠ number := by
        intro heq
        subst heq
        obtain rfl := Option.some.inj (hat.symm.trans hg)
        cases hnone
      have hgold := (hother i hi).symm.trans hg
      by_cases hw' : w.fetch = number
      · obtain ⟨f', hf', hserves⟩ := hs.waiting w hw
        rw [hw'] at hf'
        obtain rfl := Option.some.inj (hfetch.symm.trans hf')
        intro hkey
        have hfirst := hs.pending number fetch hfetch hopen
        have hsecond := hs.pending i g hgold hnone
        rw [hkey, ← hserves.key, hfirst] at hsecond
        exact hi (Option.some.inj hsecond).symm
      · exact hs.alone w hw f ((hother _ hw').symm.trans hf) hsettled i g hgold hnone
    cached := fun key token h => cached_later hs hlater h fun _ h => h
    lifetimes := by
      intro i f atMs accessToken expiresIn hf hsettled
      by_cases hi : i = number
      · subst hi
        obtain rfl := Option.some.inj (hat.symm.trans hf)
        injection hsettled with hanswer
        injection hanswer with _ hanswer
        exact hlifetime accessToken expiresIn hanswer
      · exact hs.lifetimes i f atMs accessToken expiresIn ((hother i hi).symm.trans hf) hsettled
    presented := fun p hp => presented_later hs hlater p hp
    turns := fun key turn h => Nat.lt_succ_of_lt (hs.turns key turn h)
    given := fun p hp => Nat.lt_succ_of_lt (hs.given p hp) }

theorem inv_invalidate (hs : Inv s) {key : String} (hnobody : ∀ w ∈ s.waiting, w.use.key ≠ key) :
    Inv { s.invalidate key with turn := s.turn + 1 } := by
  have hcases : ∀ k turn, (k, turn) ∈ s.invalidations ++ [(key, s.turn)] →
      (k, turn) ∈ s.invalidations ∨ (k = key ∧ turn = s.turn) := by
    intro k turn h
    cases List.mem_append.mp h with
    | inl hold => exact .inl hold
    | inr hnew =>
      have heq := List.mem_singleton.mp hnew
      exact .inr ⟨congrArg Prod.fst heq, congrArg Prod.snd heq⟩
  have hlater : Later s { s.invalidate key with turn := s.turn + 1 } :=
    ⟨fun _ _ _ _ h => h, fun i f hf => ⟨f, hf, rfl, rfl, fun _ => rfl⟩,
      fun k turn h => (hcases k turn h).imp_right And.right, rfl⟩
  have hkept : ∀ k turn, k ≠ key → (k, turn) ∈ s.invalidations ++ [(key, s.turn)] →
      (k, turn) ∈ s.invalidations := by
    intro k turn hne h
    exact (hcases k turn h).resolve_right fun hnew => hne hnew.1
  exact {
    pending := hs.pending
    joined := hs.joined
    waiting := fun w hw => waiting_later hs hlater hw fun turn h => hkept _ turn (hnobody w hw) h
    alone := hs.alone
    cached := by
      intro k token h
      by_cases hk : k = key
      · subst hk
        have hgone : (s.tokens.erase k).lookup k = none := AList.lookup_erase k s.tokens
        rw [show (s.tokens.erase k).lookup k = some token from h] at hgone
        cases hgone
      · have hold : s.tokens.lookup k = some token := by
          rw [← AList.lookup_erase_ne hk]
          exact h
        exact cached_later hs hlater hold fun turn h => hkept k turn hk h
    lifetimes := hs.lifetimes
    presented := fun p hp => presented_later hs hlater p hp
    turns := by
      intro k turn h
      cases hcases k turn h with
      | inl hold => exact Nat.lt_succ_of_lt (hs.turns k turn hold)
      | inr hnew =>
        rw [hnew.2]
        exact Nat.lt_succ_self _
    given := fun p hp => Nat.lt_succ_of_lt (hs.given p hp) }

theorem inv_leave (hs : Inv s) {w : Waiter} {f : Fetch} (hw : s.waiting[number]? = some w)
    (hf : s.fetches[w.fetch]? = some f) (hsettled : f.settled.isSome) :
    Inv { s with
      waiting := s.waiting.eraseIdx number
      inFlight := s.inFlight.erase w.use.key
      turn := s.turn + 1 } := by
  have hmem := List.mem_of_getElem? hw
  have hsub : ∀ v ∈ s.waiting.eraseIdx number, v ∈ s.waiting := fun v hv => List.mem_of_mem_eraseIdx hv
  have hlater : Later s { s with
      waiting := s.waiting.eraseIdx number
      inFlight := s.inFlight.erase w.use.key
      turn := s.turn + 1 } :=
    ⟨fun _ _ _ _ h => h, fun i f hf => ⟨f, hf, rfl, rfl, fun _ => rfl⟩, fun _ _ h => .inl h, rfl⟩
  exact {
    pending := by
      intro i g hg hopen
      have hkey := hs.alone w hmem f hf hsettled i g hg hopen
      rw [AList.lookup_erase_ne hkey]
      exact hs.pending i g hg hopen
    joined := by
      intro key i h
      by_cases hkey : key = w.use.key
      · subst hkey
        rw [AList.lookup_erase] at h
        cases h
      · rw [AList.lookup_erase_ne hkey] at h
        obtain ⟨v, hv, hfetch, hvkey⟩ := hs.joined key i h
        refine ⟨v, ?_, hfetch, hvkey⟩
        obtain ⟨j, hj⟩ := List.getElem?_of_mem hv
        have hne : j ≠ number := by
          intro heq
          rw [heq, hw] at hj
          exact hkey (hvkey.symm.trans (congrArg (·.use.key) (Option.some.inj hj)).symm)
        exact List.mem_eraseIdx_iff_getElem?.mpr ⟨j, hne, hj⟩
    waiting := fun v hv => waiting_later hs hlater (hsub v hv) fun _ h => h
    alone := fun v hv => hs.alone v (hsub v hv)
    cached := fun key token h => cached_later hs hlater h fun _ h => h
    lifetimes := hs.lifetimes
    presented := fun p hp => presented_later hs hlater p hp
    turns := fun key turn h => Nat.lt_succ_of_lt (hs.turns key turn h)
    given := fun p hp => Nat.lt_succ_of_lt (hs.given p hp) }

theorem inv_take (hs : Inv s) {w : Waiter} {f : Fetch} (hw : s.waiting[number]? = some w)
    (hf : s.fetches[w.fetch]? = some f) (htoken : f.token? w.fetch = some token)
    (hunexpired : (s.nowMs : ℚ) < token.expiresAtMs) :
    Inv { s.resumed number w f with turn := s.turn + 1 } := by
  obtain ⟨atMs, accessToken, expiresIn, hsettled, hvalue⟩ := settled_of_token htoken
  have hleft := inv_leave hs hw hf (by rw [hsettled]; rfl)
  have hnumber : token.fetch = w.fetch := by rw [hvalue]
  have hissued : f.token? token.fetch = some token := by rw [hnumber, htoken]
  have hfetch : s.fetches[token.fetch]? = some f := by rw [hnumber, hf]
  obtain ⟨f', hf', hserves⟩ := hs.waiting w (List.mem_of_getElem? hw)
  obtain rfl := Option.some.inj (hf.symm.trans hf')
  have hsound : (⟨w.use, token, s.turn, s.nowMs⟩ : Presented).Sound s f :=
    sound_of_issued (fun atMs accessToken expiresIn => hs.lifetimes _ f atMs accessToken expiresIn hf)
      hissued hunexpired hserves.own hserves.fresh
  unfold TokenState.resumed
  rw [htoken]
  exact {
    pending := hleft.pending
    joined := hleft.joined
    waiting := by
      intro v hv
      obtain ⟨g, hg, hserved⟩ := hleft.waiting v hv
      exact ⟨g, hg, ⟨hserved.ref, hserved.scope, hserved.own, hserved.fresh⟩⟩
    alone := hleft.alone
    cached := by
      intro key cached h
      by_cases hkey : key = w.use.key
      · subst hkey
        have hnew : (s.tokens.insert w.use.key token).lookup w.use.key = some token :=
          AList.lookup_insert _
        obtain rfl := Option.some.inj (hnew.symm.trans h)
        exact ⟨f, hfetch, hissued, hserves.key, hserves.fresh⟩
      · have hold : s.tokens.lookup key = some cached := by
          rw [← AList.lookup_insert_ne hkey]
          exact h
        exact hs.cached key cached hold
    lifetimes := hleft.lifetimes
    presented := by
      intro p hp
      cases List.mem_append.mp hp with
      | inl hold =>
        obtain ⟨g, hg, hkept, hnames⟩ := hleft.presented p hold
        exact ⟨g, hg, ⟨hkept.issued, hkept.own, hkept.unexpired, hkept.alive, hkept.fresh⟩, hnames⟩
      | inr hnew =>
        obtain rfl := List.mem_singleton.mp hnew
        exact ⟨f, hfetch, ⟨hsound.issued, hsound.own, hsound.unexpired, hsound.alive, hsound.fresh⟩,
          hserves.ref, hserves.scope⟩
    turns := hleft.turns
    given := by
      intro p hp
      cases List.mem_append.mp hp with
      | inl hold => exact hleft.given p hold
      | inr hnew =>
        obtain rfl := List.mem_singleton.mp hnew
        exact Nat.lt_succ_self _ }

theorem inv_get (hs : Inv s) (hprovider : s.provider? use.document use.ref = some use.provider)
    (hsource : ∀ (i : Nat) (f : Fetch), s.source use.key = some i → s.fetches[i]? = some f →
      f.use.scope = use.scope ∧ f.request = fetchToken use.provider use.scope)
    (hawaits : s.live use.key = none → ∀ w ∈ s.waiting, w.use.key = use.key →
      ∀ f : Fetch, s.fetches[w.fetch]? = some f → f.settled = none) :
    Inv { s.get use with turn := s.turn + 1 } := by
  have hown : (s.provider? use.document use.ref).map (fetchToken · use.scope) =
      some (fetchToken use.provider use.scope) := by
    rw [hprovider]
    rfl
  unfold TokenState.get
  cases hlive : s.live use.key with
  | some token => exact inv_give hs hlive hown hsource
  | none =>
    cases hpending : s.inFlight.lookup use.key with
    | some pending =>
      have hat : s.source use.key = some pending := by
        unfold TokenState.source
        rw [hlive]
        exact hpending
      exact inv_join hs hpending hown (fun f hf => hsource pending f hat hf) (hawaits hlive)
    | none => exact inv_begin hs hpending hown (hawaits hlive)

end

theorem inv_step {s next : TokenState} {e : Event} (hs : Inv s) (hsteady : Steady s e)
    (h : step s e = some next) : Inv next := by
  obtain ⟨mid, heffect, rfl⟩ := Option.map_eq_some_iff.mp h
  have hsame : Inv { s with turn := s.turn + 1 } := by
    have hmore := inv_unchanged hs s.nowMs []
    rw [List.append_nil] at hmore
    exact hmore
  cases e with
  | pass ms =>
    cases heffect
    have hmore := inv_unchanged hs (s.nowMs + ms) []
    rw [List.append_nil] at hmore
    exact hmore
  | activate tokenProviders =>
    cases heffect
    exact inv_unchanged hs s.nowMs [tokenProviders]
  | ask document ref scope invalidateOnStatus =>
    simp only [effect] at heffect
    cases hprovider : s.provider? document ref with
    | none =>
      rw [hprovider] at heffect
      cases heffect
      exact hsame
    | some provider =>
      rw [hprovider] at heffect
      cases heffect
      obtain ⟨hsource, hawaits⟩ := hsteady provider hprovider
      exact inv_get hs hprovider hsource hawaits
  | settle number answer =>
    simp only [effect, Option.bind_eq_bind] at heffect
    obtain ⟨fetch, hfetch, hthen⟩ := Option.bind_eq_some_iff.mp heffect
    cases hopen : fetch.settled with
    | some settled =>
      rw [hopen] at hthen
      cases hthen
    | none =>
      rw [hopen] at hthen
      cases hthen
      refine inv_settle hs hfetch hopen fun accessToken expiresIn heq => ?_
      subst heq
      exact hsteady
  | resume number =>
    simp only [effect, Option.bind_eq_bind] at heffect
    obtain ⟨waiter, hwaiter, hthen⟩ := Option.bind_eq_some_iff.mp heffect
    obtain ⟨fetch, hfetch, hdone⟩ := Option.bind_eq_some_iff.mp hthen
    by_cases hsettled : fetch.settled.isSome = true
    · rw [if_pos hsettled] at hdone
      cases hdone
      cases htoken : fetch.token? waiter.fetch with
      | some token =>
        exact inv_take hs hwaiter hfetch htoken (hsteady waiter fetch token hwaiter hfetch htoken)
      | none =>
        unfold TokenState.resumed
        rw [htoken]
        exact inv_leave hs hwaiter hfetch hsettled
    · rw [if_neg hsettled] at hdone
      cases hdone
  | response number status =>
    simp only [effect, Option.bind_eq_bind] at heffect
    obtain ⟨given, hgiven, hthen⟩ := Option.bind_eq_some_iff.mp heffect
    by_cases hstatus : invalidates given.use status = true
    · rw [if_pos hstatus] at hthen
      cases hthen
      exact inv_invalidate hs (hsteady given hgiven hstatus)
    · rw [if_neg hstatus] at hthen
      cases hthen
      exact hsame

theorem inv_initial (nowMs : Nat) : Inv (.initial nowMs) where
  pending := by simp [TokenState.initial]
  joined := by simp [TokenState.initial]
  waiting := by simp [TokenState.initial]
  alone := by simp [TokenState.initial]
  cached := by simp [TokenState.initial]
  lifetimes := by simp [TokenState.initial]
  presented := by simp [TokenState.initial]
  turns := by simp [TokenState.initial]
  given := by simp [TokenState.initial]

theorem kept_of_inv {s : TokenState} (hs : Inv s) : Kept s where
  once := by
    intro i j f g hf hg hopen hopen' hkey
    have hfirst := hs.pending i f hf hopen
    have hsecond := hs.pending j g hg hopen'
    rw [← hkey, hfirst] at hsecond
    exact Option.some.inj hsecond
  shared := by
    intro p hp q hq hfetch
    obtain ⟨f, hf, -, href, hscope⟩ := hs.presented p hp
    obtain ⟨g, hg, -, href', hscope'⟩ := hs.presented q hq
    rw [hfetch] at hf
    obtain rfl := Option.some.inj (hf.symm.trans hg)
    exact ⟨href.symm.trans href', hscope.symm.trans hscope'⟩
  sound := by
    intro p hp
    obtain ⟨f, hf, hsound, -⟩ := hs.presented p hp
    exact ⟨f, hf, hsound⟩

theorem tokens_along_runs (nowMs : Nat) (events : List Event) (s : TokenState)
    (hrun : Trace.exec step (.initial nowMs) events = some s)
    (hsteady : Trace.EveryStep step (fun s e _ => Steady s e) (.initial nowMs) events) : Kept s := by
  have hkeeps : ∀ s e next, Inv s → Steady s e → step s e = some next → Inv next :=
    fun _ _ _ hs hsteady h => inv_step hs hsteady h
  exact kept_of_inv (Trace.exec_invariant_of_guarded hkeeps (inv_initial nowMs) hsteady hrun)

/-! ### Runs -/

def isSteady (s : TokenState) : Event → Bool
  | .ask document ref scope invalidateOnStatus =>
    (s.provider? document ref).all fun provider =>
      let use : TokenUse := ⟨document, ref, scope, invalidateOnStatus, provider⟩
      (((s.source use.key).bind (s.fetches[·]?)).all fun fetch =>
        fetch.use.scope == scope && fetch.request == fetchToken provider scope) &&
      ((s.live use.key).isSome || s.waiting.all fun waiter =>
        waiter.use.key != use.key || (s.fetches[waiter.fetch]?).all fun fetch => fetch.settled.isNone)
  | .settle _ (.token _ expiresIn) => 1 ≤ expiresIn.getD 300
  | .resume number => ((s.waiting[number]?).bind fun waiter =>
      (s.fetches[waiter.fetch]?).bind (Fetch.token? · waiter.fetch)).all fun token =>
        (s.nowMs : ℚ) < token.expiresAtMs
  | .response number status => (s.presented[number]?).all fun given =>
    !invalidates given.use status || s.waiting.all fun waiter => waiter.use.key != given.use.key
  | _ => true

theorem steady_of_isSteady {s : TokenState} {e : Event} (h : isSteady s e = true) : Steady s e := by
  cases e with
  | pass ms => trivial
  | activate tokenProviders => trivial
  | ask document ref scope invalidateOnStatus =>
    intro provider hprovider
    simp only [isSteady, hprovider, Option.all_some, Bool.and_eq_true] at h
    obtain ⟨hsource, hawaits⟩ := h
    constructor
    · intro i fetch hi hfetch
      simp only [hi, Option.bind_some, hfetch, Option.all_some, Bool.and_eq_true, beq_iff_eq] at hsource
      exact hsource
    · intro hlive waiter hwaiter hkey fetch hfetch
      simp only [hlive, Option.isSome_none, Bool.false_or, List.all_eq_true] at hawaits
      simpa [hkey, hfetch] using hawaits waiter hwaiter
  | settle number answer =>
    cases answer with
    | token accessToken expiresIn =>
      have hone : (1 : ℚ) ≤ expiresIn.getD 300 := of_decide_eq_true h
      exact hone
    | failed => trivial
  | resume number =>
    intro waiter fetch token hwaiter hfetch htoken
    simp only [isSteady, hwaiter, hfetch, htoken, Option.bind_some, Option.all_some] at h
    exact of_decide_eq_true h
  | response number status =>
    intro given hgiven hstatus waiter hwaiter
    simp only [isSteady, hgiven, Option.all_some, hstatus, Bool.not_true, Bool.false_or,
      List.all_eq_true, bne_iff_ne] at h
    exact h waiter hwaiter

def sap : RefName := ⟨"sap", by decide⟩

def bound (tokenUrl : String) : Dict String ConfigTokenProvider :=
  (∅ : Dict String ConfigTokenProvider).insert "sap" ⟨tokenUrl, none, none, "gateway:secret"⟩

def ordinary : List Event :=
  [.activate (bound "https://idp/token"), .ask 0 sap none none, .ask 0 sap none none,
    .settle 0 (.token "first" (some 3600)), .resume 0, .resume 0, .pass 1000, .ask 0 sap none none,
    .response 2 401, .ask 0 sap none none, .settle 1 (.token "second" (some 3600)), .resume 0]

theorem tokens_along_ordinary :
    ∃ s, Trace.exec step (.initial 0) ordinary = some s ∧ s.presented.length = 4 ∧
      s.fetches.length = 2 ∧ Kept s := by
  have hsome : ((Trace.exec step (.initial 0) ordinary).map fun s =>
      (s.presented.length, s.fetches.length)) = some (4, 2) := by decide +kernel
  obtain ⟨s, hrun, hseen⟩ := Option.map_eq_some_iff.mp hsome
  have hsteady : Trace.EveryStep step (fun s e _ => Steady s e) (.initial 0) ordinary :=
    Trace.everyStep_of_passes isSteady (fun _ _ _ h => steady_of_isSteady h) (by decide +kernel)
  exact ⟨s, hrun, congrArg Prod.fst hseen, congrArg Prod.snd hseen,
    tokens_along_runs 0 ordinary s hrun hsteady⟩

/-- A token expires and a fetch begins; a backend refuses the old one, so the key is invalidated; the
fetch settles, and its token is given. -/
def overtaken : List Event :=
  [.activate (bound "https://idp/token"), .ask 0 sap none none, .settle 0 (.token "first" (some 60)),
    .resume 0, .pass 29000, .ask 0 sap none none, .pass 1000, .ask 0 sap none none,
    .response 1 401, .settle 1 (.token "second" (some 60)), .resume 0]

/-- A document gives the name to another endpoint, and the next request is served the token of the
first. -/
def rebound : List Event :=
  [.activate (bound "https://idp/token"), .ask 0 sap none none, .settle 0 (.token "first" (some 3600)),
    .resume 0, .activate (bound "https://other/token"), .ask 1 sap none none]

def givesStale (s : TokenState) : Bool :=
  s.presented.any fun p => (s.fetches[p.token.fetch]?).any fun fetch =>
    s.invalidations.any fun (key, turn) =>
      key == p.use.key && decide (turn < p.turn) && !decide (turn < fetch.begun)

def givesForeign (s : TokenState) : Bool :=
  s.presented.any fun p => (s.fetches[p.token.fetch]?).any fun fetch =>
    (s.provider? p.use.document p.use.ref).map (fetchToken · p.use.scope) != some fetch.request

theorem not_kept_of_givesStale {s : TokenState} (h : givesStale s = true) : ¬ Kept s := by
  intro hkept
  obtain ⟨p, hp, hany⟩ := List.any_eq_true.mp h
  obtain ⟨fetch, hfetch, hsound⟩ := hkept.sound p hp
  rw [hfetch, Option.any_some] at hany
  obtain ⟨⟨key, turn⟩, hin, hseen⟩ := List.any_eq_true.mp hany
  simp only [Bool.and_eq_true, beq_iff_eq, decide_eq_true_eq, Bool.not_eq_true',
    decide_eq_false_iff_not] at hseen
  obtain ⟨⟨rfl, hbefore⟩, hbegun⟩ := hseen
  exact hbegun (hsound.fresh turn hin hbefore)

theorem not_kept_of_givesForeign {s : TokenState} (h : givesForeign s = true) : ¬ Kept s := by
  intro hkept
  obtain ⟨p, hp, hany⟩ := List.any_eq_true.mp h
  obtain ⟨fetch, hfetch, hsound⟩ := hkept.sound p hp
  rw [hfetch, Option.any_some, bne_iff_ne] at hany
  exact hany hsound.own

theorem tokens_overtaken_and_rebound :
    (∃ s, Trace.exec step (.initial 0) overtaken = some s ∧ ¬ Kept s) ∧
      ∃ s, Trace.exec step (.initial 0) rebound = some s ∧ ¬ Kept s := by
  constructor
  · have hseen : (Trace.exec step (.initial 0) overtaken).map givesStale = some true := by
      decide +kernel
    obtain ⟨s, hrun, hstale⟩ := Option.map_eq_some_iff.mp hseen
    exact ⟨s, hrun, not_kept_of_givesStale hstale⟩
  · have hseen : (Trace.exec step (.initial 0) rebound).map givesForeign = some true := by
      decide +kernel
    obtain ⟨s, hrun, hforeign⟩ := Option.map_eq_some_iff.mp hseen
    exact ⟨s, hrun, not_kept_of_givesForeign hforeign⟩

end Apim.DataPlane.BackendTokens
