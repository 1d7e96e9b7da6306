import Apim.DataPlane.ArtifactCache
import Apim.DataPlane.Stream
import Apim.Lib.Trace

/-!
# An instance and the documents it is offered

A gateway instance between its control plane, its requests and its restarts
(`data-plane/src/config-client.ts`, `data-plane/src/server.ts:286-420, 585-600`). One poll is under
way at a time: an answer with a document makes it the candidate, whose artifacts are fetched one by
one while requests go on, and which is then activated or not. A request that is to become a stream
is admitted in one step and opened in a later one. What the container keeps over a restart is the
document it last wrote and the files of the artifact cache.

`History` has what no process remembers: which of the entries of the served document were there when
it began to be served, whether the instance has been revoked since it last activated a document, and
which document that was.
-/

namespace Apim.ConfigClient

open Apim.DataPlane (PassthroughUnit)

/-! ### Documents -/

structure Settings where
  maxConcurrentRequests : Nat
  maxConcurrentUpgrades : Nat
  artifactCacheMaxBytes : Nat
  deriving DecidableEq, Repr

structure RoutePolicy where
  serialised : String
  subscriptionKey : Bool
  passthrough : Option PassthroughUnit
  deriving DecidableEq, Repr

structure ConfigRoute where
  resourceId : String
  resourceName : String
  productIds : List String
  policy : RoutePolicy
  artifacts : List String
  deriving DecidableEq, Repr

structure ConfigSubscription where
  id : SubscriptionId
  productId : String
  deriving DecidableEq, Repr

structure ConfigCertificate where
  id : String
  thumbprint : String
  deriving DecidableEq, Repr

structure GatewayConfig where
  configVersion : Nat
  digest : String
  settings : Settings
  routes : List ConfigRoute
  subscriptions : List ConfigSubscription
  certificates : List ConfigCertificate
  deriving DecidableEq, Repr

def GatewayConfig.references (config : GatewayConfig) : List Key :=
  (config.routes.flatMap (·.artifacts)).eraseDups.map .artifact ++
    config.certificates.map fun certificate => .certificate certificate.id certificate.thumbprint

def GatewayConfig.active (config : GatewayConfig) : List SubscriptionId :=
  config.subscriptions.map (·.id)

def GatewayConfig.route? (config : GatewayConfig) (resourceId : String) : Option ConfigRoute :=
  config.routes.find? fun route => route.resourceId = resourceId

def includes (text part : String) : Bool := decide (part.toList <:+: text.toList)

def needsClientCertificate (policy : RoutePolicy) : Bool :=
  includes policy.serialised "\"auth.mtls\"" || includes policy.serialised "\"requireClientCert\"" ||
    includes policy.serialised "$\x7bcert."

/-! ### The state -/

structure Options where
  wireVersion : Nat
  trustedProxyConfigured : Bool
  outboundQueue : Option Nat
  settings : Settings
  deriving DecidableEq, Repr

inductive Blocker where
  | wireVersion
  | settings (wanted queue : Nat)
  | clientCertificate (resourceName : String)
  | missing (names : List Key)
  deriving DecidableEq, Repr

structure Client where
  table : Option GatewayConfig
  decommissioned : Bool
  activationBlocked : Option Blocker
  servingRefusal : Option Blocker
  deriving DecidableEq, Repr

structure Candidate where
  config : GatewayConfig
  rest : List Key
  missing : List Key
  prefetched : Bool
  deriving DecidableEq, Repr

structure StreamRequest where
  resourceId : String
  unit : PassthroughUnit
  subscriptionId : Option SubscriptionId
  upgrading : Bool
  deriving DecidableEq, Repr

inductive CacheFile where
  | absent
  | unreadable
  | config (document : GatewayConfig)
  deriving DecidableEq, Repr

structure History where
  began : List Key
  revoked : Bool
  activated : Option GatewayConfig
  deriving DecidableEq, Repr

structure Instance where
  running : Bool
  client : Client
  cache : ArtifactCache
  streams : StreamRegistry
  requests : List StreamRequest
  candidate : Option Candidate
  file : CacheFile
  now : Nat
  history : History
  deriving DecidableEq, Repr

/-- What the instance serves: `fetch` of the server answers 503 while it is decommissioned or has no
table. -/
def Instance.served (s : Instance) : List ConfigRoute :=
  if s.client.decommissioned then [] else (s.client.table.map (·.routes)).getD []

def Instance.unitInForce (s : Instance) (resourceId : String) : Option PassthroughUnit :=
  (s.client.table.bind (·.route? resourceId)).bind (·.policy.passthrough)

/-! ### What happens -/

inductive Payload where
  | unchanged
  | config (document : Option GatewayConfig)
  deriving DecidableEq, Repr

inductive Answer where
  | failed
  | rejected
  | tooLarge
  /-- Another status than 200; `mismatch` when it is the refusal of the wire version. -/
  | refused (mismatch : Bool)
  | ok (wireVersion : Nat) (payload : Payload)
  deriving DecidableEq, Repr

inductive Written where
  | whole
  | kept
  | broken
  deriving DecidableEq, Repr

inductive Event where
  | clock (now : Nat)
  | poll (answer : Answer)
  /-- A turn of `prefetch`, with the bytes of what came if it had to be downloaded. -/
  | fetch (bytes : Option Nat)
  | prefetched
  | settle (written : Written)
  | read (key : Key)
  | resize (maxBytes : Nat)
  | request (resourceId : String) (subscriptionId : Option SubscriptionId)
  | upgrade (index : Nat)
  | opened (index : Nat)
  | sse (index : Nat)
  | dropped (index : Nat)
  | closed (id : Nat)
  | restart (listing : List (Key × File))
  deriving DecidableEq, Repr

def settingsBlocker (options : Options) (next : Settings) : Option Blocker :=
  match options.outboundQueue with
  | none => none
  | some queue =>
    if next.maxConcurrentRequests ≤ queue then none
    else some (.settings next.maxConcurrentRequests queue)

def certificateBlocker (options : Options) (config : GatewayConfig) : Option Blocker :=
  if options.trustedProxyConfigured then none
  else (config.routes.find? fun route => needsClientCertificate route.policy).map fun route =>
    .clientCertificate route.resourceName

def Instance.block (s : Instance) (blocker : Blocker) : Instance :=
  { s with client := { s.client with activationBlocked := some blocker } }

def Instance.applySettings (s : Instance) (next : Settings) : Instance :=
  { s with
    streams := s.streams.resize next.maxConcurrentUpgrades
    cache := s.cache.resize next.artifactCacheMaxBytes }

def Instance.serve (s : Instance) (config : GatewayConfig) : Instance :=
  { s with
    client := { s.client with table := some config }
    history := { s.history with began := config.references.filter s.cache.available } }

def loadFromCache (options : Options) (s : Instance) : Instance :=
  match s.file with
  | .absent | .unreadable => s
  | .config config =>
    if config.configVersion ≠ options.wireVersion then s
    else match settingsBlocker options config.settings with
      | some refused =>
        { s.serve config with client := { (s.serve config).client with
            servingRefusal := some refused, activationBlocked := some refused } }
      | none => (s.serve config).applySettings config.settings

def restart (options : Options) (s : Instance) (listing : List (Key × File)) : Instance :=
  loadFromCache options { s with
    running := true
    client := ⟨none, false, none, none⟩
    cache := .indexDisk listing options.settings.artifactCacheMaxBytes
    streams := ⟨[], 1, options.settings.maxConcurrentUpgrades⟩
    requests := []
    candidate := none
    history := { s.history with began := [], activated := none } }

def offer (options : Options) (s : Instance) (config : GatewayConfig) : Instance :=
  match settingsBlocker options config.settings with
  | some refused => s.block refused
  | none =>
    match certificateBlocker options config with
    | some blocker => s.block blocker
    | none => { s with candidate := some ⟨config, config.references, [], false⟩ }

def decommission (s : Instance) : Instance :=
  { s with
    client := { s.client with decommissioned := true, table := none }
    streams := s.streams.closeAll
    history := { s.history with began := [], revoked := true } }

def pollExclusive (options : Options) (s : Instance) : Answer → Instance
  | .failed | .tooLarge => s
  | .rejected => decommission s
  | .refused mismatch => if mismatch then s.block .wireVersion else s
  | .ok wireVersion payload =>
    if wireVersion ≠ options.wireVersion then s.block .wireVersion
    else
      let s := { s with client := { s.client with decommissioned := false } }
      match payload with
      | .unchanged =>
        { s with client := { s.client with activationBlocked := s.client.servingRefusal } }
      | .config none => s.block .wireVersion
      | .config (some config) =>
        if config.configVersion ≠ options.wireVersion then s.block .wireVersion
        else offer options s config

def persist (file : CacheFile) (config : GatewayConfig) : Written → CacheFile
  | .whole => .config config
  | .kept => file
  | .broken => .unreadable

def afterActivation (s : Instance) (config : GatewayConfig) : Instance :=
  let s := s.applySettings config.settings
  { s with streams := s.streams.closeRevoked config.active }

def activate (s : Instance) (config : GatewayConfig) (written : Written) : Instance :=
  let s := { s with client := { s.client with activationBlocked := none, servingRefusal := none } }
  let s := s.serve config
  let s := { s with
    file := persist s.file config written
    history := { s.history with revoked := false, activated := some config } }
  afterActivation s config

def authenticated (config : GatewayConfig) (route : ConfigRoute)
    (subscriptionId : Option SubscriptionId) : Bool :=
  if route.policy.subscriptionKey then
    subscriptionId.any fun id => config.subscriptions.any fun subscription =>
      subscription.id = id && route.productIds.contains subscription.productId
  else subscriptionId.isNone

def Instance.receive (s : Instance) (resourceId : String)
    (subscriptionId : Option SubscriptionId) : Option Instance :=
  if s.client.decommissioned then none
  else do
    let config ← s.client.table
    let route ← config.route? resourceId
    let unit ← route.policy.passthrough
    if authenticated config route subscriptionId then
      some { s with requests := s.requests ++ [⟨resourceId, unit, subscriptionId, false⟩] }
    else none

/-- `admit` of a WebSocket: the upgrade is handed to the server, or the request is refused. -/
def Instance.upgrade (s : Instance) (index : Nat) (request : StreamRequest) : Instance :=
  if s.streams.admission request.resourceId (some request.unit) = .ok then
    { s with requests := s.requests.set index { request with upgrading := true } }
  else { s with requests := s.requests.eraseIdx index }

def Instance.register (s : Instance) (index : Nat) (kind : StreamKind) (request : StreamRequest) :
    Instance :=
  { s with
    requests := s.requests.eraseIdx index
    streams := s.streams.opened kind request.resourceId request.subscriptionId }

def Instance.sse (s : Instance) (index : Nat) (request : StreamRequest) : Instance :=
  if s.streams.admission request.resourceId (some request.unit) = .ok then
    s.register index .sse request
  else { s with requests := s.requests.eraseIdx index }

def Instance.waiting (s : Instance) (index : Nat) (upgrading : Bool) : Option StreamRequest :=
  s.requests[index]?.filter fun request => request.upgrading = upgrading

def Instance.run (options : Options) (s : Instance) : Event → Option Instance
  | .clock now => some { s with now := now }
  | .poll answer => if s.candidate.isNone then some (pollExclusive options s answer) else none
  | .fetch bytes =>
    s.candidate.bind fun candidate =>
      match candidate.rest with
      | [] => none
      | key :: rest =>
        let fetched := s.cache.fetch key bytes s.now
        some { s with
          cache := fetched.2
          candidate := some { candidate with
            rest := rest
            missing := if fetched.1 then candidate.missing else candidate.missing ++ [key] } }
  | .prefetched =>
    s.candidate.bind fun candidate =>
      if candidate.rest.isEmpty && !candidate.prefetched then
        some { s with
          cache := s.cache.pin candidate.config.references
          candidate := some { candidate with prefetched := true } }
      else none
  | .settle written =>
    s.candidate.bind fun candidate =>
      if candidate.prefetched then
        let s := { s with candidate := none }
        if candidate.missing.isEmpty then some (activate s candidate.config written)
        else some (s.block (.missing candidate.missing))
      else none
  | .read key => some { s with cache := (s.cache.read key s.now).2 }
  | .resize maxBytes => some { s with cache := s.cache.resize maxBytes }
  | .request resourceId subscriptionId => s.receive resourceId subscriptionId
  | .upgrade index => ((s.waiting index false).filter (·.unit.websocket)).map (s.upgrade index)
  | .opened index => (s.waiting index true).map (s.register index .websocket)
  | .sse index => ((s.waiting index false).filter (·.unit.sse)).map (s.sse index)
  | .dropped index => some { s with requests := s.requests.eraseIdx index }
  | .closed id => some { s with streams := s.streams.close id }
  | .restart _ => none

def step (options : Options) (s : Instance) : Event → Option Instance
  | .restart listing => if s.cache.disk.isPerm listing then some (restart options s listing) else none
  | event => if s.running then s.run options event else none

/-! ### What a step can do -/

theorem pollExclusive_spec (options : Options) (s : Instance) {answer : Answer}
    (h : answer ≠ .rejected) :
    ∃ client candidate, pollExclusive options s answer = { s with client, candidate } ∧
      client.table = s.client.table ∧
      (client.decommissioned = true → s.client.decommissioned = true) ∧
      (∀ c, candidate = some c →
        s.candidate = some c ∨ (c.prefetched = false ∧ client.decommissioned = false)) := by
  have hblock : ∀ (client : Client) (blocker : Blocker), client.table = s.client.table →
      (client.decommissioned = true → s.client.decommissioned = true) →
      ∃ client' candidate, { s with client }.block blocker = { s with client := client', candidate } ∧
        client'.table = s.client.table ∧
        (client'.decommissioned = true → s.client.decommissioned = true) ∧
        (∀ c, candidate = some c →
          s.candidate = some c ∨ (c.prefetched = false ∧ client'.decommissioned = false)) :=
    fun client _ htable hdown => ⟨_, s.candidate, rfl, htable, hdown, fun _ hc => .inl hc⟩
  cases answer with
  | failed => exact ⟨s.client, s.candidate, rfl, rfl, id, fun c hc => .inl hc⟩
  | rejected => exact absurd rfl h
  | tooLarge => exact ⟨s.client, s.candidate, rfl, rfl, id, fun c hc => .inl hc⟩
  | refused mismatch =>
    cases mismatch with
    | true => exact hblock s.client .wireVersion rfl id
    | false => exact ⟨s.client, s.candidate, rfl, rfl, id, fun c hc => .inl hc⟩
  | ok wireVersion payload =>
    simp only [pollExclusive]
    by_cases hwire : wireVersion ≠ options.wireVersion
    · rw [if_pos hwire]
      exact hblock s.client .wireVersion rfl id
    · rw [if_neg hwire]
      rcases payload with _ | (_ | config)
      · exact ⟨_, s.candidate, rfl, rfl, nofun, fun c hc => .inl hc⟩
      · exact hblock { s.client with decommissioned := false } _ rfl nofun
      · simp only
        by_cases hversion : config.configVersion ≠ options.wireVersion
        · rw [if_pos hversion]
          exact hblock { s.client with decommissioned := false } _ rfl nofun
        · rw [if_neg hversion, offer]
          cases settingsBlocker options config.settings with
          | some refused => exact hblock { s.client with decommissioned := false } refused rfl nofun
          | none =>
            cases certificateBlocker options config with
            | some blocker =>
              exact hblock { s.client with decommissioned := false } blocker rfl nofun
            | none =>
              refine ⟨{ s.client with decommissioned := false }, _, rfl, rfl, nofun, ?_⟩
              rintro c hc
              cases hc
              exact .inr ⟨rfl, rfl⟩

theorem receive_eq_some {s next : Instance} {resourceId : String}
    {subscriptionId : Option SubscriptionId} (h : s.receive resourceId subscriptionId = some next) :
    ∃ requests, next = { s with requests } := by
  unfold Instance.receive at h
  split at h
  · cases h
  · obtain ⟨config, -, h⟩ := Option.bind_eq_some_iff.mp h
    obtain ⟨route, -, h⟩ := Option.bind_eq_some_iff.mp h
    obtain ⟨unit, -, h⟩ := Option.bind_eq_some_iff.mp h
    split at h
    · cases h
      exact ⟨_, rfl⟩
    · cases h

structure Steady (s next : Instance) : Prop where
  table : next.client.table = s.client.table
  decommissioned : next.client.decommissioned = true → s.client.decommissioned = true
  history : next.history = s.history
  file : next.file = s.file
  candidate : next.candidate.isSome = true →
    s.candidate.isSome = true ∨ next.client.decommissioned = false

theorem run_cases {options : Options} {s next : Instance} {e : Event}
    (hrun : s.run options e = some next) :
    (e = .poll .rejected ∧ s.candidate = none ∧ next = decommission s) ∨
      (∃ written candidate, e = .settle written ∧ s.candidate = some candidate ∧
        candidate.prefetched = true ∧
        next = activate { s with candidate := none } candidate.config written) ∨
      Steady s next := by
  cases e with
  | clock now =>
    cases hrun
    exact .inr (.inr ⟨rfl, id, rfl, rfl, .inl⟩)
  | poll answer =>
    simp only [Instance.run, Option.ite_none_right_eq_some, Option.some.injEq] at hrun
    obtain ⟨hidle, rfl⟩ := hrun
    by_cases hrejected : answer = .rejected
    · subst hrejected
      exact .inl ⟨rfl, Option.isNone_iff_eq_none.mp hidle, rfl⟩
    · obtain ⟨client, candidate, heq, htable, hdown, hcandidate⟩ := pollExclusive_spec options s hrejected
      rw [heq]
      refine .inr (.inr ⟨htable, hdown, rfl, rfl, fun hsome => ?_⟩)
      obtain ⟨c, hc⟩ := Option.isSome_iff_exists.mp hsome
      rcases hcandidate c hc with hold | ⟨-, hup⟩
      · exact .inl (by rw [hold]; rfl)
      · exact .inr hup
  | fetch bytes =>
    obtain ⟨candidate, hcandidate, hrun⟩ := Option.bind_eq_some_iff.mp hrun
    have hsome : s.candidate.isSome = true := Option.isSome_of_eq_some hcandidate
    cases hrest : candidate.rest with
    | nil =>
      rw [hrest] at hrun
      cases hrun
    | cons key rest =>
      rw [hrest] at hrun
      cases hrun
      exact .inr (.inr ⟨rfl, id, rfl, rfl, fun _ => .inl hsome⟩)
  | prefetched =>
    obtain ⟨candidate, hcandidate, hrun⟩ := Option.bind_eq_some_iff.mp hrun
    simp only [Option.ite_none_right_eq_some, Option.some.injEq] at hrun
    obtain ⟨-, rfl⟩ := hrun
    exact .inr (.inr ⟨rfl, id, rfl, rfl, fun _ => .inl (Option.isSome_of_eq_some hcandidate)⟩)
  | settle written =>
    obtain ⟨candidate, hcandidate, hrun⟩ := Option.bind_eq_some_iff.mp hrun
    simp only [Option.ite_none_right_eq_some] at hrun
    obtain ⟨hprefetched, hrun⟩ := hrun
    by_cases hmissing : candidate.missing.isEmpty = true
    · rw [if_pos hmissing] at hrun
      cases hrun
      exact .inr (.inl ⟨written, candidate, rfl, hcandidate, hprefetched, rfl⟩)
    · rw [if_neg hmissing] at hrun
      cases hrun
      exact .inr (.inr ⟨rfl, id, rfl, rfl, nofun⟩)
  | read key =>
    cases hrun
    exact .inr (.inr ⟨rfl, id, rfl, rfl, .inl⟩)
  | resize maxBytes =>
    cases hrun
    exact .inr (.inr ⟨rfl, id, rfl, rfl, .inl⟩)
  | request resourceId subscriptionId =>
    obtain ⟨requests, rfl⟩ := receive_eq_some hrun
    exact .inr (.inr ⟨rfl, id, rfl, rfl, .inl⟩)
  | upgrade index =>
    obtain ⟨request, -, rfl⟩ := Option.map_eq_some_iff.mp hrun
    unfold Instance.upgrade
    split <;> exact .inr (.inr ⟨rfl, id, rfl, rfl, .inl⟩)
  | opened index =>
    obtain ⟨request, -, rfl⟩ := Option.map_eq_some_iff.mp hrun
    exact .inr (.inr ⟨rfl, id, rfl, rfl, .inl⟩)
  | sse index =>
    obtain ⟨request, -, rfl⟩ := Option.map_eq_some_iff.mp hrun
    unfold Instance.sse
    split <;> exact .inr (.inr ⟨rfl, id, rfl, rfl, .inl⟩)
  | dropped index =>
    cases hrun
    exact .inr (.inr ⟨rfl, id, rfl, rfl, .inl⟩)
  | closed id =>
    cases hrun
    exact .inr (.inr ⟨rfl, fun hdown => hdown, rfl, rfl, .inl⟩)
  | restart listing => cases hrun

theorem step_cases {options : Options} {s next : Instance} {e : Event}
    (h : step options s e = some next) :
    (∃ listing, e = .restart listing ∧ s.cache.disk.isPerm listing = true ∧
        next = restart options s listing) ∨
      ((∀ listing, e ≠ .restart listing) ∧ s.running = true ∧ s.run options e = some next) := by
  cases e with
  | restart listing =>
    simp only [step, Option.ite_none_right_eq_some, Option.some.injEq] at h
    exact .inl ⟨listing, rfl, h.1, h.2.symm⟩
  | _ =>
    simp only [step, Option.ite_none_right_eq_some] at h
    exact .inr ⟨nofun, h⟩

def stopped (options : Options) (file : CacheFile) (disk : List (Key × File)) : Instance where
  running := false
  client := ⟨none, false, none, none⟩
  cache := .indexDisk disk options.settings.artifactCacheMaxBytes
  streams := ⟨[], 1, options.settings.maxConcurrentUpgrades⟩
  requests := []
  candidate := none
  file := file
  now := 0
  history := ⟨[], false, none⟩

end Apim.ConfigClient
