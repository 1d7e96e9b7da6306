import Apim.ControlPlane.ConfigBuild
import Apim.DataPlane.Attempts

/-!
# TLS to a backend

Whether a connection to a backend is verified. The control plane puts one TLS setting into each route,
made of the live exception that comes first (`tlsFor`); an instance turns it into the options of every
connection of the route (`tlsOptionsFor`, `data-plane/src/pipeline.ts:2126-2163`), and stops honouring
it on its own clock. The URL of the backend does not come into it.
-/

namespace Apim.DataPlane
open ControlPlane

/-! ### The options of a connection -/

inductive TlsMode where
  | verify
  | pin (thumbprint : String)
  | skipHostname
  | insecure
  deriving DecidableEq, Repr

inductive IdentityCheck where
  | any
  | pinned (thumbprint : String)
  deriving DecidableEq, Repr

def plainThumbprint (thumbprint : String) : String :=
  (String.ofList (thumbprint.toList.filter (· != ':'))).toUpper

def IdentityCheck.accepts (check : IdentityCheck) (fingerprint256 : Option String) : Bool :=
  match check with
  | .any => true
  | .pinned thumbprint => plainThumbprint (fingerprint256.getD "") == plainThumbprint thumbprint

structure CertificateMaterial where
  certPem : String
  keyPem : String
  chainPem : Option String
  deriving DecidableEq, Repr

structure TlsOptions where
  cert : Option String
  key : Option String
  ca : Option String
  rejectUnauthorized : Bool
  checkServerIdentity : Option IdentityCheck
  deriving DecidableEq, Repr

/-- `tls.mode` and `tls.pinThumbprint`; a pin without a thumbprint replaces nothing. -/
def modeOf (mode : String) (pinThumbprint : Option String) : TlsMode :=
  if mode = "insecure" then .insecure
  else if mode = "skip-hostname" then .skipHostname
  else if mode = "pin" then
    match pinThumbprint.filter (· ≠ "") with
    | some thumbprint => .pin thumbprint
    | none => .verify
  else .verify

def modeName (tls : BackendTls) (now : Nat) : String :=
  match tls with
  | .verify => "verify"
  | .relaxed mode _ expiresAt _ _ => if expiresAt ≤ now then "verify" else mode

def pinOf : BackendTls → Option String
  | .verify => none
  | .relaxed _ pinThumbprint _ _ _ => pinThumbprint.filter (· ≠ "")

def caOf (anchors chain : Option String) : Option String :=
  let parts := (anchors.toList ++ chain.toList).filter (· ≠ "")
  if parts = [] then none else some ("\n".intercalate parts)

def optionsOf (mode : String) (pin : Option String) (material : Option CertificateMaterial)
    (anchors : Option String) : TlsOptions where
  cert := material.map (·.certPem)
  key := material.map (·.keyPem)
  ca := caOf anchors (material.bind (·.chainPem))
  rejectUnauthorized := !(mode == "insecure" || pin.isSome)
  checkServerIdentity :=
    match pin with
    | some thumbprint => some (.pinned thumbprint)
    | none => if mode = "skip-hostname" then some .any else none

/-- `tlsOptionsFor` (`data-plane/src/pipeline.ts:2126-2163`), with the certificate the route presents
and the bundle of the environment's anchors. -/
def tlsOptionsFor (tls : BackendTls) (_backendUrl : String) (material : Option CertificateMaterial)
    (bundle : Option String) (now : Nat) : Option TlsOptions :=
  let mode := modeName tls now
  let anchors := if mode = "insecure" then none else bundle.filter (· ≠ "")
  if mode = "verify" ∧ material = none ∧ anchors = none then none
  else
    let options := optionsOf mode (if mode = "pin" then pinOf tls else none) material anchors
    -- an object without a key is not handed on
    if options = ⟨none, none, none, true, none⟩ then none else some options

def TlsOptions.mode (options : TlsOptions) : TlsMode :=
  match options.checkServerIdentity with
  | some (.pinned thumbprint) => .pin thumbprint
  | some .any => .skipHostname
  | none => if options.rejectUnauthorized then .verify else .insecure

def connectionMode (tls : BackendTls) (backendUrl : String) (material : Option CertificateMaterial)
    (bundle : Option String) (now : Nat) : TlsMode :=
  ((tlsOptionsFor tls backendUrl material bundle now).map TlsOptions.mode).getD .verify

def servedMode (tls : BackendTls) (now : Nat) : TlsMode :=
  match tls with
  | .verify => .verify
  | .relaxed mode pinThumbprint expiresAt _ _ =>
    if expiresAt ≤ now then .verify else modeOf mode pinThumbprint

theorem mode_optionsOf (mode : String) (pin : Option String) (material : Option CertificateMaterial)
    (anchors : Option String) :
    (optionsOf mode (if mode = "pin" then pin.filter (· ≠ "") else none) material anchors).mode =
      modeOf mode pin := by
  unfold optionsOf modeOf
  by_cases hpin : mode = "pin"
  · subst hpin
    cases hkept : pin.filter (· ≠ "") with
    | none => simp [TlsOptions.mode]
    | some thumbprint => simp [TlsOptions.mode]
  · by_cases hinsecure : mode = "insecure"
    · simp [hinsecure, TlsOptions.mode]
    · by_cases hskip : mode = "skip-hostname"
      · simp [hskip, TlsOptions.mode]
      · simp [hpin, hinsecure, hskip, TlsOptions.mode]

theorem connectionMode_eq (tls : BackendTls) (backendUrl : String)
    (material : Option CertificateMaterial) (bundle : Option String) (now : Nat) :
    connectionMode tls backendUrl material bundle now = servedMode tls now := by
  have hpin : ∃ pin, pinOf tls = pin.filter (· ≠ "") ∧
      servedMode tls now = modeOf (modeName tls now) pin := by
    cases tls with
    | verify => exact ⟨none, rfl, rfl⟩
    | relaxed mode pin expiresAt id reason =>
      refine ⟨pin, rfl, ?_⟩
      simp only [servedMode, modeName]
      split
      · rfl
      · rfl
  obtain ⟨pin, hpin, hserved⟩ := hpin
  rw [connectionMode, tlsOptionsFor, hserved, hpin]
  dsimp only
  generalize (if modeName tls now = "insecure" then none else bundle.filter (· ≠ "")) = anchors
  split
  · rename_i hplain
    rw [hplain.1]
    rfl
  · rw [← mode_optionsOf (modeName tls now) pin material anchors]
    generalize optionsOf (modeName tls now) _ material anchors = options
    by_cases hempty : options = ⟨none, none, none, true, none⟩
    · rw [if_pos hempty, hempty]
      rfl
    · rw [if_neg hempty]
      rfl

/-! ### What the exceptions allow -/

def relaxation (x : TlsException) : TlsMode := modeOf x.mode x.pinThumbprint

def liveFor (stage : ControlPlane.Stage) (builtAt : Nat) (x : TlsException) : Bool :=
  x.resourceId == stage.1 && x.environment == stage.2 && x.revokedAt.isNone && builtAt < x.expiresAt

def Covers (x : TlsException) (backendUrl : String) : Prop :=
  x.backendUrl = none ∨ x.backendUrl = some backendUrl

def Applies (rows : List TlsException) (stage : ControlPlane.Stage) (builtAt now : Nat)
    (backendUrl : String) (x : TlsException) : Prop :=
  x ∈ rows ∧ liveFor stage builtAt x = true ∧ now < x.expiresAt ∧ Covers x backendUrl

def Chosen (rows : List TlsException) (stage : ControlPlane.Stage) (builtAt now : Nat)
    (backendUrl : String) (x : TlsException) : Prop :=
  Applies rows stage builtAt now backendUrl x ∧
    ∀ y, Applies rows stage builtAt now backendUrl y → narrower x y

/-- A connection is verified, or relaxed as the exception of its backend says. -/
def KeepsToExceptions (rows : List TlsException) (stage : ControlPlane.Stage) (builtAt now : Nat)
    (backendUrl : String) (mode : TlsMode) : Prop :=
  mode = .verify ∨ ∃ x, Chosen rows stage builtAt now backendUrl x ∧ mode = relaxation x

/-- The exception that comes first among all live ones of the stage, whichever backends they are of. -/
def FirstLive (rows : List TlsException) (stage : ControlPlane.Stage) (builtAt : Nat)
    (x : TlsException) : Prop :=
  Table.IsFirst narrower (rows.filter (liveFor stage builtAt)) x

/-- When the exception that comes first does a backend no harm: it is of this backend, or past its
end, or relaxes nothing, or the exception of the backend itself relaxes the same. -/
def Harmless (rows : List TlsException) (stage : ControlPlane.Stage) (builtAt now : Nat)
    (backendUrl : String) (x : TlsException) : Prop :=
  Covers x backendUrl ∨ x.expiresAt ≤ now ∨ relaxation x = .verify ∨
    ∃ y, Chosen rows stage builtAt now backendUrl y ∧ relaxation y = relaxation x

theorem narrower_total (a b : TlsException) : narrower a b ∨ narrower b a := by
  unfold narrower
  cases a.backendUrl <;> cases b.backendUrl <;> simp <;> omega

theorem narrower_trans (a b c : TlsException) (hab : narrower a b) (hbc : narrower b c) :
    narrower a c := by
  unfold narrower at hab hbc ⊢
  cases ha : a.backendUrl <;> cases hb : b.backendUrl <;> cases hc : c.backendUrl <;>
    simp [ha, hb, hc] at hab hbc ⊢ <;> omega

theorem tlsFor_eq (estate : Estate) (stage : ControlPlane.Stage) (builtAt : Nat) :
    tlsFor estate stage builtAt =
      (((estate.tlsExceptions.filter (liveFor stage builtAt)).insertionSort narrower).head?).elim
        .verify fun x => .relaxed x.mode x.pinThumbprint x.expiresAt x.id x.reason := by
  unfold tlsFor
  change _ = Option.elim (((estate.tlsExceptions.filter fun x => x.resourceId == stage.1 &&
    x.environment == stage.2 && x.revokedAt.isNone && builtAt < x.expiresAt).insertionSort
      narrower).head?) _ _
  dsimp only
  split
  next hnone => rw [hnone, Option.elim_none]
  next x hsome => rw [hsome, Option.elim_some]

theorem servedMode_tlsFor (estate : Estate) (stage : ControlPlane.Stage) (builtAt now : Nat) :
    (servedMode (tlsFor estate stage builtAt) now = .verify ∧
        ∀ x, ¬FirstLive estate.tlsExceptions stage builtAt x) ∨
      ∃ x, FirstLive estate.tlsExceptions stage builtAt x ∧
        servedMode (tlsFor estate stage builtAt) now =
          if x.expiresAt ≤ now then .verify else relaxation x := by
  rw [tlsFor_eq]
  cases hhead : ((estate.tlsExceptions.filter (liveFor stage builtAt)).insertionSort narrower).head? with
  | none =>
    refine .inl ⟨rfl, fun x hx => ?_⟩
    obtain ⟨first, hfirst⟩ := Table.head?_insertionSort_isSome (r := narrower) hx.mem
    rw [hhead] at hfirst
    cases hfirst
  | some x =>
    exact .inr ⟨x, Table.isFirst_of_head? narrower_total narrower_trans hhead, rfl⟩

theorem FirstLive.chosen {rows : List TlsException} {stage : ControlPlane.Stage} {builtAt now : Nat}
    {backendUrl : String} {x : TlsException} (h : FirstLive rows stage builtAt x)
    (hnow : now < x.expiresAt) (hcovers : Covers x backendUrl) :
    Chosen rows stage builtAt now backendUrl x := by
  obtain ⟨hmem, hlive⟩ := List.mem_filter.mp h.mem
  refine ⟨⟨hmem, hlive, hnow, hcovers⟩, fun y hy => ?_⟩
  exact h.rel narrower_total (List.mem_filter.mpr ⟨hy.1, hy.2.1⟩)

theorem keepsToExceptions_served (estate : Estate) (stage : ControlPlane.Stage) (builtAt now : Nat)
    (backendUrl : String) :
    KeepsToExceptions estate.tlsExceptions stage builtAt now backendUrl
        (servedMode (tlsFor estate stage builtAt) now) ↔
      ∀ x, FirstLive estate.tlsExceptions stage builtAt x →
        Harmless estate.tlsExceptions stage builtAt now backendUrl x := by
  rcases servedMode_tlsFor estate stage builtAt now with ⟨hverify, hnone⟩ | ⟨x, hfirst, hserved⟩
  · exact iff_of_true (.inl hverify) fun x hx => absurd hx (hnone x)
  · have honly : (∀ y, FirstLive estate.tlsExceptions stage builtAt y →
        Harmless estate.tlsExceptions stage builtAt now backendUrl y) ↔
          Harmless estate.tlsExceptions stage builtAt now backendUrl x := by
      refine ⟨fun h => h x hfirst, fun h y hy => ?_⟩
      rw [hy.unique hfirst]
      exact h
    rw [honly, hserved]
    by_cases hpast : x.expiresAt ≤ now
    · rw [if_pos hpast]
      exact iff_of_true (.inl rfl) (.inr (.inl hpast))
    · rw [if_neg hpast]
      constructor
      · rintro (hverify | ⟨y, hchosen, hsame⟩)
        · exact .inr (.inr (.inl hverify))
        · exact .inr (.inr (.inr ⟨y, hchosen, hsame.symm⟩))
      · rintro (hcovers | hpast' | hverify | ⟨y, hchosen, hsame⟩)
        · exact .inr ⟨x, hfirst.chosen (Nat.not_le.mp hpast) hcovers, rfl⟩
        · exact absurd hpast' hpast
        · exact .inl hverify
        · exact .inr ⟨y, hchosen, hsame.symm⟩

/-! ### Requests of a route -/

def ruleOf : LoadRule → Backend.PoolRule
  | .failover => .failover
  | .roundRobin => .roundRobin

def poolOf (backend : ControlPlane.Backend) : List Backend.BackendEntry :=
  backend.pool.map fun entry => ⟨entry.url, entry.weight⟩

/-- The backend of an attempt (`data-plane/src/pipeline.ts:1446-1500`): the attempts past the last
backend of the order stay with it. -/
def backendAt (backend : ControlPlane.Backend) (cursor : Nat) (isHealthy : String → Bool)
    (attempt : Nat) : Option Backend.BackendEntry :=
  let order := Backend.selectionOrder (poolOf backend) (ruleOf backend.rule) cursor isHealthy
  order[min attempt (order.length - 1)]?

theorem mem_of_backendAt {backend : ControlPlane.Backend} {cursor : Nat} {isHealthy : String → Bool}
    {attempt : Nat} {entry : Backend.BackendEntry}
    (h : backendAt backend cursor isHealthy attempt = some entry) :
    ∃ written ∈ backend.pool, written.url = entry.url := by
  have horder := List.mem_of_getElem? h
  have hpool := Backend.mem_pool_of_mem_selectionOrder horder
  obtain ⟨written, hwritten, rfl⟩ := List.mem_map.mp hpool
  exact ⟨written, hwritten, rfl⟩

theorem tls_of_mem_routes {app : App} {db : Database} {environment : Environment}
    {targetId : Option TargetId} {route : ConfigRoute}
    (h : route ∈ (buildConfig app db environment targetId).body.routes) :
    route.tls = tlsFor db.estate (route.resourceId, environment) db.clock := by
  obtain ⟨row, -, hrendered⟩ := (mem_routes app.platform db environment targetId route).mp h
  unfold renderRow at hrendered
  dsimp only at hrendered
  split at hrendered
  · cases hrendered
  · split at hrendered
    · cases hrendered
    · cases hrendered
      rfl

theorem keepsToExceptions_iff {app : App} {db : Database} {environment : Environment}
    {targetId : Option TargetId} {route : ConfigRoute}
    (hroute : route ∈ (buildConfig app db environment targetId).body.routes) (cursor : Nat)
    (isHealthy : String → Bool) (attempt : Nat) (entry : Backend.BackendEntry)
    (hentry : backendAt route.backend cursor isHealthy attempt = some entry)
    (material : Option CertificateMaterial) (bundle : Option String) (now : Nat) :
    (∃ written ∈ route.backend.pool, written.url = entry.url) ∧
      (KeepsToExceptions db.estate.tlsExceptions (route.resourceId, environment) db.clock now
          entry.url (connectionMode route.tls entry.url material bundle now) ↔
        ∀ x, FirstLive db.estate.tlsExceptions (route.resourceId, environment) db.clock x →
          Harmless db.estate.tlsExceptions (route.resourceId, environment) db.clock now entry.url x) := by
  refine ⟨mem_of_backendAt hentry, ?_⟩
  rw [connectionMode_eq, tls_of_mem_routes hroute]
  exact keepsToExceptions_served db.estate _ db.clock now entry.url

def twoBackends (exceptions : List TlsException) : Database :=
  { Database.empty with
    resources := [⟨1, .rest, "orders", "sales", "v1", "active", none, "private", none, none, none, 0⟩]
    ledger := { Database.empty.ledger with
      revisions := [⟨2, 1, 1, "", "", "", "", none, none, none, 0⟩]
      releases := [⟨3, 1, 2, "prod", .converged, "", ⟨"ada", true, []⟩, 0, none⟩] }
    live := { Database.empty.live with
      route := fun stage => if stage = (1, "prod") then some ⟨"*", "/orders"⟩ else none
      binding := fun stage =>
        if stage = (1, "prod") then
          some ⟨[⟨"https://a", none⟩, ⟨"https://b", none⟩], .roundRobin, none⟩
        else none }
    estate := { Database.empty.estate with tlsExceptions := exceptions } }

def plainApp : App := ⟨Platform.plain, ⟨["prod"], 60, 10, 30, 24⟩⟩

def insecureFirst : TlsException :=
  ⟨7, 1, "prod", some "https://a", "insecure", none, "the certificate is renewed next week", 1000, none⟩

theorem routes_twoBackends : ((buildConfig plainApp (twoBackends [insecureFirst]) "prod"
    none).body.routes.map fun route => (route.resourceId, route.backend)) =
      [(1, ⟨[⟨"https://a", none⟩, ⟨"https://b", none⟩], .roundRobin, none⟩)] := by
  rfl

theorem route_twoBackends : ∃ route ∈ (buildConfig plainApp (twoBackends [insecureFirst]) "prod"
    none).body.routes, route.resourceId = 1 ∧
      route.backend = ⟨[⟨"https://a", none⟩, ⟨"https://b", none⟩], .roundRobin, none⟩ := by
  have hmem := List.mem_of_mem_head? (congrArg List.head? routes_twoBackends)
  obtain ⟨route, hroute, hshape⟩ := List.mem_map.mp hmem
  exact ⟨route, hroute, (Prod.mk.inj hshape).1, (Prod.mk.inj hshape).2⟩

theorem keepsToExceptions_insecureFirst : ∃ route ∈ (buildConfig plainApp
    (twoBackends [insecureFirst]) "prod" none).body.routes,
      KeepsToExceptions [insecureFirst] (route.resourceId, "prod") 0 10 "https://a"
        (connectionMode route.tls "https://a" none none 10) := by
  obtain ⟨route, hroute, -, hbackend⟩ := route_twoBackends
  have hentry : backendAt route.backend 0 (fun _ => true) 0 = some ⟨"https://a", none⟩ := by
    rw [hbackend]
    decide
  refine ⟨route, hroute,
    (keepsToExceptions_iff hroute 0 (fun _ => true) 0 _ hentry none none 10).2.mpr fun x hx => ?_⟩
  have hx : x ∈ [insecureFirst] := (List.mem_filter.mp hx.mem).1
  rw [List.mem_singleton.mp hx]
  exact .inl (.inr rfl)

theorem unverified_without_exception : ¬∀ (app : App) (db : Database) (environment : Environment)
    (targetId : Option TargetId), ∀ route ∈ (buildConfig app db environment targetId).body.routes,
      ∀ cursor isHealthy attempt entry,
        backendAt route.backend cursor isHealthy attempt = some entry →
          ∀ material bundle now, db.clock ≤ now →
            KeepsToExceptions db.estate.tlsExceptions (route.resourceId, environment) db.clock now
              entry.url (connectionMode route.tls entry.url material bundle now) := by
  intro hall
  obtain ⟨route, hroute, hid, hbackend⟩ := route_twoBackends
  have hentry : backendAt route.backend 1 (fun _ => true) 0 = some ⟨"https://b", none⟩ := by
    rw [hbackend]
    decide
  have hkeeps := hall plainApp _ "prod" none route hroute 1 (fun _ => true) 0 _ hentry none none 10
    (Nat.zero_le 10)
  rw [connectionMode_eq, tls_of_mem_routes hroute, keepsToExceptions_served, hid] at hkeeps
  have hother : ¬Covers insecureFirst "https://b" := by
    rintro (hnone | hurl)
    · cases hnone
    · exact absurd hurl (by decide)
  have hfirst : FirstLive [insecureFirst] (1, "prod") 0 insecureFirst :=
    ⟨[], [], rfl, fun y hy => absurd hy List.not_mem_nil, fun y hy => absurd hy List.not_mem_nil⟩
  rcases hkeeps insecureFirst hfirst with hcovers | hpast | hverify | ⟨y, hchosen, -⟩
  · exact hother hcovers
  · exact absurd hpast (by decide)
  · exact absurd hverify (by decide)
  · have hy := List.mem_singleton.mp hchosen.1.1
    rw [hy] at hchosen
    exact hother hchosen.1.2.2.2

end Apim.DataPlane
