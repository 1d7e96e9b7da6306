import Apim.ControlPlane.Egress
import Apim.Lib.Trace

/-!
# Deny rules and the documents built under them

The table of deny rules with its cache (`control-plane/src/deny-rules.ts:32-125`), the two routes that
write it (`control-plane/src/api/trust.ts:974-1066`) and the builds that read it, in any order with the
other writes of the control plane. The cache never differs from the table (`Fresh`), so a build omits
exactly the routes with a backend that a rule in force at that moment matches.
-/

namespace Apim.ControlPlane
open Overlay Policy Trace

structure DenyRow where
  rule : DenyRule
  createdAt : Nat
  removedAt : Option Nat
  deriving DecidableEq, Repr

/-- The control plane as far as the rules are concerned. `db` holds every other table. -/
structure EgressState where
  db : Database
  rows : List DenyRow
  cache : Option (List DenyRule)

structure EgressConfig where
  app : App
  parse : String → Option UrlParts
  publicUrl : String
  maxEgressDenyRules : Nat

/-! ### Reading the rules -/

/-- `ORDER BY created_at, id`. -/
def creationOrder (a b : DenyRow) : Prop :=
  a.createdAt < b.createdAt ∨ (a.createdAt = b.createdAt ∧ a.rule.id ≤ b.rule.id)

instance (a b : DenyRow) : Decidable (creationOrder a b) := inferInstanceAs (Decidable (_ ∨ _))

def liveRules (rows : List DenyRow) : List DenyRule :=
  ((rows.filter (·.removedAt.isNone)).insertionSort creationOrder).map (·.rule)

theorem mem_liveRules (rows : List DenyRow) (rule : DenyRule) :
    rule ∈ liveRules rows ↔ ∃ row ∈ rows, row.removedAt = none ∧ row.rule = rule := by
  simp only [liveRules, List.mem_map, List.mem_insertionSort, List.mem_filter,
    Option.isNone_iff_eq_none, and_assoc]

def liveDenyRules (s : EgressState) : List DenyRule × EgressState :=
  match s.cache with
  | some rules => (rules, s)
  | none => (liveRules s.rows, { s with cache := some (liveRules s.rows) })

def SELF_RULE_ID : String := "deny-public-url-self"

def selfRule (cfg : EgressConfig) : Option DenyRule :=
  match cfg.parse cfg.publicUrl with
  | none => none
  | some url =>
    if url.hostname = "" then none
    else some {
      id := SELF_RULE_ID
      environment := none
      scheme := none
      hostPattern := url.hostname
      ports := []
      portRange := none
      reason := "The portal's own address (PUBLIC_URL). A route pointed back at the control plane " ++
        "would let a gateway proxy to this API, which is neither a backend nor something a " ++
        "subscription should reach. This rule is stated by the platform and cannot be removed." }

def denyRulesFor (cfg : EgressConfig) (s : EgressState) : List DenyRule × EgressState :=
  let (rules, s) := liveDenyRules s
  ((selfRule cfg).toList ++ rules, s)

/-! ### Writing the rules -/

def sameRule (a b : DenyRule) : Bool :=
  a.environment == b.environment && a.scheme == b.scheme && lowered a.hostPattern == lowered b.hostPattern

/-- `POST /api/trust/deny-rules` of a draft that has been parsed; a refused one leaves the table. -/
def createRule (cfg : EgressConfig) (s : EgressState) (rule : DenyRule) : EgressState :=
  let (live, s) := liveDenyRules s
  if cfg.maxEgressDenyRules ≤ live.length then s
  else if s.rows.any fun row => row.removedAt.isNone && sameRule row.rule rule then s
  else { s with rows := s.rows ++ [⟨rule, s.db.clock, none⟩], cache := none }

def removeRule (s : EgressState) (id : String) : EgressState :=
  match s.rows.find? fun row => row.rule.id == id with
  | none => s
  | some row =>
    if row.removedAt.isNone then
      { s with
        rows := s.rows.map fun row =>
          if row.rule.id == id then { row with removedAt := some s.db.clock } else row
        cache := none }
    else s

/-- What happens: a rule is written, another route of the control plane writes what it likes after it
has read the rules, or a document is built. -/
inductive EgressEvent where
  | create (rule : DenyRule)
  | remove (id : String)
  | write (db : Database)
  | build (environment : Environment) (targetId : Option TargetId)

def egressStep (cfg : EgressConfig) (s : EgressState) : EgressEvent → Option EgressState
  | .create rule => some (createRule cfg s rule)
  | .remove id => if id = SELF_RULE_ID then none else some (removeRule s id)
  | .write db => some { (denyRulesFor cfg s).2 with db := db }
  | .build _ _ => some (denyRulesFor cfg s).2

/-- The platform that matches rules as `egress.ts` does. -/
def EgressConfig.platform (cfg : EgressConfig) : Platform :=
  { cfg.app.platform with ruleMatches := ruleMatches cfg.parse }

def EgressState.underRules (s : EgressState) (rules : List DenyRule) : Database :=
  { s.db with estate := { s.db.estate with denyRules := rules } }

def builtDocument (cfg : EgressConfig) (s : EgressState) (environment : Environment)
    (targetId : Option TargetId) : GatewayConfig :=
  buildConfig { cfg.app with platform := cfg.platform } (s.underRules (denyRulesFor cfg s).1)
    environment targetId

/-! ### The cache is never stale -/

def EgressState.Fresh (s : EgressState) : Prop := ∀ rules, s.cache = some rules → rules = liveRules s.rows

variable {s : EgressState}

theorem liveDenyRules_of_fresh (h : s.Fresh) :
    (liveDenyRules s).1 = liveRules s.rows ∧ (liveDenyRules s).2.rows = s.rows ∧
      (liveDenyRules s).2.db = s.db ∧ (liveDenyRules s).2.Fresh := by
  unfold liveDenyRules
  cases hcache : s.cache with
  | some rules => exact ⟨h rules hcache, rfl, rfl, h⟩
  | none =>
    refine ⟨rfl, rfl, rfl, fun rules hrules => ?_⟩
    cases hrules
    rfl

variable {cfg : EgressConfig}

theorem fresh_createRule (h : s.Fresh) (rule : DenyRule) : (createRule cfg s rule).Fresh := by
  have hread := (liveDenyRules_of_fresh h).2.2.2
  unfold createRule
  dsimp only
  split
  · exact hread
  · split
    · exact hread
    · exact fun rules hrules => nomatch hrules

theorem fresh_removeRule (h : s.Fresh) (id : String) : (removeRule s id).Fresh := by
  unfold removeRule
  split
  · exact h
  · split
    · exact fun rules hrules => nomatch hrules
    · exact h

theorem fresh_step {next : EgressState} {event : EgressEvent} (h : s.Fresh)
    (hstep : egressStep cfg s event = some next) : next.Fresh := by
  have hread := (liveDenyRules_of_fresh h).2.2.2
  cases event with
  | create rule =>
    cases hstep
    exact fresh_createRule h rule
  | remove id =>
    simp only [egressStep] at hstep
    split at hstep
    · cases hstep
    · cases hstep
      exact fresh_removeRule h id
  | write db =>
    cases hstep
    exact hread
  | build environment targetId =>
    cases hstep
    exact hread

/-! ### What a document should be -/

def InForce (cfg : EgressConfig) (s : EgressState) (rule : DenyRule) : Prop :=
  selfRule cfg = some rule ∨ ∃ row ∈ s.rows, row.removedAt = none ∧ row.rule = rule

theorem mem_denyRulesFor (h : s.Fresh) (rule : DenyRule) :
    rule ∈ (denyRulesFor cfg s).1 ↔ InForce cfg s rule := by
  have hrules : (denyRulesFor cfg s).1 = (selfRule cfg).toList ++ (liveDenyRules s).1 := rfl
  rw [hrules, (liveDenyRules_of_fresh h).1, List.mem_append, Option.mem_toList, mem_liveRules]
  exact Iff.rfl

def reaches (cfg : EgressConfig) (environment : Environment) (rule : DenyRule) (rawUrl : String)
    (url : UrlParts) : Prop :=
  cfg.parse rawUrl = some url ∧ rule.environment.all (· == environment) = true ∧
    reachedBy rule url = true

def Covers (cfg : EgressConfig) (environment : Environment) (rule : DenyRule) (rawUrl : String) : Prop :=
  ∃ url, reaches cfg environment rule rawUrl url ∧ dnsCovers url.hostname rule.hostPattern = true

def policyValid (cfg : EgressConfig) (s : EgressState) (environment : Environment) (row : RouteRow) :
    Prop :=
  validateDocument cfg.app.platform.validateUnit row.resource.kind
    (activeDocument (effectiveDocument s.db.live (row.resource.id, environment))) = []

/-- No route of the document has a backend that a rule covers, every other one with a valid policy is
there, and what the document says of an omitted route is so. -/
structure DocumentRight (cfg : EgressConfig) (s : EgressState) (environment : Environment)
    (targetId : Option TargetId) : Prop where
  denied : ∀ route ∈ (builtDocument cfg s environment targetId).body.routes,
    ∀ entry ∈ route.backend.pool, ∀ rule, InForce cfg s rule → ¬ Covers cfg environment rule entry.url
  served : ∀ row ∈ routeRows s.db environment targetId, policyValid cfg s environment row →
    (∀ entry ∈ row.backend.pool, ∀ rule, InForce cfg s rule → ¬ Covers cfg environment rule entry.url) →
    ∃ route ∈ (builtDocument cfg s environment targetId).body.routes,
      route.resourceId = row.resource.id ∧ route.backend = row.backend
  named : ∀ error ∈ (builtDocument cfg s environment targetId).body.errors,
    ∀ url rule, error.detail = .deniedBackend url rule →
      InForce cfg s rule ∧ Covers cfg environment rule url ∧
        ∃ row ∈ routeRows s.db environment targetId, row.resource.id = error.resourceId ∧
          ∃ entry ∈ row.backend.pool, entry.url = url

/-! ### What a document is -/

def Matches (cfg : EgressConfig) (environment : Environment) (rule : DenyRule) (rawUrl : String) : Prop :=
  ∃ url, reaches cfg environment rule rawUrl url ∧ hostMatches url.hostname rule.hostPattern = true

variable {environment : Environment} {rule : DenyRule}

theorem covers_of_matches {rawUrl : String} (h : Matches cfg environment rule rawUrl) :
    Covers cfg environment rule rawUrl := by
  obtain ⟨url, hreaches, hhost⟩ := h
  exact ⟨url, hreaches, ((hostMatches_iff _ _).mp hhost).1⟩

theorem matches_iff (cfg : EgressConfig) (environment : Environment) (rule : DenyRule)
    (rawUrl : String) :
    (rule.environment.all (· == environment) && cfg.platform.ruleMatches rule rawUrl) = true ↔
      Matches cfg environment rule rawUrl := by
  have hplatform : cfg.platform.ruleMatches rule rawUrl = ruleMatches cfg.parse rule rawUrl := rfl
  rw [hplatform, Bool.and_eq_true]
  unfold ruleMatches Matches reaches
  cases hparse : cfg.parse rawUrl with
  | none => simp
  | some url => simp [and_assoc, and_comm]

theorem blockedBackend_eq_none (h : s.Fresh) (environment : Environment) (backend : Backend) :
    blockedBackend cfg.platform (s.underRules (denyRulesFor cfg s).1) environment backend = none ↔
      ∀ entry ∈ backend.pool, ∀ rule, InForce cfg s rule →
        ¬ Matches cfg environment rule entry.url := by
  have hrules : (s.underRules (denyRulesFor cfg s).1).estate.denyRules = (denyRulesFor cfg s).1 := rfl
  unfold blockedBackend matchingDenyRule
  rw [hrules, List.findSome?_eq_none_iff]
  refine forall₂_congr fun entry _ => ?_
  rw [Option.map_eq_none_iff, List.find?_eq_none]
  refine forall_congr' fun rule => ?_
  rw [mem_denyRulesFor h, matches_iff]

theorem of_blockedBackend (h : s.Fresh) {backend : Backend} {url : String}
    (hblocked : blockedBackend cfg.platform (s.underRules (denyRulesFor cfg s).1) environment backend =
      some (url, rule)) :
    InForce cfg s rule ∧ Matches cfg environment rule url ∧
      ∃ entry ∈ backend.pool, entry.url = url := by
  obtain ⟨entry, hentry, hfound⟩ := List.exists_of_findSome?_eq_some hblocked
  obtain ⟨found, hrule, hpair⟩ := Option.map_eq_some_iff.mp hfound
  cases hpair
  have hmem := (mem_denyRulesFor h rule).mp (List.mem_of_find?_eq_some hrule)
  unfold matchingDenyRule at hrule
  have hsome := List.find?_some hrule
  have hmatches := (matches_iff cfg environment rule entry.url).mp hsome
  exact ⟨hmem, hmatches, entry, hentry, rfl⟩

theorem renderRow_cases (cfg : EgressConfig) (s : EgressState) (environment : Environment)
    (row : RouteRow) (h : s.Fresh) :
    (¬ policyValid cfg s environment row ∧ ∃ problems,
      renderRow cfg.platform (s.underRules (denyRulesFor cfg s).1) environment row =
        .error ⟨row.resource.id, resourceTitle row.resource, .invalidPolicy problems⟩) ∨
    (policyValid cfg s environment row ∧ ∃ url rule, InForce cfg s rule ∧
      Matches cfg environment rule url ∧ (∃ entry ∈ row.backend.pool, entry.url = url) ∧
      renderRow cfg.platform (s.underRules (denyRulesFor cfg s).1) environment row =
        .error ⟨row.resource.id, resourceTitle row.resource, .deniedBackend url rule⟩) ∨
    (policyValid cfg s environment row ∧
      (∀ entry ∈ row.backend.pool, ∀ rule, InForce cfg s rule →
        ¬ Matches cfg environment rule entry.url) ∧
      ∃ route, renderRow cfg.platform (s.underRules (denyRulesFor cfg s).1) environment row = .ok route ∧
        route.resourceId = row.resource.id ∧ route.backend = row.backend) := by
  have hpolicy : policyValid cfg s environment row ↔
      (validateDocument cfg.platform.validateUnit row.resource.kind (activeDocument (effectiveDocument
        (s.underRules (denyRulesFor cfg s).1).live (row.resource.id, environment)))).isEmpty = true :=
    List.isEmpty_iff.symm
  unfold renderRow
  dsimp only
  cases hempty : (validateDocument cfg.platform.validateUnit row.resource.kind (activeDocument
      (effectiveDocument (s.underRules (denyRulesFor cfg s).1).live
        (row.resource.id, environment)))).isEmpty with
  | false =>
    rw [hempty] at hpolicy
    exact .inl ⟨fun hvalid => Bool.false_ne_true (hpolicy.mp hvalid), _, rfl⟩
  | true =>
    have hvalid := hpolicy.mpr hempty
    simp only [Bool.not_true, Bool.false_eq_true, if_false]
    cases hblocked : blockedBackend cfg.platform (s.underRules (denyRulesFor cfg s).1) environment
        row.backend with
    | none =>
      have hnone := (blockedBackend_eq_none h environment row.backend).mp hblocked
      exact .inr (.inr ⟨hvalid, hnone, _, rfl, rfl, rfl⟩)
    | some blocked =>
      obtain ⟨url, rule⟩ := blocked
      obtain ⟨hforce, hmatches, hentry⟩ := of_blockedBackend h hblocked
      exact .inr (.inl ⟨hvalid, url, rule, hforce, hmatches, hentry, rfl⟩)

/-! ### When the documents are right -/

/-- Of the rows that would be served, one with a backend that a rule covers but for a dot at the end
has a backend, the same or another, that a rule covers with the dot. -/
def SpelledAlike (cfg : EgressConfig) (s : EgressState) (environment : Environment)
    (targetId : Option TargetId) : Prop :=
  ∀ row ∈ routeRows s.db environment targetId, policyValid cfg s environment row →
    ∀ entry ∈ row.backend.pool, ∀ rule url, InForce cfg s rule →
      reaches cfg environment rule entry.url url → dnsCovers url.hostname rule.hostPattern = true →
      dotted url.hostname ≠ dotted rule.hostPattern →
      ∃ entry' ∈ row.backend.pool, ∃ rule' url', InForce cfg s rule' ∧
        reaches cfg environment rule' entry'.url url' ∧
        dnsCovers url'.hostname rule'.hostPattern = true ∧
        dotted url'.hostname = dotted rule'.hostPattern

theorem mem_builtRoutes (cfg : EgressConfig) (s : EgressState) (environment : Environment)
    (targetId : Option TargetId) (route : ConfigRoute) :
    route ∈ (builtDocument cfg s environment targetId).body.routes ↔
      ∃ row ∈ routeRows s.db environment targetId,
        renderRow cfg.platform (s.underRules (denyRulesFor cfg s).1) environment row = .ok route :=
  mem_routes cfg.platform (s.underRules (denyRulesFor cfg s).1) environment targetId route

theorem deniedBackend_of_error (h : s.Fresh) {targetId : Option TargetId} {error : ConfigError}
    (hmem : error ∈ (builtDocument cfg s environment targetId).body.errors) {url : String}
    (hdetail : error.detail = .deniedBackend url rule) :
    InForce cfg s rule ∧ Matches cfg environment rule url ∧
      ∃ row ∈ routeRows s.db environment targetId, row.resource.id = error.resourceId ∧
        ∃ entry ∈ row.backend.pool, entry.url = url := by
  rcases List.mem_append.mp hmem with hroute | hreference
  · obtain ⟨row, hrow, herror⟩ := (mem_routeErrors _ _ _ _ _).mp hroute
    rcases renderRow_cases cfg s environment row h with
      ⟨_, problems, hcase⟩ | ⟨_, url', rule', hforce, hmatches, hentry, hcase⟩ | ⟨_, _, route, hcase, _⟩
    · cases herror.symm.trans hcase
      cases hdetail
    · cases herror.symm.trans hcase
      cases hdetail
      exact ⟨hforce, hmatches, row, hrow, rfl, hentry⟩
    · cases herror.symm.trans hcase
  · obtain ⟨_, _, _, _, _, _, rfl⟩ := (mem_referenceErrors _ _ _ _).mp hreference
    cases hdetail

theorem matches_of_covers {rawUrl : String} {url : UrlParts}
    (hreaches : reaches cfg environment rule rawUrl url)
    (hcovers : dnsCovers url.hostname rule.hostPattern = true)
    (hdots : dotted url.hostname = dotted rule.hostPattern) : Matches cfg environment rule rawUrl :=
  ⟨url, hreaches, (hostMatches_iff _ _).mpr ⟨hcovers, hdots⟩⟩

theorem documentRight_iff (h : s.Fresh) (environment : Environment) (targetId : Option TargetId) :
    DocumentRight cfg s environment targetId ↔ SpelledAlike cfg s environment targetId := by
  constructor
  · intro hright row hrow hvalid entry hentry rule url hforce hreaches hcovers _
    rcases renderRow_cases cfg s environment row h with
      ⟨hinvalid, _⟩ | ⟨_, _, rule', hforce', ⟨url', hreaches', hhost⟩, ⟨entry', hentry', rfl⟩, _⟩ |
        ⟨_, _, route, hroute, _, hbackend⟩
    · exact absurd hvalid hinvalid
    · obtain ⟨hcovers', hdots⟩ := (hostMatches_iff _ _).mp hhost
      exact ⟨entry', hentry', rule', url', hforce', hreaches', hcovers', hdots⟩
    · have hserved := (mem_builtRoutes cfg s environment targetId route).mpr ⟨row, hrow, hroute⟩
      rw [← hbackend] at hentry
      exact absurd ⟨url, hreaches, hcovers⟩ (hright.denied route hserved entry hentry rule hforce)
  · intro halike
    constructor
    · rintro route hroute entry hentry rule hforce ⟨url, hreaches, hcovers⟩
      obtain ⟨row, hrow, hrendered⟩ := (mem_builtRoutes cfg s environment targetId route).mp hroute
      rcases renderRow_cases cfg s environment row h with
        ⟨_, _, hcase⟩ | ⟨_, _, _, _, _, _, hcase⟩ | ⟨hvalid, hnone, route', hcase, _, hbackend⟩
      · cases hrendered.symm.trans hcase
      · cases hrendered.symm.trans hcase
      · cases hrendered.symm.trans hcase
        rw [hbackend] at hentry
        by_cases hdots : dotted url.hostname = dotted rule.hostPattern
        · exact hnone entry hentry rule hforce (matches_of_covers hreaches hcovers hdots)
        · obtain ⟨entry', hentry', rule', url', hforce', hreaches', hcovers', hdots'⟩ :=
            halike row hrow hvalid entry hentry rule url hforce hreaches hcovers hdots
          exact hnone entry' hentry' rule' hforce' (matches_of_covers hreaches' hcovers' hdots')
    · intro row hrow hvalid huncovered
      rcases renderRow_cases cfg s environment row h with
        ⟨hinvalid, _⟩ | ⟨_, _, rule, hforce, hmatches, ⟨entry, hentry, rfl⟩, _⟩ |
          ⟨_, _, route, hroute, hid, hbackend⟩
      · exact absurd hvalid hinvalid
      · exact absurd (covers_of_matches hmatches) (huncovered entry hentry rule hforce)
      · have hserved := (mem_builtRoutes cfg s environment targetId route).mpr ⟨row, hrow, hroute⟩
        exact ⟨route, hserved, hid, hbackend⟩
    · intro error hmem url rule hdetail
      obtain ⟨hforce, hmatches, hrow⟩ := deniedBackend_of_error h hmem hdetail
      exact ⟨hforce, covers_of_matches hmatches, hrow⟩

theorem documents_right_iff (cfg : EgressConfig) (db : Database) (rows : List DenyRow)
    (events : List EgressEvent) :
    EveryStep (egressStep cfg) (fun s event _ => ∀ environment targetId,
        event = .build environment targetId → DocumentRight cfg s environment targetId)
      ⟨db, rows, none⟩ events ↔
    EveryStep (egressStep cfg) (fun s event _ => ∀ environment targetId,
        event = .build environment targetId → SpelledAlike cfg s environment targetId)
      ⟨db, rows, none⟩ events := by
  have hfresh : EgressState.Fresh ⟨db, rows, none⟩ := fun rules hrules => nomatch hrules
  refine everyStep_congr_of_invariant (fun s event next hs hstep => fresh_step hs hstep)
    (fun s event next hs _ => ?_) hfresh events
  exact forall₃_congr fun environment targetId _ => documentRight_iff hs environment targetId

/-! ### A host with a dot at the end -/

def parseTwo (rawUrl : String) : Option UrlParts :=
  if rawUrl = "https://portal.example.com" then some ⟨"https:", "portal.example.com", none⟩
  else if rawUrl = "https://backend.example.com./v1" then some ⟨"https:", "backend.example.com.", none⟩
  else none

def dottedConfig : EgressConfig where
  app := ⟨.plain, ⟨["dev"], 0, 0, 0, 0⟩⟩
  parse := parseTwo
  publicUrl := "https://portal.example.com"
  maxEgressDenyRules := 64

def blockedHost : DenyRule where
  id := "deny-1"
  environment := none
  scheme := none
  hostPattern := "backend.example.com"
  ports := []
  portRange := none
  reason := "the host is being taken out of service"

def dottedDatabase : Database :=
  { Database.empty with
    resources := [⟨1, .rest, "Pets", "app", "v1", "active", none, "listed", none, none, none, 0⟩]
    ledger :=
      { Database.empty.ledger with
        revisions := [⟨2, 1, 1, "", "", "", "", none, none, none, 0⟩]
        releases := [⟨3, 1, 2, "dev", .converged, "", ⟨"u", true, []⟩, 0, none⟩] }
    live :=
      { Database.empty.live with
        route := fun stage => if stage = (1, "dev") then some ⟨"*", "/pets"⟩ else none
        binding := fun stage =>
          if stage = (1, "dev") then some ⟨[⟨"https://backend.example.com./v1", none⟩], .failover, none⟩
          else none } }

theorem dotted_host_built : ((egressStep dottedConfig ⟨dottedDatabase, [], none⟩ (.create blockedHost)).map
    fun s => (s.rows.any fun row => row.removedAt.isNone && row.rule = blockedHost) &&
      (builtDocument dottedConfig s "dev" none).body.routes.any fun route =>
        route.backend.pool.any fun entry => entry.url = "https://backend.example.com./v1") =
    some true := by
  decide +kernel

theorem dotted_host_served : ¬ EveryStep (egressStep dottedConfig)
    (fun s event _ => ∀ environment targetId, event = .build environment targetId →
      DocumentRight dottedConfig s environment targetId)
    ⟨dottedDatabase, [], none⟩ [.create blockedHost, .build "dev" none] := by
  intro h
  obtain ⟨s, hs, hseen⟩ := Option.map_eq_some_iff.mp dotted_host_built
  have hright := (((h s hs).2 _ rfl).1) "dev" none rfl
  simp only [Bool.and_eq_true, List.any_eq_true, decide_eq_true_eq, Option.isNone_iff_eq_none] at hseen
  obtain ⟨⟨row, hrow, hlive, hrule⟩, route, hroute, entry, hentry, hurl⟩ := hseen
  refine hright.denied route hroute entry hentry blockedHost (.inr ⟨row, hrow, hlive, hrule⟩) ?_
  rw [hurl]
  exact ⟨⟨"https:", "backend.example.com.", none⟩, ⟨rfl, rfl, rfl⟩, by decide⟩

end Apim.ControlPlane
