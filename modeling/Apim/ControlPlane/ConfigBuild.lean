import Mathlib.Data.List.Dedup
import Apim.ControlPlane.Globals

/-!
# The configuration document

What a gateway is handed for its environment (`control-plane/src/config-build.ts`). `buildRoutes`
joins each converged release with its address and backend and leaves out a route whose effective
policy is invalid or whose backend a deny rule covers; `buildConfig` adds the settings,
subscriptions, certificates, anchors and references, and takes the digest of the whole. A document
is built for one gateway (`targetId`) or for the environment as a whole.

`Platform` holds what the build calls and this development does not open: the vocabulary of a
single unit, the rendering of a route's `validate` and `errorFormat` units and of its contract
blocks, the matching of a deny rule, and the digests.
-/

namespace Apim.ControlPlane
open Overlay Policy GatewaySettings

/-- `CONFIG_VERSION` (`shared/config-doc.ts:34`). -/
def CONFIG_VERSION : Nat := 6

/-! ### The document -/

inductive BackendTls where
  | verify
  | relaxed (mode : String) (pinThumbprint : Option String) (expiresAt : Nat) (exceptionId : Nat)
      (reason : String)

/-- `ConfigRoute` (`shared/config-doc.ts:105-138`). `contract` stands for the `soap`, `mcp` and
`a2a` blocks, and an artifact is its digest. -/
structure ConfigRoute where
  resourceId : ResourceId
  resourceName : String
  apiVersion : String
  kind : ResourceKind
  revisionId : RevisionId
  rev : Nat
  host : String
  basePath : String
  lifecycle : String
  sunsetAt : Option Nat
  productIds : List String
  backend : Backend
  tls : BackendTls
  policy : Document
  operations : String
  logBodiesUntil : Option Nat
  artifacts : List String
  contract : Json

inductive ConfigErrorDetail where
  | invalidPolicy (problems : List DocumentError)
  | deniedBackend (url : String) (rule : DenyRule)
  | unresolvedReference (ref : String) (environment : Environment)

structure ConfigError where
  resourceId : ResourceId
  resourceName : String
  detail : ConfigErrorDetail

/-- `ConfigSubscription` (`shared/config-doc.ts:140-150`). -/
structure ConfigSubscription where
  id : Nat
  keyHashes : List String
  productId : String
  productName : String
  applicationId : String
  applicationName : String
  subscriptionName : String

/-- What `digestOf` is taken over: the document without its digest and its build time. -/
structure ConfigBody where
  configVersion : Nat
  environment : Environment
  limits : Json
  settings : List (SettingKey × SettingValue)
  routes : List ConfigRoute
  subscriptions : List ConfigSubscription
  certificates : List Certificate
  trustAnchors : List TrustAnchor
  references : List (ReferenceKind × String × Json)
  errors : List ConfigError

structure GatewayConfig where
  body : ConfigBody
  digest : String
  generatedAt : Nat

structure Platform where
  /-- `validateUnit` (`shared/policy.ts`). -/
  validateUnit : UnitKey → Json → List String
  /-- The route's policy with `errorFormatFor` and `validateFor` written into it
  (`config-build.ts:104-205`). -/
  resolveUnits : ResourceKind → Option String → Document → Document
  /-- The `soap`, `mcp` and `a2a` blocks of a route, from the kind, the model, the base path and
  the visibility. -/
  contractFor : ResourceKind → Option String → String → String → Json
  limits : Json
  /-- Whether a rule's scheme, host pattern and ports match a URL (`egress.ts:247-269`). -/
  ruleMatches : DenyRule → String → Bool
  keyHash : String → String
  digestOf : ConfigBody → String
  /-- `appliedDigest` (`config-build.ts:796-798`). -/
  appliedDigest : ConfigRoute → String
  /-- `checkEgress`: what refuses a backend URL in an environment, of the rules in force. -/
  checkEgress : List DenyRule → Environment → String → List String
  /-- `domainError` is null (`shared/domains.ts:140-150`). -/
  domainOffered : Option String → Option String → Bool
  /-- `domainPrefix` (`shared/domains.ts:159-163`). -/
  domainPrefix : String → Option String → String
  /-- `publishedPath` (`shared/domains.ts:177-184`): domain, sub-domain, name, version. -/
  publishedPath : String → Option String → String → String → String
  /-- `namesPlatformRef` (`operations.ts:455-461`). -/
  namesPlatformRef : Json → Bool
  operationIds : String → Option (List String)

/-- A platform that accepts every unit, renders a policy as it stands and tells documents apart by
their first setting. -/
def Platform.plain : Platform where
  validateUnit := fun _ _ => []
  resolveUnits := fun _ _ policy => policy
  contractFor := fun _ _ _ _ => .null
  limits := .null
  ruleMatches := fun _ _ => false
  keyHash := fun enc => enc
  digestOf := fun body =>
    match body.settings.head? with
    | some (_, .int n) => "sha256:" ++ toString n
    | _ => "sha256:"
  appliedDigest := fun _ => "sha256:"
  checkEgress := fun _ _ _ => []
  domainOffered := fun _ _ => true
  domainPrefix := fun domain _ => "/" ++ domain
  publishedPath := fun domain _ name version => "/" ++ domain ++ "/" ++ name ++ "/" ++ version
  namesPlatformRef := fun _ => false
  operationIds := fun _ => none

structure Config where
  promotionChain : List Environment
  instanceAbandonedAfterSec : Nat
  revisionKeepCount : Nat
  revisionKeepDays : Nat
  jobRetentionHours : Nat

/-- `App`: the platform and its configuration. The database is passed beside it. -/
structure App where
  platform : Platform
  config : Config

/-! ### Routes -/

/-- `productIdsFor` (`config-build.ts:88-95`). -/
def productIdsFor (estate : Estate) (id : ResourceId) : List String :=
  ((estate.productMembers.filter fun m => m.2 == id).map (·.1)).insertionSort (· ≤ ·)

/-- The order of `tlsFor`: an exception of one backend before one of the pool, then by expiry. -/
def narrower (a b : TlsException) : Prop :=
  (a.backendUrl.isSome ∧ b.backendUrl.isNone) ∨
    (a.backendUrl.isSome = b.backendUrl.isSome ∧ a.expiresAt ≤ b.expiresAt)

instance (a b : TlsException) : Decidable (narrower a b) :=
  inferInstanceAs (Decidable (_ ∨ _))

/-- `tlsFor` (`config-build.ts:227-260`). -/
def tlsFor (estate : Estate) (stage : Stage) (now : Nat) : BackendTls :=
  let live := estate.tlsExceptions.filter fun x =>
    x.resourceId == stage.1 && x.environment == stage.2 && x.revokedAt.isNone && now < x.expiresAt
  match (live.insertionSort narrower).head? with
  | none => .verify
  | some x => .relaxed x.mode x.pinThumbprint x.expiresAt x.id x.reason

/-- `logBodiesUntilFor` (`config-build.ts:276-293`). -/
def logBodiesUntilFor (estate : Estate) (stage : Stage) (now : Nat) : Option Nat :=
  ((estate.bodyCaptures.filter fun x =>
    x.resourceId == stage.1 && x.environment == stage.2 && x.revokedAt.isNone &&
      now < x.expiresAt).map (·.expiresAt)).max?

structure RouteRow where
  resource : Resource
  revision : Revision
  route : Route
  backend : Backend

/-- The join of one release (`config-build.ts:327-355`), narrowed to a gateway when one is named. -/
def routeRow (db : Database) (environment : Environment) (targetId : Option TargetId)
    (release : Release) : Option RouteRow := do
  if release.environment = environment ∧ release.state = .converged then
    let resource ← resourceOf db release.resourceId
    let revision ← revisionOf db.ledger release.revisionId
    let route ← db.live.route (resource.id, environment)
    let backend ← db.live.binding (resource.id, environment)
    if targetId.all (db.live.routeGateway (resource.id, environment)).contains then
      some ⟨resource, revision, route, backend⟩
    else none
  else none

/-- `ORDER BY rt.base_path, rt.host`. -/
def addressOrder (a b : RouteRow) : Prop :=
  a.route.basePath < b.route.basePath ∨
    (a.route.basePath = b.route.basePath ∧ a.route.host ≤ b.route.host)

instance (a b : RouteRow) : Decidable (addressOrder a b) := inferInstanceAs (Decidable (_ ∨ _))

def routeRows (db : Database) (environment : Environment) (targetId : Option TargetId) :
    List RouteRow :=
  (db.ledger.releases.filterMap (routeRow db environment targetId)).insertionSort addressOrder

/-- `matchingDenyRule` (`egress.ts:247-269`) over the rules in force. -/
def matchingDenyRule (platform : Platform) (rules : List DenyRule) (environment : Environment)
    (url : String) : Option DenyRule :=
  rules.find? fun rule => rule.environment.all (· == environment) && platform.ruleMatches rule url

def blockedBackend (platform : Platform) (db : Database) (environment : Environment)
    (backend : Backend) : Option (String × DenyRule) :=
  backend.pool.findSome? fun entry =>
    (matchingDenyRule platform db.estate.denyRules environment entry.url).map fun rule =>
      (entry.url, rule)

def resourceTitle (resource : Resource) : String := resource.name ++ " " ++ resource.apiVersion

def modelFor (kind : ResourceKind) (revision : Revision) : Option String :=
  if kind = .rest ∨ revision.model = "" then none else some revision.model

/-- One turn of the loop of `buildRoutes` (`config-build.ts:361-448`): the route, or why it is left
out. The policy is the active part of the effective document. -/
def renderRow (platform : Platform) (db : Database) (environment : Environment) (row : RouteRow) :
    Except ConfigError ConfigRoute :=
  let stage := (row.resource.id, environment)
  let policy := activeDocument (effectiveDocument db.live stage)
  let problems := validateDocument platform.validateUnit row.resource.kind policy
  if !problems.isEmpty then
    .error ⟨row.resource.id, resourceTitle row.resource, .invalidPolicy problems⟩
  else
    match blockedBackend platform db environment row.backend with
    | some (url, rule) =>
      .error ⟨row.resource.id, resourceTitle row.resource, .deniedBackend url rule⟩
    | none =>
      .ok {
        resourceId := row.resource.id
        resourceName := row.resource.name
        apiVersion := row.resource.apiVersion
        kind := row.resource.kind
        revisionId := row.revision.id
        rev := row.revision.rev
        host := row.route.host
        basePath := row.route.basePath
        lifecycle := row.resource.lifecycle
        sunsetAt := row.resource.sunsetAt
        productIds := productIdsFor db.estate row.resource.id
        backend := row.backend
        tls := tlsFor db.estate stage db.clock
        policy := platform.resolveUnits row.resource.kind (modelFor row.resource.kind row.revision)
          policy
        operations := row.revision.index.getD "[]"
        logBodiesUntil := logBodiesUntilFor db.estate stage db.clock
        artifacts :=
          if row.revision.artifactDigest.isEmpty then [] else [row.revision.artifactDigest]
        contract := platform.contractFor row.resource.kind (modelFor row.resource.kind row.revision)
          row.route.basePath row.resource.visibility }

def errorOf : Except ConfigError ConfigRoute → Option ConfigError
  | .error e => some e
  | .ok _ => none

/-- `buildRoutes` (`config-build.ts:317-450`). -/
def buildRoutes (platform : Platform) (db : Database) (environment : Environment)
    (targetId : Option TargetId) : List ConfigRoute × List ConfigError :=
  let rendered := (routeRows db environment targetId).map (renderRow platform db environment)
  (rendered.filterMap Except.toOption, rendered.filterMap errorOf)

/-! ### A gateway's routes are some of the environment's -/

theorem mem_routeRows (db : Database) (environment : Environment) (targetId : Option TargetId)
    (row : RouteRow) :
    row ∈ routeRows db environment targetId ↔
      ∃ release ∈ db.ledger.releases, routeRow db environment targetId release = some row := by
  rw [routeRows, List.mem_insertionSort, List.mem_filterMap]

variable {db : Database} {environment : Environment} {targetId : TargetId}

theorem routeRow_of_gateway {release : Release} {row : RouteRow}
    (h : routeRow db environment (some targetId) release = some row) :
    routeRow db environment none release = some row := by
  unfold routeRow at h ⊢
  split
  next hrelease =>
    rw [if_pos hrelease] at h
    simp only [Option.bind_eq_bind, Option.bind_eq_some_iff] at h ⊢
    obtain ⟨resource, hresource, revision, hrevision, route, hroute, backend, hbackend, hrow⟩ := h
    refine ⟨resource, hresource, revision, hrevision, route, hroute, backend, hbackend, ?_⟩
    split at hrow
    · simpa using hrow
    · cases hrow
  next hrelease =>
    rw [if_neg hrelease] at h
    cases h

theorem routeRows_of_gateway {row : RouteRow} (h : row ∈ routeRows db environment (some targetId)) :
    row ∈ routeRows db environment none := by
  rw [mem_routeRows] at h ⊢
  obtain ⟨release, hmem, hrow⟩ := h
  exact ⟨release, hmem, routeRow_of_gateway hrow⟩

theorem mem_routes (platform : Platform) (db : Database) (environment : Environment)
    (targetId : Option TargetId) (route : ConfigRoute) :
    route ∈ (buildRoutes platform db environment targetId).1 ↔
      ∃ row ∈ routeRows db environment targetId,
        renderRow platform db environment row = .ok route := by
  simp only [buildRoutes, List.mem_filterMap, List.mem_map, exists_exists_and_eq_and]
  refine exists_congr fun row => and_congr_right fun _ => ?_
  cases renderRow platform db environment row <;> simp [Except.toOption]

theorem mem_routeErrors (platform : Platform) (db : Database) (environment : Environment)
    (targetId : Option TargetId) (error : ConfigError) :
    error ∈ (buildRoutes platform db environment targetId).2 ↔
      ∃ row ∈ routeRows db environment targetId,
        renderRow platform db environment row = .error error := by
  simp only [buildRoutes, List.mem_filterMap, List.mem_map, exists_exists_and_eq_and]
  refine exists_congr fun row => and_congr_right fun _ => ?_
  cases renderRow platform db environment row <;> simp [errorOf]

variable {platform : Platform}

theorem routes_of_gateway {route : ConfigRoute}
    (h : route ∈ (buildRoutes platform db environment (some targetId)).1) :
    route ∈ (buildRoutes platform db environment none).1 := by
  rw [mem_routes] at h ⊢
  obtain ⟨row, hrow, hok⟩ := h
  exact ⟨row, routeRows_of_gateway hrow, hok⟩

theorem routeErrors_of_gateway {error : ConfigError}
    (h : error ∈ (buildRoutes platform db environment (some targetId)).2) :
    error ∈ (buildRoutes platform db environment none).2 := by
  rw [mem_routeErrors] at h ⊢
  obtain ⟨row, hrow, herr⟩ := h
  exact ⟨row, routeRows_of_gateway hrow, herr⟩

/-! ### Subscriptions, certificates, anchors -/

/-- `buildSubscriptions` (`config-build.ts:452-498`): an expired key slot is left out. -/
def buildSubscriptions (platform : Platform) (estate : Estate) (environment : Environment) :
    List ConfigSubscription :=
  let rows := estate.subscriptions.filter fun s =>
    s.environment == environment && (s.state == .active || s.state == .activating)
  (rows.insertionSort fun a b => a.id ≤ b.id).map fun s =>
    let slots := [if s.primaryKeyExpiredAt.isNone then some s.primaryKeyEnc else none,
      if s.secondaryKeyExpiredAt.isNone then s.secondaryKeyEnc else none]
    { id := s.id
      keyHashes := ((slots.filterMap id).filter fun enc => !enc.isEmpty).map platform.keyHash
      productId := s.productId
      productName := s.productName
      applicationId := s.applicationId
      applicationName := s.applicationName
      subscriptionName := s.applicationName ++ " -> " ++ s.productName }

/-- `buildCertificates` (`config-build.ts:505-527`): the identities a binding of the environment
names. -/
def buildCertificates (db : Database) (environment : Environment) : List Certificate :=
  (db.estate.certificates.filter fun c => c.environment == environment &&
    db.resources.any fun r =>
      ((db.live.binding (r.id, environment)).bind (·.clientCertRef)) == some c.id).insertionSort
        fun a b => a.id ≤ b.id

/-- `liveAnchorsFor` (`control-plane/src/trust-store.ts:145-163`), in the order they were added. -/
def liveAnchorsFor (estate : Estate) (environment : Environment) (now : Nat) : List TrustAnchor :=
  estate.trustAnchors.filter fun a =>
    a.environment == environment && a.removedAt.isNone && now < a.notAfter

/-! ### References -/

def stringMember (kind : ReferenceKind) (name : String) (value : Json) :
    List (ReferenceKind × String) :=
  match value.member? name with
  | some (.str ref) => [(kind, ref)]
  | _ => []

/-- The references one unit makes (`config-build.ts:583-613`). -/
def unitReferences (unitKey : UnitKey) (value : Json) : List (ReferenceKind × String) :=
  let unit := ((parseOperationUnitKey unitKey).map (·.2)).getD unitKey
  if !truthy value then []
  else if unit = "auth.jwt" ∨ unit = "auth.introspection" then
    stringMember .issuer "issuerRef" value
  else if unit = "auth.basic" then stringMember .secretHash "credentialRef" value
  else if unit = "preconditions" then
    match value with
    | .arr rules => rules.flatMap fun rule =>
      ((rule.member? "requireHeader").toList.flatMap
        (stringMember .secretHash "credentialRef")).filter fun ref => ref.2 != ""
    | _ => []
  else if unit = "backendAuth" then
    match value.member? "type" with
    | some (.str "basic") => stringMember .secret "credentialRef" value
    | some (.str "api-key") => stringMember .secret "credentialRef" value
    | some (.str "oauth2-client-credentials") => stringMember .tokenProvider "tokenProviderRef" value
    | some (.str "hmac-sa-key-lite") => stringMember .hmacScheme "schemeRef" value
    | _ => []
  else []

def routeReferences (route : ConfigRoute) : List (ReferenceKind × String) :=
  route.policy.entries.flatMap fun entry => unitReferences entry.1 entry.2

/-- `buildReferences` (`config-build.ts:549-696`): what each named reference resolves to, and for
each that resolves to nothing the routes that name its text. -/
def buildReferences (estate : Estate) (environment : Environment) (routes : List ConfigRoute) :
    List (ReferenceKind × String × Json) × List (String × List ConfigRoute) :=
  let named := (routes.flatMap routeReferences).dedup
  (named.filterMap fun ref =>
      (estate.references environment ref.1 ref.2).map fun value => (ref.1, ref.2, value),
    (named.filter fun ref => (estate.references environment ref.1 ref.2).isNone).map fun ref =>
      (ref.2, routes.filter fun route => (routeReferences route).any fun r => r.2 == ref.2))

/-- The errors `buildConfig` adds for references nothing answers to (`config-build.ts:744-755`). -/
def referenceErrors (estate : Estate) (environment : Environment) (routes : List ConfigRoute) :
    List ConfigError :=
  (buildReferences estate environment routes).2.flatMap fun unresolved =>
    unresolved.2.map fun route =>
      ⟨route.resourceId, route.resourceName ++ " " ++ route.apiVersion,
        .unresolvedReference unresolved.1 environment⟩

/-! ### The document -/

/-- The body of `buildConfig` (`config-build.ts:714-776`). -/
def configBody (platform : Platform) (db : Database) (environment : Environment)
    (targetId : Option TargetId) : ConfigBody :=
  let built := buildRoutes platform db environment targetId
  { configVersion := CONFIG_VERSION
    environment := environment
    limits := platform.limits
    settings := settingsBlock db.estate.gatewaySettings ⟨environment, targetId⟩
    routes := built.1
    subscriptions := buildSubscriptions platform db.estate environment
    certificates := buildCertificates db environment
    trustAnchors := liveAnchorsFor db.estate environment db.clock
    references := (buildReferences db.estate environment built.1).1
    errors := built.2 ++ referenceErrors db.estate environment built.1 }

/-- `buildConfig` (`config-build.ts:714-782`). -/
def buildConfig (app : App) (db : Database) (environment : Environment)
    (targetId : Option TargetId) : GatewayConfig :=
  let body := configBody app.platform db environment targetId
  ⟨body, app.platform.digestOf body, db.clock⟩

/-! ### A gateway's document has no error the environment's has not -/

theorem mem_referenceErrors (estate : Estate) (environment : Environment)
    (routes : List ConfigRoute) (error : ConfigError) :
    error ∈ referenceErrors estate environment routes ↔
      ∃ ref : ReferenceKind × String,
        (∃ route ∈ routes, ref ∈ routeReferences route) ∧
        estate.references environment ref.1 ref.2 = none ∧
        ∃ route ∈ routes, (∃ r ∈ routeReferences route, r.2 = ref.2) ∧
          error = ⟨route.resourceId, route.resourceName ++ " " ++ route.apiVersion,
            .unresolvedReference ref.2 environment⟩ := by
  simp only [referenceErrors, buildReferences, List.mem_flatMap, List.mem_map, List.mem_filter,
    List.mem_dedup, Option.isNone_iff_eq_none]
  constructor
  · rintro ⟨unresolved, ⟨ref, ⟨hnamed, hnone⟩, rfl⟩, route, hroute, rfl⟩
    obtain ⟨hroute, hsame⟩ := List.mem_filter.mp hroute
    simp only [List.any_eq_true, beq_iff_eq] at hsame
    exact ⟨ref, hnamed, hnone, route, hroute, hsame, rfl⟩
  · rintro ⟨ref, hnamed, hnone, route, hroute, hsame, rfl⟩
    refine ⟨_, ⟨ref, ⟨hnamed, hnone⟩, rfl⟩, route, List.mem_filter.mpr ⟨hroute, ?_⟩, rfl⟩
    simpa only [List.any_eq_true, beq_iff_eq] using hsame

theorem errors_of_gateway {error : ConfigError}
    (h : error ∈ (configBody platform db environment (some targetId)).errors) :
    error ∈ (configBody platform db environment none).errors := by
  simp only [configBody, List.mem_append] at h ⊢
  rcases h with h | h
  · exact .inl (routeErrors_of_gateway h)
  · rw [mem_referenceErrors] at h ⊢
    obtain ⟨ref, ⟨named, hnamed, href⟩, hnone, route, hroute, hsame, rfl⟩ := h
    exact .inr ⟨ref, ⟨named, routes_of_gateway hnamed, href⟩, hnone, route,
      routes_of_gateway hroute, hsame, rfl⟩

theorem errors_eq_nil_of_environment (h : (configBody platform db environment none).errors = [])
    (targetId : TargetId) : (configBody platform db environment (some targetId)).errors = [] := by
  rw [List.eq_nil_iff_forall_not_mem] at h ⊢
  intro error herror
  exact h error (errors_of_gateway herror)

end Apim.ControlPlane
