import Apim.Shared.Routing
import Apim.ControlPlane.Promotion

/-!
# Publish, configure, promote

The three commands that queue an operation (`control-plane/src/operations.ts:573-942`). A command
reads the database, may wait for the network while it fetches a definition or checks a backend, and
commits in one transaction; what it has read travels with it (`Request`). Each of its stages is a
function of the database at the moment it runs: the read (`configureRead`, `promoteRead`), the
settling of what the snapshot will say (`settings`), and the commit that queues the operation.
-/

namespace Apim.ControlPlane
open Overlay Policy Routing

/-! ### The body of a command -/

/-- A pool as `readPool` returns it (`backend-pool.ts:30-81`); `fromUrls` when the body said it with
`urls`. -/
structure ReadPool where
  pool : List BackendEntry
  rule : LoadRule
  fromUrls : Bool
  deriving DecidableEq, Repr

inductive EntityTag where
  | any
  | updatedAt (at_ : Nat)
  deriving DecidableEq, Repr

/-- `PublishInput` (`operations.ts:82-113`), with the headers a command reads. An absent member is
`none`; `source` is the definition `revisionSource` returned for the body's `spec`, `specUrl` or
`discoverUrl`. -/
structure PublishInput where
  applicationId : String
  name : String
  kind : ResourceKind
  apiVersion : String
  source : Option Definition
  pool : Option ReadPool
  backendUrl : Option String
  host : Option String
  basePath : Option String
  clientCertRef : Option (Option Nat)
  policy : Option Document
  environment : Option Environment
  domain : Option String
  subdomain : Option (Option String)
  gateways : Option (List String)
  idempotencyKey : String
  requestDigest : String
  ifMatch : Option (List EntityTag)
  generated : Bool

/-- `Taxonomy` (`operations.ts:116-119`). -/
structure Taxonomy where
  domain : Option String
  subdomain : Option String
  deriving DecidableEq, Repr

/-- `DEFAULT_POLICY["auth.subscriptionKey"]` (`operations.ts:127-129`). -/
def DEFAULT_SUBSCRIPTION_KEY : Json := .obj [("in", .str "header"), ("name", .str "X-Api-Key")]

def SUBSCRIPTION_KEY : UnitKey := "auth.subscriptionKey"

def DEFAULT_POLICY : Document := AList.singleton SUBSCRIPTION_KEY DEFAULT_SUBSCRIPTION_KEY

/-- `managedUnitsFor` (`kafka-proxy.ts:26-38`): the units the platform writes on a topic's API. -/
def managedUnitsFor (resource : Resource) : Document :=
  if resource.kafkaTopic.isSome then
    AList.singleton "backendAuth" (.obj [("type", .str "api-key"),
      ("credentialRef", .str "platform:kafka-proxy"), ("in", .str "header"),
      ("name", .str "X-Api-Key")])
  else ∅

/-- `readTaxonomy` (`operations.ts:139-147`). -/
def readTaxonomy (app : App) (body : PublishInput) (current : Taxonomy) (required : Bool) :
    Except Refusal Taxonomy :=
  let domain := body.domain.or current.domain
  let subdomain := body.subdomain.getD current.subdomain
  if domain.isNone && !required then .ok ⟨none, none⟩
  else if app.platform.domainOffered domain subdomain then .ok ⟨domain, subdomain⟩
  else .error .noDomain

/-! ### What is published now -/

def newestOperation (l : Ledger) (stage : Stage) : Option Operation :=
  (l.operations.filter fun o =>
    o.resourceId == stage.1 && o.environment == stage.2 && o.state != .superseded).getLast?

/-- `currentSnapshot` (`operations.ts:518-555`): the input of the newest operation where there is
one, the live rows otherwise. -/
def currentSnapshot (db : Database) (stage : Stage) : Option Snapshot :=
  match newestOperation db.ledger stage with
  | some operation => some operation.input
  | none => do
    let release ← convergedIn db.ledger stage
    let route ← db.live.route stage
    let backend ← db.live.binding stage
    return {
      revisionId := release.revisionId
      host := route.host
      basePath := route.basePath
      backend := backend
      policy := effectiveDocument db.live stage
      gateways := some (boundGatewayNames db stage)
      sourceOperationId := none
      sourceEnvironment := none
      requestDigest := "" }

/-! ### Settling a snapshot -/

structure Defaults where
  host : String
  basePath : String
  backend : Backend
  policy : Document
  gateways : Option (List String)

def Snapshot.defaults (s : Snapshot) : Defaults :=
  ⟨s.host, s.basePath, s.backend, s.policy, s.gateways⟩

structure Settings where
  host : String
  basePath : String
  backend : Backend
  policy : Document
  gateways : List String

/-- `readGateways` (`operations.ts:472-506`). -/
def readGateways (db : Database) (environment : Environment) (requested : Option (List String)) :
    Except Refusal (List String) :=
  let available := gatewaysIn db environment
  if available.isEmpty then .error .noGateway
  else match requested with
    | none => .ok (available.map (·.name))
    | some requested =>
      let names := ((requested.map fun n => String.ofList (trim n.toList)).filter fun n =>
        !n.isEmpty).dedup
      let unknown := names.filter fun n => !available.any fun t => t.name == n
      if names.isEmpty then .error (.badRequest "gateways")
      else if !unknown.isEmpty then .error (.unknownGateways unknown)
      else .ok (names.insertionSort (· ≤ ·))

/-- The address of a command (`operations.ts:272-297`). -/
def settleAddress (app : App) (body : PublishInput) (taxonomy : Taxonomy)
    (defaults : Option Defaults) : Except Refusal Route :=
  let host := normalizeHost ((body.host.or (defaults.map (·.host))).getD "*")
  let fallback := match taxonomy.domain with
    | some domain =>
      app.platform.publishedPath domain taxonomy.subdomain body.name body.apiVersion
    | none => "/" ++ body.name
  let basePath := normalizeBasePath ((body.basePath.or (defaults.map (·.basePath))).getD fallback)
  if !host.2.isEmpty || !basePath.2.isEmpty then .error .badAddress
  else
    let inside := match taxonomy.domain with
      | some domain =>
        let above := app.platform.domainPrefix domain taxonomy.subdomain
        basePath.1 == above || (above ++ "/").toList.isPrefixOf basePath.1.toList
      | none => true
    if inside then .ok ⟨host.1, basePath.1⟩ else .error (.outsideDomain basePath.1)

/-- The certificate a backend presents is one the caller may use here (`operations.ts:333-354`). -/
def certificateUsable (db : Database) (user : User) (applicationId : String)
    (environment : Environment) (id : Nat) : Bool :=
  match db.estate.certificates.find? fun c => c.id == id with
  | some c => c.environment == environment && db.clock < c.notAfter && can user c.applicationId &&
      c.applicationId == applicationId
  | none => false

/-- The backend of a command (`operations.ts:298-354`). -/
def settleBackend (app : App) (db : Database) (user : User) (body : PublishInput)
    (environment : Environment) (defaults : Option Defaults) : Except Refusal Backend := do
  let kept := defaults.bind (·.backend.clientCertRef)
  let backend ← match body.pool, body.backendUrl with
    | some read, _ => pure (⟨read.pool, read.rule, kept⟩ : Backend)
    | none, some url =>
      let details := app.platform.checkEgress db.estate.denyRules environment url
      if details.isEmpty then pure ⟨[⟨url, none⟩], .failover, kept⟩
      else .error (.backendRefused details)
    | none, none => orRefuse (defaults.map (·.backend)) .backendRequired
  let backend := match body.clientCertRef with
    | some ref => { backend with clientCertRef := ref }
    | none => backend
  require (backend.clientCertRef.all (certificateUsable db user body.applicationId environment))
    .badCertificate
  return backend

/-- A non-administrator's document keeps the subscription key it had, or the default
(`operations.ts:355-378`). -/
def keptSubscriptionKey (defaults : Option Defaults) : Json :=
  ((defaults.bind fun d => d.policy.lookup SUBSCRIPTION_KEY).getD DEFAULT_SUBSCRIPTION_KEY)

/-- The units of the tier that a document sent without had (`operations.ts:389-404`). -/
def droppedGlobals (environmentWide policy : Document) (defaults : Option Defaults) :
    List UnitKey :=
  environmentWide.keys.filter fun unit =>
    (policy.lookup unit).isNone && (defaults.bind fun d => d.policy.lookup unit).isSome

/-- The units of a document that name the platform's own credential and are not the platform's
(`operations.ts:427-436`). -/
def platformReferences (app : App) (policy managed : Document) : List UnitKey :=
  (policy.entries.filter fun entry =>
    (managed.lookup entry.1).isNone && app.platform.namesPlatformRef entry.2).map (·.1)

/-- The policy of a command (`operations.ts:355-438`). -/
def settlePolicy (app : App) (db : Database) (user : User) (body : PublishInput)
    (kind : ResourceKind) (environment : Environment) (defaults : Option Defaults)
    (managed : Document) : Except Refusal Document := do
  let asked := (body.policy.or (defaults.map (·.policy))).getD DEFAULT_POLICY
  let kept := keptSubscriptionKey defaults
  let sent := body.policy.bind fun p => p.lookup SUBSCRIPTION_KEY
  require (user.isAdmin || sent.all (· == kept)) .subscriptionKeyLocked
  let policy := if user.isAdmin then asked else asked.insert SUBSCRIPTION_KEY kept
  let environmentWide := inheritedUnits db.live environment
  let dropped := droppedGlobals environmentWide policy defaults
  require (body.policy.isNone || dropped.isEmpty) (.globalRemoval environment dropped)
  let before := (defaults.map (·.policy)).getD ∅
  let moved := globalUnitChanges environmentWide before policy
  require (body.policy.isNone || user.isAdmin || moved.isEmpty) (.globalOverride environment moved)
  let policy := overlaid managed policy
  let refused := platformReferences app policy managed
  require refused.isEmpty (.platformReference (refused.headD ""))
  let problems := validateDocument app.platform.validateUnit kind policy
  require problems.isEmpty (.invalidDocument problems)
  return policy

/-- `settings` (`operations.ts:264-446`). -/
def settings (app : App) (db : Database) (user : User) (body : PublishInput) (kind : ResourceKind)
    (environment : Environment) (taxonomy : Taxonomy) (defaults : Option Defaults)
    (managed : Document) : Except Refusal Settings := do
  let address ← settleAddress app body taxonomy defaults
  let backend ← settleBackend app db user body environment defaults
  let policy ← settlePolicy app db user body kind environment defaults managed
  let gateways ← readGateways db environment (body.gateways.or (defaults.bind (·.gateways)))
  return ⟨address.host, address.basePath, backend, policy, gateways⟩

/-! ### Queuing -/

/-- `assertRouteFree` (`operations.ts:556-583`): no other API has the address, or has asked for
it. -/
def routeFree (db : Database) (id : ResourceId) (environment : Environment) (config : Settings) :
    Bool :=
  (!db.resources.any fun r =>
    r.id != id && db.live.route (r.id, environment) == some ⟨config.host, config.basePath⟩) &&
  (!db.ledger.operations.any fun o =>
    o.environment == environment && o.resourceId != id &&
      (o.state == .queued || o.state == .retrying || o.state == .blocked) &&
      o.input.host == config.host && o.input.basePath == config.basePath)

/-- A user's idempotency key as it is stored (`operations.ts:189-195`). -/
def storedKey (user : User) (body : PublishInput) : String := user.id ++ ":" ++ body.idempotencyKey

/-- `repeated` finds an operation of this key (`operations.ts:196-206`). -/
def repeatedKey (l : Ledger) (user : User) (body : PublishInput) : Bool :=
  l.operations.any fun o => o.idempotencyKey == storedKey user body

def PublishInput.operation (body : PublishInput) (user : User) (applicationId : String)
    (stage : Stage) (kind : OperationKind) (snapshot : Snapshot) (id : OperationId) : Operation :=
  { id := id
    applicationId := applicationId
    actor := user
    kind := kind
    resourceId := stage.1
    environment := stage.2
    state := .queued
    input := snapshot
    releaseId := none
    attempts := 0
    nextAttemptAt := none
    idempotencyKey := storedKey user body }

/-- `queue` (`operations.ts:216-263`): the operation, and the revision frozen with it. The key of
an operation is unique, so a second row with it is refused. -/
def queue (db : Database) (user : User) (body : PublishInput) (applicationId : String)
    (stage : Stage) (kind : OperationKind) (snapshot : Snapshot) : Except Refusal Database := do
  require (!repeatedKey db.ledger user body) (.conflict "Idempotency-Key")
  return { db with
    ledger := (db.ledger.addOperation
      (body.operation user applicationId stage kind snapshot)).freeze snapshot.revisionId db.clock }

variable {user : User} {body : PublishInput}

theorem queue_ok {db db' : Database} {applicationId : String} {stage : Stage} {kind : OperationKind}
    {snapshot : Snapshot} (h : queue db user body applicationId stage kind snapshot = .ok db') :
    repeatedKey db.ledger user body = false ∧
      db' = { db with
        ledger := (db.ledger.addOperation
          (body.operation user applicationId stage kind snapshot)).freeze snapshot.revisionId
            db.clock } := by
  simp only [queue, require_bind_ok, Bool.not_eq_true'] at h
  exact ⟨h.1, (Except.ok.inj h.2).symm⟩

def Settings.snapshot (config : Settings) (revisionId : RevisionId)
    (sourceOperationId : Option OperationId) (sourceEnvironment : Option Environment)
    (requestDigest : String) : Snapshot :=
  ⟨revisionId, config.host, config.basePath, config.backend, config.policy, some config.gateways,
    sourceOperationId, sourceEnvironment, requestDigest⟩

/-! ### Publish -/

def nameValid (name : String) : Bool :=
  match name.toList with
  | [] => false
  | first :: rest =>
    let plain := fun c : Char => ('a' ≤ c && c ≤ 'z') || ('0' ≤ c && c ≤ '9')
    plain first && rest.all (fun c => plain c || c == '-') && 1 ≤ rest.length && rest.length ≤ 60

/-- `API_VERSION_PATTERN` (`shared/types.ts`): `v` and a positive integer, 32 characters at most. -/
def versionValid (version : String) : Bool :=
  match version.toList with
  | 'v' :: first :: rest =>
    ('1' ≤ first && first ≤ '9') && rest.all Char.isDigit && rest.length ≤ 30
  | _ => false

/-- The part of `publishResource` before its transaction (`operations.ts:623-668`): what the
snapshot will say, but for its revision. -/
def publishSettle (app : App) (db : Database) (user : User) (body : PublishInput)
    (environment : Environment) : Except Refusal Settings := do
  require (!repeatedKey db.ledger user body) (.conflict "Idempotency-Key")
  require (can user body.applicationId) .notMember
  require (app.config.promotionChain.contains environment) (.unknownEnvironment environment)
  require (nameValid body.name) (.badRequest "name")
  require (versionValid body.apiVersion) (.badRequest "apiVersion")
  require body.source.isSome (.badRequest "spec")
  let taxonomy ← readTaxonomy app body ⟨none, none⟩ true
  settings app db user body body.kind environment taxonomy none ∅

def PublishInput.resourceRow (body : PublishInput) (taxonomy : Taxonomy) (at_ : Nat)
    (id : ResourceId) : Resource :=
  { id := id
    kind := body.kind
    name := body.name
    applicationId := body.applicationId
    apiVersion := body.apiVersion
    lifecycle := "active"
    sunsetAt := none
    visibility := "listed"
    domain := taxonomy.domain
    subdomain := taxonomy.subdomain
    kafkaTopic := none
    updatedAt := at_ }

/-- The transaction of `publishResource` (`operations.ts:669-757`): the API, its first revision and
the operation. Products are left out. -/
def publishCommit (app : App) (db : Database) (user : User) (body : PublishInput)
    (environment : Environment) (config : Settings) : Except Refusal Database := do
  require (!repeatedKey db.ledger user body) (.conflict "Idempotency-Key")
  let definition ← orRefuse body.source (.badRequest "spec")
  let taxonomy ← readTaxonomy app body ⟨none, none⟩ true
  let id := db.ledger.next
  require (routeFree db id environment config) .addressTaken
  require (!db.resources.any fun r =>
    r.applicationId == body.applicationId && r.name == body.name &&
      r.apiVersion == body.apiVersion) (.conflict "API name and version already exist")
  let written := writeRevision { db with
    resources := db.resources ++ [body.resourceRow taxonomy db.clock id]
    ledger := { db.ledger with next := id + 1 } } id definition
  queue written.1 user body body.applicationId (id, environment) .publish
    (config.snapshot written.2 none none body.requestDigest)

variable {config : Settings}

theorem publishCommit_ok {app : App} {db db' : Database} {environment : Environment}
    (h : publishCommit app db user body environment config = .ok db') :
    ∃ definition taxonomy, body.source = some definition ∧
      routeFree db db.ledger.next environment config = true ∧
      queue (writeRevision { db with
          resources := db.resources ++ [body.resourceRow taxonomy db.clock db.ledger.next]
          ledger := { db.ledger with next := db.ledger.next + 1 } } db.ledger.next definition).1
        user body body.applicationId (db.ledger.next, environment) .publish
        (config.snapshot (writeRevision { db with
          resources := db.resources ++ [body.resourceRow taxonomy db.clock db.ledger.next]
          ledger := { db.ledger with next := db.ledger.next + 1 } } db.ledger.next definition).2
          none none body.requestDigest) = .ok db' := by
  simp only [publishCommit, bind_ok, orRefuse_ok, require_ok] at h
  obtain ⟨-, -, definition, hsource, taxonomy, -, -, hfree, -, -, hqueue⟩ := h
  exact ⟨definition, taxonomy, hsource, hfree, hqueue⟩

/-! ### Configure -/

/-- `assertIfMatch` (`api/common.ts:96-115`), with a tag standing for the instant it is over. -/
def ifMatch (resource : Resource) (body : PublishInput) : Except Refusal Unit :=
  match body.ifMatch with
  | none => .error .preconditionRequired
  | some tags => require (tags.any fun tag => tag == .any || tag == .updatedAt resource.updatedAt)
      .preconditionFailed

def assertMatch (resource : Resource) (body : PublishInput) : Except Refusal Unit :=
  if body.generated then .ok () else ifMatch resource body

structure ConfigureRead where
  resource : Resource
  environment : Environment
  previous : Snapshot

/-- The environment a body names, the first of the chain when it names none (`operations.ts:148`). -/
def environmentOf (app : App) (body : PublishInput) : Except Refusal Environment :=
  match body.environment.or app.config.promotionChain.head? with
  | some environment =>
    if app.config.promotionChain.contains environment then .ok environment
    else .error (.unknownEnvironment environment)
  | none => .error (.unknownEnvironment "")

/-- The reads of `configureResource` (`operations.ts:773-803`). -/
def configureRead (app : App) (db : Database) (user : User) (id : ResourceId)
    (body : PublishInput) : Except Refusal ConfigureRead := do
  let resource ← orRefuse (resourceOf db id) .notFound
  require (can user resource.applicationId) .notMember
  let environment ← environmentOf app body
  require (!repeatedKey db.ledger user body) (.conflict "Idempotency-Key")
  assertMatch resource body
  let derived := body.source.isSome || body.backendUrl.isSome || body.pool.isSome ||
    body.clientCertRef.isSome
  require (resource.kafkaTopic.isNone || body.generated || !derived) .generatedApi
  let previous ← orRefuse (currentSnapshot db (id, environment)) .notPublished
  return ⟨resource, environment, previous⟩

/-- The body with the application and the name of the row (`operations.ts:812`). -/
def PublishInput.ofResource (body : PublishInput) (resource : Resource) : PublishInput :=
  { body with
    applicationId := resource.applicationId
    name := resource.name
    apiVersion := resource.apiVersion }

def Resource.taxonomy (resource : Resource) : Taxonomy := ⟨resource.domain, resource.subdomain⟩

/-- The settling of `configureResource` (`operations.ts:804-825`). -/
def configureSettle (app : App) (db : Database) (user : User) (body : PublishInput)
    (read : ConfigureRead) : Except Refusal Settings := do
  let taxonomy ← readTaxonomy app body read.resource.taxonomy true
  settings app db user (body.ofResource read.resource) read.resource.kind read.environment taxonomy
    (some read.previous.defaults) (managedUnitsFor read.resource)

/-- The row of a resource after a configure (`operations.ts:840-851`). -/
def reclassify (db : Database) (id : ResourceId) (taxonomy : Taxonomy) : Database :=
  { db with resources := db.resources.map fun r =>
      if r.id = id then
        { r with
          updatedAt := db.clock, domain := taxonomy.domain, subdomain := taxonomy.subdomain }
      else r }

/-- The policy a configure asks for by name outside the first stage is kept as the stage's override
(`operations.ts:852-856`). -/
def Live.setOverride (live : Live) (stage : Stage) (policy : Document) : Live :=
  { live with environmentOverride := Function.update live.environmentOverride stage (some policy) }

def configureRevision (db : Database) (id : ResourceId) (body : PublishInput)
    (previous : Snapshot) : Database × RevisionId :=
  match body.source with
  | some definition => writeRevision db id definition
  | none => (db, previous.revisionId)

def overrideNamed (app : App) (live : Live) (stage : Stage) (body : PublishInput) : Live :=
  match body.policy with
  | some policy =>
    if some stage.2 = app.config.promotionChain.head? then live else live.setOverride stage policy
  | none => live

/-- The transaction of `configureResource` (`operations.ts:826-866`). -/
def configureCommit (app : App) (db : Database) (user : User) (body : PublishInput)
    (read : ConfigureRead) (config : Settings) : Except Refusal Database := do
  let id := read.resource.id
  let row ← orRefuse (resourceOf db id) .notFound
  assertMatch row body
  require (routeFree db id read.environment config) .addressTaken
  let taxonomy ← readTaxonomy app body read.resource.taxonomy true
  let written := configureRevision db id body read.previous
  let classified := reclassify written.1 id taxonomy
  queue { classified with
      live := overrideNamed app classified.live (id, read.environment) body }
    user body read.resource.applicationId (id, read.environment) .configure
    (config.snapshot written.2 none none body.requestDigest)

theorem configureCommit_ok {app : App} {db db' : Database} {read : ConfigureRead}
    (h : configureCommit app db user body read config = .ok db') :
    ∃ taxonomy, (resourceOf db read.resource.id).isSome ∧
      routeFree db read.resource.id read.environment config = true ∧
      queue { reclassify (configureRevision db read.resource.id body read.previous).1
            read.resource.id taxonomy with
          live := overrideNamed app
            (reclassify (configureRevision db read.resource.id body read.previous).1
              read.resource.id taxonomy).live (read.resource.id, read.environment) body }
        user body read.resource.applicationId (read.resource.id, read.environment) .configure
        (config.snapshot (configureRevision db read.resource.id body read.previous).2 none none
          body.requestDigest) = .ok db' := by
  simp only [configureCommit, bind_ok, orRefuse_ok, require_ok] at h
  obtain ⟨row, hrow, -, -, -, hfree, taxonomy, -, hqueue⟩ := h
  exact ⟨taxonomy, by rw [hrow]; rfl, hfree, hqueue⟩

/-! ### Promote -/

structure PromoteRead where
  resource : Resource
  environment : Environment
  sourceEnvironment : Environment
  source : Snapshot
  sourceOperationId : Option OperationId
  target : Option Snapshot
  override : Option Document

/-- The reads of `promoteResource` (`operations.ts:878-937`). For a topic's API the body already
has the backend and certificate of the target's topic. -/
def promoteRead (app : App) (db : Database) (user : User) (id : ResourceId)
    (body : PublishInput) : Except Refusal PromoteRead := do
  let resource ← orRefuse (resourceOf db id) .notFound
  require (can user resource.applicationId) .notMember
  let environment ← environmentOf app body
  require (!repeatedKey db.ledger user body) (.conflict "Idempotency-Key")
  let sourceEnvironment ← orRefuse (predecessorOf app.config.promotionChain environment)
    (.badRequest "environment")
  let source ← orRefuse (currentSnapshot db (id, sourceEnvironment)) .notPublished
  let target := currentSnapshot db (id, environment)
  let backendNamed := (body.backendUrl.any fun url => !url.isEmpty) ||
    (body.pool.any fun pool => pool.fromUrls)
  require (target.isSome || backendNamed) .backendRequired
  return ⟨resource, environment, sourceEnvironment, source,
    (newestOperation db.ledger (id, sourceEnvironment)).map (·.id), target,
    db.live.environmentOverride (id, environment)⟩

/-- What a promotion falls back on (`operations.ts:912-923`): the source's policy unless the target
stage has an override, and the target's own address, backend and gateways where it has them. -/
def PromoteRead.defaults (read : PromoteRead) : Defaults :=
  { host := (read.target.map (·.host)).getD read.source.host
    basePath := (read.target.map (·.basePath)).getD read.source.basePath
    backend := (read.target.map (·.backend)).getD ⟨[], .failover, none⟩
    policy := read.override.getD read.source.policy
    gateways := read.target.bind (·.gateways) }

/-- The settling of `promoteResource` (`operations.ts:928-942`). -/
def promoteSettle (app : App) (db : Database) (user : User) (body : PublishInput)
    (read : PromoteRead) : Except Refusal Settings :=
  settings app db user (body.ofResource read.resource) read.resource.kind read.environment
    read.resource.taxonomy (some read.defaults) (managedUnitsFor read.resource)

/-- The transaction of `promoteResource` (`operations.ts:943-954`). -/
def promoteCommit (db : Database) (user : User) (body : PublishInput) (read : PromoteRead)
    (config : Settings) : Except Refusal Database := do
  let id := read.resource.id
  require (routeFree db id read.environment config) .addressTaken
  queue db user body read.resource.applicationId (id, read.environment) .promote
    (config.snapshot read.source.revisionId read.sourceOperationId (some read.sourceEnvironment)
      body.requestDigest)

theorem promoteCommit_ok {db db' : Database} {read : PromoteRead}
    (h : promoteCommit db user body read config = .ok db') :
    routeFree db read.resource.id read.environment config = true ∧
      queue db user body read.resource.applicationId (read.resource.id, read.environment) .promote
        (config.snapshot read.source.revisionId read.sourceOperationId
          (some read.sourceEnvironment) body.requestDigest) = .ok db' := by
  simpa only [promoteCommit, require_bind_ok] using h

end Apim.ControlPlane
