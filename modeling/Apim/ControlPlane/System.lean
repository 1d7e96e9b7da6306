import Apim.Lib.Trace
import Apim.ControlPlane.Jobs

/-!
# The control plane as a transition system

A state is the database, the commands that wait for the network with what they have read, and the
jobs a process has taken and not yet finished. An event is one uninterrupted piece of work: a
request, one stage of a command that waits in between, the transaction of one operation, one write
of a job's life, an administrator's edit of the estate, or time passing. Requests and runner passes
interleave at exactly these points, so a run of the control plane is a list of events, and
`runOperations` and `runDueJobs` are such lists (`runOperations_is_run`, `runDueJobs_is_run`).

A request that is refused is an event that is not enabled: it changes nothing.
-/

namespace Apim.ControlPlane
open Overlay Policy Trace

inductive Request where
  | publish (user : User) (body : PublishInput) (environment : Environment) (config : Settings)
  | configure (user : User) (body : PublishInput) (read : ConfigureRead)
  | configureSettled (user : User) (body : PublishInput) (read : ConfigureRead) (config : Settings)
  | promote (user : User) (body : PublishInput) (read : PromoteRead)
  | promoteSettled (user : User) (body : PublishInput) (read : PromoteRead) (config : Settings)

/-- The state of the control plane. `claimed` are the jobs a process has marked running and not
executed yet, `ran` those it has executed and not marked done; a process that stops forgets both. -/
structure State where
  db : Database
  requests : List Request
  claimed : List JobId
  ran : List JobId

inductive Event where
  | publish (user : User) (body : PublishInput) (environment : Environment)
  | configure (user : User) (id : ResourceId) (body : PublishInput)
  | promote (user : User) (id : ResourceId) (body : PublishInput)
  | resume (index : Nat)
  | putUnit (user : User) (id : ResourceId) (environment : Environment) (unit : UnitKey)
      (value : Json)
  | deleteUnit (user : User) (id : ResourceId) (environment : Environment) (unit : UnitKey)
  | copyFrom (user : User) (id : ResourceId) (source environment : Environment)
      (units : List UnitKey)
  | putGlobalUnit (user : User) (environment : Environment) (unit : UnitKey) (value : Json)
  | deleteGlobalUnit (user : User) (environment : Environment) (unit : UnitKey)
  | copyGlobals (user : User) (source environment : Environment)
  | putRoute (user : User) (id : ResourceId) (environment : Environment) (host basePath : String)
  | putBinding (user : User) (id : ResourceId) (environment : Environment) (backend : Backend)
  | createRevision (user : User) (id : ResourceId) (definition : Definition)
  | correctRevision (user : User) (id : RevisionId) (readDigest : String) (definition : Definition)
  | createVersion (user : User) (id : ResourceId) (apiVersion : String)
      (copyPolicyFrom : Option Environment) (createRoutes : Bool)
  | dryRun (user : User) (id : ResourceId) (body : ReleaseRequest)
  | release (user : User) (id : ResourceId) (body : ReleaseRequest)
  | withdraw (user : User) (id : ResourceId) (environment : Environment)
  | announceDelete (user : User) (id : ResourceId)
  | delete (user : User) (id : ResourceId)
  | operation (id : OperationId)
  | complete (environment : Environment)
  | startJob (id : JobId)
  | executeJob (id : JobId) (leased : Bool)
  | finishJob (id : JobId)
  | requeueJobs
  | crash
  | enqueuePrune (hour : Nat)
  | administer (estate : Estate)
  | wait (milliseconds : Nat)

/-! ### The direct writes of an address and a backend -/

/-- PUT of an address (`api/resources.ts:1584-1650`). -/
def putRoute (app : App) (db : Database) (user : User) (id : ResourceId)
    (environment : Environment) (host basePath : String) : Except Refusal Database := do
  let resource ← orRefuse (resourceOf db id) .notFound
  require (can user resource.applicationId) .notMember
  require (app.config.promotionChain.contains environment) (.unknownEnvironment environment)
  let domain ← orRefuse resource.domain .noDomain
  let address ← settleAddress app
    { applicationId := resource.applicationId
      name := resource.name
      kind := resource.kind
      apiVersion := resource.apiVersion
      source := none
      pool := none
      backendUrl := none
      host := some host
      basePath := some basePath
      clientCertRef := none
      policy := none
      environment := none
      domain := none
      subdomain := none
      gateways := none
      idempotencyKey := ""
      requestDigest := ""
      ifMatch := none
      generated := false } ⟨some domain, resource.subdomain⟩ none
  require (!addressHeld db (id, environment) address) .addressTaken
  return touch { db with
    live := { db.live with route := Function.update db.live.route (id, environment) (some address) }
    } id

/-- PUT of a backend (`api/resources.ts:1665-1725`), once `readPool` has accepted the pool. -/
def putBinding (app : App) (db : Database) (user : User) (id : ResourceId)
    (environment : Environment) (backend : Backend) : Except Refusal Database := do
  let resource ← orRefuse (resourceOf db id) .notFound
  require (can user resource.applicationId) .notMember
  require (app.config.promotionChain.contains environment) (.unknownEnvironment environment)
  let usable := backend.clientCertRef.all fun ref => db.estate.certificates.any fun c =>
    c.id == ref && c.environment == environment && can user c.applicationId
  require usable .badCertificate
  return touch { db with
    live := { db.live with
      binding := Function.update db.live.binding (id, environment) (some backend) } } id

variable {app : App} {db : Database} {user : User} {id : ResourceId}

theorem putRoute_ok {db' : Database} {environment : Environment} {host basePath : String}
    (h : putRoute app db user id environment host basePath = .ok db') :
    ∃ address resource, addressHeld db (id, environment) address = false ∧
      db' = touch { db with live := { db.live with
        route := Function.update db.live.route (id, environment) (some address) } } resource := by
  simp only [putRoute, bind_ok, orRefuse_ok, require_ok] at h
  obtain ⟨resource, -, -, -, -, -, domain, -, address, -, -, hheld, hdb⟩ := h
  exact ⟨address, id, by simpa using hheld, (Except.ok.inj hdb).symm⟩

theorem putBinding_ok {db' : Database} {environment : Environment} {backend : Backend}
    (h : putBinding app db user id environment backend = .ok db') :
    ∃ resource, db' = touch { db with live := { db.live with
      binding := Function.update db.live.binding (id, environment) (some backend) } } resource := by
  simp only [putBinding, bind_ok, orRefuse_ok, require_ok] at h
  obtain ⟨resource, -, -, -, -, -, -, -, hdb⟩ := h
  exact ⟨id, (Except.ok.inj hdb).symm⟩

/-! ### Stages of a command -/

def resumeRequest (app : App) (db : Database) : Request → Except Refusal (Request ⊕ Database)
  | .publish user body environment config =>
    (publishCommit app db user body environment config).map .inr
  | .configure user body read =>
    (configureSettle app db user body read).map fun config =>
      .inl (.configureSettled user body read config)
  | .configureSettled user body read config =>
    (configureCommit app db user body read config).map .inr
  | .promote user body read =>
    (promoteSettle app db user body read).map fun config =>
      .inl (.promoteSettled user body read config)
  | .promoteSettled user body read config =>
    (promoteCommit db user body read config).map .inr

theorem map_eq_ok {α β : Type} {result : Except Refusal α} {f : α → β} {b : β}
    (h : result.map f = .ok b) : ∃ a, result = .ok a ∧ f a = b := by
  cases result with
  | error => cases h
  | ok a => exact ⟨a, rfl, Except.ok.inj h⟩

theorem resumeRequest_committed {db' : Database} {request : Request}
    (h : resumeRequest app db request = .ok (.inr db')) :
    (∃ user body environment config, request = .publish user body environment config ∧
        publishCommit app db user body environment config = .ok db') ∨
      (∃ user body read config, request = .configureSettled user body read config ∧
        configureCommit app db user body read config = .ok db') ∨
      ∃ user body read config, request = .promoteSettled user body read config ∧
        promoteCommit db user body read config = .ok db' := by
  cases request with
  | publish user body environment config =>
    obtain ⟨written, hwritten, hdb⟩ := map_eq_ok h
    exact .inl ⟨user, body, environment, config, rfl, Sum.inr.inj hdb ▸ hwritten⟩
  | configure user body read =>
    obtain ⟨config, -, hnext⟩ := map_eq_ok h
    cases hnext
  | configureSettled user body read config =>
    obtain ⟨written, hwritten, hdb⟩ := map_eq_ok h
    exact .inr (.inl ⟨user, body, read, config, rfl, Sum.inr.inj hdb ▸ hwritten⟩)
  | promote user body read =>
    obtain ⟨config, -, hnext⟩ := map_eq_ok h
    cases hnext
  | promoteSettled user body read config =>
    obtain ⟨written, hwritten, hdb⟩ := map_eq_ok h
    exact .inr (.inr ⟨user, body, read, config, rfl, Sum.inr.inj hdb ▸ hwritten⟩)

theorem resumeRequest_settled {request next : Request}
    (h : resumeRequest app db request = .ok (.inl next)) :
    (∃ user body read config, request = .configure user body read ∧
        configureSettle app db user body read = .ok config ∧
        next = .configureSettled user body read config) ∨
      ∃ user body read config, request = .promote user body read ∧
        promoteSettle app db user body read = .ok config ∧
        next = .promoteSettled user body read config := by
  cases request with
  | publish user body environment config =>
    obtain ⟨written, -, hdb⟩ := map_eq_ok h
    cases hdb
  | configure user body read =>
    obtain ⟨config, hconfig, hnext⟩ := map_eq_ok h
    exact .inl ⟨user, body, read, config, rfl, hconfig, (Sum.inl.inj hnext).symm⟩
  | configureSettled user body read config =>
    obtain ⟨written, -, hdb⟩ := map_eq_ok h
    cases hdb
  | promote user body read =>
    obtain ⟨config, hconfig, hnext⟩ := map_eq_ok h
    exact .inr ⟨user, body, read, config, rfl, hconfig, (Sum.inl.inj hnext).symm⟩
  | promoteSettled user body read config =>
    obtain ⟨written, -, hdb⟩ := map_eq_ok h
    cases hdb

/-! ### Steps -/

def State.write (s : State) (result : Except Refusal Database) : Option State :=
  result.toOption.map fun db => { s with db := db }

def State.waiting (s : State) (result : Except Refusal Request) : Option State :=
  result.toOption.map fun request => { s with requests := s.requests ++ [request] }

/-- What an administrator can make of the estate: a gateway keeps its environment as long as it is
there, and its number is not given again (`api/fleet.ts:511-588`; an id is a UUID). -/
def Estate.follows (old new : Estate) (next : Nat) : Bool :=
  decide (new.targets.map (·.id)).Nodup && new.targets.all fun t =>
    (old.targets.any fun was => was.id == t.id && was.environment == t.environment) || next ≤ t.id

def Estate.numbered (estate : Estate) (next : Nat) : Nat :=
  estate.targets.foldl (fun n t => max n (t.id + 1)) next

/-- The estate replaced; the rows of a gateway that is gone go with it (`ON DELETE CASCADE`). -/
def administer (db : Database) (estate : Estate) : Database :=
  let kept := fun id => estate.targets.any fun t => t.id == id
  { db with
    estate := estate
    ledger := { db.ledger with next := estate.numbered db.ledger.next }
    live := { db.live with
      routeGateway := fun stage => (db.live.routeGateway stage).filter kept
      applied := db.live.applied.filter fun a => kept a.targetId } }

def announceDelete (db : Database) (user : User) (id : ResourceId) : Except Refusal Database := do
  let resource ← orRefuse (resourceOf db id) .notFound
  require (can user resource.applicationId) .notMember
  return enqueueRemovals db id

def deleteApi (db : Database) (user : User) (id : ResourceId) : Except Refusal Database := do
  let resource ← orRefuse (resourceOf db id) .notFound
  require (can user resource.applicationId) .notMember
  return deleteResource db id

theorem announceDelete_ok {db' : Database} (h : announceDelete db user id = .ok db') :
    db' = enqueueRemovals db id := by
  simp only [announceDelete, bind_ok, orRefuse_ok, require_ok] at h
  obtain ⟨resource, -, -, -, hdb⟩ := h
  exact (Except.ok.inj hdb).symm

theorem deleteApi_ok {db' : Database} (h : deleteApi db user id = .ok db') :
    db' = deleteResource db id := by
  simp only [deleteApi, bind_ok, orRefuse_ok, require_ok] at h
  obtain ⟨resource, -, -, -, hdb⟩ := h
  exact (Except.ok.inj hdb).symm

def step (app : App) (s : State) : Event → Option State
  | .publish user body environment =>
    s.waiting ((publishSettle app s.db user body environment).map (.publish user body environment))
  | .configure user id body =>
    s.waiting ((configureRead app s.db user id body).map (.configure user body))
  | .promote user id body =>
    s.waiting ((promoteRead app s.db user id body).map (.promote user body))
  | .resume index =>
    match s.requests[index]? with
    | none => none
    | some request =>
      match resumeRequest app s.db request with
      | .error _ => none
      | .ok (.inl next) => some { s with requests := s.requests.set index next }
      | .ok (.inr db) => some { s with db := db, requests := s.requests.eraseIdx index }
  | .putUnit user id environment unit value =>
    s.write (putUnit app s.db user id environment unit value)
  | .deleteUnit user id environment unit => s.write (deleteUnit app s.db user id environment unit)
  | .copyFrom user id source environment units =>
    s.write (copyFrom app s.db user id source environment units)
  | .putGlobalUnit user environment unit value =>
    s.write (putGlobalUnit app s.db user environment unit value)
  | .deleteGlobalUnit user environment unit =>
    s.write (deleteGlobalUnit app s.db user environment unit)
  | .copyGlobals user source environment => s.write (copyGlobals app s.db user source environment)
  | .putRoute user id environment host basePath =>
    s.write (putRoute app s.db user id environment host basePath)
  | .putBinding user id environment backend =>
    s.write (putBinding app s.db user id environment backend)
  | .createRevision user id definition =>
    s.write ((createRevision s.db user id definition).map (·.1))
  | .correctRevision user id readDigest definition =>
    s.write (correctRevision s.db user id readDigest definition)
  | .createVersion user id apiVersion copyPolicyFrom createRoutes =>
    s.write (createVersion app s.db user id apiVersion copyPolicyFrom createRoutes)
  | .dryRun user id body => s.write (dryRunRelease app s.db user id body)
  | .release user id body => s.write (requestRelease app s.db user id body)
  | .withdraw user id environment => s.write (withdraw app s.db user id environment)
  | .announceDelete user id => s.write (announceDelete s.db user id)
  | .delete user id => s.write (deleteApi s.db user id)
  | .operation id =>
    match operationOf s.db.ledger id with
    | some o => if o.due s.db.clock then some { s with db := runOperation app s.db o } else none
    | none => none
  | .complete environment => some { s with db := completeEnvironment app s.db environment }
  | .startJob id =>
    match jobOf s.db.ledger id with
    | some j =>
      if j.due s.db.clock then
        some { s with
          db := { s.db with ledger := s.db.ledger.updateJob id (·.started s.db.clock) }
          claimed := s.claimed ++ [id] }
      else none
    | none => none
  | .executeJob id leased =>
    match jobOf s.db.ledger id with
    | some j =>
      if s.claimed.contains id then
        let ran := executeJob app s.db j leased
        some { s with
          db := ran.1
          claimed := s.claimed.erase id
          ran := if ran.2 then s.ran ++ [id] else s.ran }
      else none
    | none => none
  | .finishJob id =>
    if s.ran.contains id then
      some { s with
        db := { s.db with ledger := s.db.ledger.updateJob id fun j =>
          { j with state := .done, updatedAt := s.db.clock } }
        ran := s.ran.erase id }
    else none
  | .requeueJobs =>
    some { s with db := { s.db with ledger := s.db.ledger.requeueStale s.db.clock } }
  | .crash => some { s with requests := [], claimed := [], ran := [] }
  | .enqueuePrune hour =>
    some { s with db := { s.db with
      ledger := s.db.ledger.enqueueJob .prune (.prune hour) s.db.clock } }
  | .administer estate =>
    if s.db.estate.follows estate s.db.ledger.next then
      some { s with db := administer s.db estate }
    else none
  | .wait milliseconds =>
    some { s with db := { s.db with clock := s.db.clock + milliseconds } }

/-- The state after a run, `none` when an event of it is not enabled where it is tried. -/
def run (app : App) (s : State) (events : List Event) : Option State := exec (step app) s events

variable {s s' : State}

attribute [local simp] step

theorem State.write_eq_some {result : Except Refusal Database} (h : s.write result = some s') :
    ∃ db, result = .ok db ∧ s' = { s with db := db } := by
  unfold State.write at h
  cases result with
  | error => cases h
  | ok db => exact ⟨db, rfl, (Option.some.inj h).symm⟩

theorem State.waiting_eq_some {result : Except Refusal Request} (h : s.waiting result = some s') :
    ∃ request, result = .ok request ∧ s' = { s with requests := s.requests ++ [request] } := by
  unfold State.waiting at h
  cases result with
  | error => cases h
  | ok request => exact ⟨request, rfl, (Option.some.inj h).symm⟩

theorem step_resume {index : Nat} (h : step app s (.resume index) = some s') :
    ∃ request, s.requests[index]? = some request ∧
      ((∃ next, resumeRequest app s.db request = .ok (.inl next) ∧
          s' = { s with requests := s.requests.set index next }) ∨
        ∃ db, resumeRequest app s.db request = .ok (.inr db) ∧
          s' = { s with db := db, requests := s.requests.eraseIdx index }) := by
  simp only [step] at h
  split at h
  · cases h
  next request hrequest =>
    refine ⟨request, hrequest, ?_⟩
    split at h
    · cases h
    next next hnext => exact .inl ⟨next, hnext, (Option.some.inj h).symm⟩
    next db hdb => exact .inr ⟨db, hdb, (Option.some.inj h).symm⟩

theorem step_operation {id : OperationId} (h : step app s (.operation id) = some s') :
    ∃ o, operationOf s.db.ledger id = some o ∧ o.due s.db.clock = true ∧
      s' = { s with db := runOperation app s.db o } := by
  simp only [step] at h
  split at h
  next o ho =>
    split at h
    next hdue => exact ⟨o, ho, hdue, (Option.some.inj h).symm⟩
    next => cases h
  next => cases h

theorem step_startJob {id : JobId} (h : step app s (.startJob id) = some s') :
    ∃ j, jobOf s.db.ledger id = some j ∧ j.due s.db.clock = true ∧
      s' = { s with
        db := { s.db with ledger := s.db.ledger.updateJob id (·.started s.db.clock) }
        claimed := s.claimed ++ [id] } := by
  simp only [step] at h
  split at h
  next j hj =>
    split at h
    next hdue => exact ⟨j, hj, hdue, (Option.some.inj h).symm⟩
    next => cases h
  next => cases h

theorem step_administer {estate : Estate} (h : step app s (.administer estate) = some s') :
    s.db.estate.follows estate s.db.ledger.next = true ∧
      s' = { s with db := administer s.db estate } := by
  simp only [step] at h
  split at h
  next hfollows => exact ⟨hfollows, (Option.some.inj h).symm⟩
  next => cases h

theorem step_finishJob {id : JobId} (h : step app s (.finishJob id) = some s') :
    id ∈ s.ran ∧ s' = { s with
      db := { s.db with ledger := s.db.ledger.updateJob id fun j =>
        { j with state := .done, updatedAt := s.db.clock } }
      ran := s.ran.erase id } := by
  simp only [step] at h
  split at h
  next hran => exact ⟨by simpa using hran, (Option.some.inj h).symm⟩
  next => cases h

theorem step_executeJob {id : JobId} {leased : Bool}
    (h : step app s (.executeJob id leased) = some s') :
    ∃ j, jobOf s.db.ledger id = some j ∧ id ∈ s.claimed ∧
      s' = { s with
        db := (executeJob app s.db j leased).1
        claimed := s.claimed.erase id
        ran := if (executeJob app s.db j leased).2 then s.ran ++ [id] else s.ran } := by
  simp only [step] at h
  split at h
  next j hj =>
    split at h
    next hclaimed => exact ⟨j, hj, by simpa using hclaimed, (Option.some.inj h).symm⟩
    next => cases h
  next => cases h

def State.initial : State := ⟨Database.empty, [], [], []⟩

def Reachable (app : App) (s : State) : Prop := ∃ events, run app State.initial events = some s

/-! ### A small control plane

Two environments with a gateway each, an administrator, a member of one application, and a body that
publishes an API of it. -/

def administrator : User := ⟨"admin", true, []⟩

def developer : User := ⟨"dev", false, ["shop"]⟩

def twoStages : App := ⟨Platform.plain, ⟨["dev", "test"], 300, 20, 365, 24⟩⟩

def twoGateways : Estate :=
  { Database.empty.estate with
    targets := [⟨1, "dev", "dev-gw", false⟩, ⟨2, "test", "test-gw", false⟩] }

def petsDefinition : Definition := ⟨"pets", "pets", "sha256:pets", "", "[]", by decide⟩

/-- Publishes `pets v1` to the first environment, with a definition and a backend and nothing
else. -/
def publishPets : PublishInput :=
  { applicationId := "shop"
    name := "pets"
    kind := .rest
    apiVersion := "v1"
    source := some petsDefinition
    pool := some ⟨[⟨"https://pets", none⟩], .failover, false⟩
    backendUrl := none
    host := none
    basePath := none
    clientCertRef := none
    policy := none
    environment := none
    domain := some "shop"
    subdomain := none
    gateways := none
    idempotencyKey := "publish"
    requestDigest := "publish"
    ifMatch := some [.any]
    generated := false }

/-- Changes the API of `publishPets` in an environment, and names nothing that it changes. -/
def configurePets (environment : Environment) (key : String) : PublishInput :=
  { publishPets with
    source := none
    pool := none
    environment := some environment
    domain := none
    idempotencyKey := key
    requestDigest := key }

end Apim.ControlPlane
