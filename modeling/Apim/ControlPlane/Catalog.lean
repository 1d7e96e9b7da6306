import Apim.Lib.Guard
import Apim.ControlPlane.Directory
import Apim.ControlPlane.Database

/-!
# Products, their members and who subscribes to them

APIs are sold through products, and an application subscribes to a product
(`control-plane/src/api/catalog.ts:206-553`, `control-plane/src/api/resources.ts:982-1260`,
`control-plane/src/operations.ts:599-750`). A subscription to another application's product waits
for that application to decide, through an event of the outbox
(`control-plane/src/integrations.ts:45-175` and `223-502`).

A handler that awaits its body has read the row it is about before that, and goes on with the copy:
it stands in `suspended` until its body is there. A handler that reads nothing before its body is
one step. What happens inside a step is not interrupted, and a handler that throws has written
nothing.
-/

namespace Apim.Catalog
open Guard
open ControlPlane (User can)
open Groups (trimmed)

/-! ### Rows -/

structure Api where
  id : Nat
  name : String
  applicationId : String
  apiVersion : String
  lifecycle : String
  updatedAt : Nat
  deriving DecidableEq

structure Product where
  id : Nat
  name : String
  applicationId : String
  lifecycle : String
  deriving DecidableEq

inductive SubscriptionState where
  | pending
  | activating
  | active
  | revoking
  | revoked
  | rejected
  | cancelled
  deriving DecidableEq

structure Subscription where
  id : Nat
  productId : Nat
  applicationId : String
  environment : String
  state : SubscriptionState
  deriving DecidableEq

inductive Subject where
  | subscription (id : Nat)
  | application (id : String)
  deriving DecidableEq

inductive EventState where
  | queued
  | retrying
  | delivered
  | completed
  | awaitingDecision
  | approved
  | rejected
  deriving DecidableEq

/-- A row of `integration_event`; of its payload, what is read of it again. -/
structure IntegrationEvent where
  id : Nat
  applicationId : String
  integration : String
  kind : String
  subject : Subject
  state : EventState
  attempts : Nat
  consumer : String
  simulateFailures : Nat
  deriving DecidableEq

structure HttpError where
  status : Nat
  detail : String

inductive Suspended where
  | version (user : User) (row : Api)
  | members (user : User) (product : Product)
  | owner (user : User) (row : Api)
  | decision (user : User) (event : IntegrationEvent)

/-- Rows are numbered by one counter. A member is a product and a resource; `releases` are the
converged ones, by resource and environment. -/
structure Portal where
  applications : List String
  resources : List Api
  products : List Product
  members : List (Nat × Nat)
  subscriptions : List Subscription
  events : List IntegrationEvent
  releases : List (Nat × String)
  next : Nat
  suspended : List Suspended

def Portal.api (s : Portal) (id : Nat) : Option Api := s.resources.find? (·.id == id)

def Portal.product (s : Portal) (id : Nat) : Option Product := s.products.find? (·.id == id)

/-- `assertCan` (`api/common.ts:72-76`). -/
def assertCan (user : User) (applicationId what : String) : Except HttpError Unit :=
  ensure (can user applicationId)
    ⟨403, s!"{what}: you are not a member of the owning application and not an admin"⟩

def isName (name : String) : Bool :=
  match name.toList with
  | [] => false
  | first :: rest =>
    Groups.isIdStart first && rest.all (fun c => c.isLower || c.isDigit || c == '-') &&
      1 ≤ rest.length && rest.length ≤ 60

def isApiVersion (version : String) : Bool :=
  match version.toList with
  | 'v' :: first :: rest =>
    first.isDigit && first != '0' && rest.all Char.isDigit && rest.length ≤ 30
  | _ => false

/-! ### Products -/

structure ProductBody where
  name : String
  applicationId : Option String
  resourceIds : List Nat

def assertMember (s : Portal) (user : User) (applicationId : String) (resourceId : Nat) :
    Except HttpError Unit := do
  let resource ← demand (s.api resourceId) ⟨404, s!"no resource {resourceId}"⟩
  assertCan user resource.applicationId s!"add {resourceId} to a product"
  ensure (resource.applicationId = applicationId)
    ⟨409, "a product can contain only its owning application’s APIs"⟩

/-- `POST /api/products` (`catalog.ts:212-254`). -/
def createProduct (s : Portal) (user : User) (body : ProductBody) : Except HttpError Portal := do
  ensure (isName body.name) ⟨400, "name: expected 2-61 lowercase letters, digits or hyphens"⟩
  let applicationId ← demand (body.applicationId.or user.applications.head?)
    ⟨403, "create a product for this application: no application"⟩
  assertCan user applicationId "create a product for this application"
  ensure (!s.products.any (·.name == body.name)) ⟨409, s!"a product named {body.name} already exists"⟩
  ensure (s.applications.contains applicationId) ⟨500, "FOREIGN KEY constraint failed"⟩
  each body.resourceIds (assertMember s user applicationId)
  ensure body.resourceIds.Nodup ⟨500, "UNIQUE constraint failed"⟩
  return { s with
    products := s.products ++ [⟨s.next, body.name, applicationId, "active"⟩]
    members := s.members ++ body.resourceIds.map (s.next, ·)
    next := s.next + 1 }

/-- `PUT /api/products/:id/members`, up to its body (`catalog.ts:256-262`). -/
def openMembers (s : Portal) (user : User) (id : Nat) : Except HttpError Suspended := do
  let product ← demand (s.product id) ⟨404, s!"no product {id}"⟩
  assertCan user product.applicationId "change this product's members"
  return .members user product

/-- `PUT /api/products/:id/members`, from its body (`catalog.ts:264-288`). -/
def putMembers (s : Portal) (user : User) (product : Product) (resourceIds : List Nat) :
    Except HttpError Portal := do
  each resourceIds (assertMember s user product.applicationId)
  ensure resourceIds.Nodup ⟨500, "UNIQUE constraint failed"⟩
  ensure (resourceIds.isEmpty || (s.product product.id).isSome)
    ⟨500, "FOREIGN KEY constraint failed"⟩
  return { s with
    members := s.members.filter (·.1 ≠ product.id) ++ resourceIds.map (product.id, ·) }

/-- `DELETE /api/products/:id` (`catalog.ts:295-326`); the rest of the product cascades. -/
def deleteProduct (s : Portal) (user : User) (id : Nat) : Except HttpError Portal := do
  let product ← demand (s.product id) ⟨404, s!"no product {id}"⟩
  assertCan user product.applicationId "delete this product"
  ensure (!s.subscriptions.any fun sub => sub.productId == id && sub.state == .active)
    ⟨409, s!"{product.name} has active subscriptions; revoke them first"⟩
  return { s with
    products := s.products.filter (·.id ≠ id)
    members := s.members.filter (·.1 ≠ id)
    subscriptions := s.subscriptions.filter (·.productId ≠ id) }

/-! ### APIs -/

structure PublishBody where
  applicationId : String
  name : String
  apiVersion : String
  productId : Option Nat
  productName : Option String

/-- `applicationId.replace(/^application[_-]/, "").replace(/[^a-z0-9-]/g, "-")`. -/
def slugOf (applicationId : String) : String :=
  let rest :=
    if applicationId.startsWith "application_" ∨ applicationId.startsWith "application-" then
      (applicationId.drop 12).toString
    else applicationId
  rest.map fun c => if c.isLower || c.isDigit || c == '-' then c else '-'

/-- The names tried for an API's own product; a cut name may stay taken for ever, which is `none`. -/
def ownProductName (s : Portal) (applicationId apiName : String) : Option String :=
  let slug := slugOf applicationId
  let cut := fun (name : String) => (name.take 61).toString
  let tries := apiName :: cut (apiName ++ "-" ++ slug) ::
    (List.range (s.products.length + 1)).map fun n =>
      cut (apiName ++ "-" ++ slug ++ "-" ++ toString (n + 2))
  tries.find? fun name => !s.products.any (·.name == name)

def soldThrough (s : Portal) (applicationId apiName : String) : Option Product :=
  s.products.find? fun p => p.applicationId == applicationId && p.lifecycle == "active" &&
    s.members.any fun m => m.1 == p.id && s.resources.any fun r =>
      r.id == m.2 && r.applicationId == p.applicationId && r.name == apiName

def Portal.withProduct (s : Portal) (name applicationId : String) : Portal × Nat :=
  ({ s with
      products := s.products ++ [⟨s.next, name, applicationId, "active"⟩]
      next := s.next + 1 }, s.next)

/-- The product a published API joins (`operations.ts:687-713` and `599-629`). -/
def productFor (s : Portal) (body : PublishBody) : Except HttpError (Portal × Nat) :=
  match body.productId with
  | some id => do
    let product ← demand (s.product id)
      ⟨400, "choose an active product owned by this application"⟩
    ensure (product.applicationId = body.applicationId && product.lifecycle == "active")
      ⟨400, "choose an active product owned by this application"⟩
    return (s, id)
  | none =>
    match body.productName with
    | some name => do
      ensure (!s.products.any (·.name == name)) ⟨409, "product name already exists"⟩
      return s.withProduct name body.applicationId
    | none =>
      match soldThrough s body.applicationId body.name with
      | some product => .ok (s, product.id)
      | none => do
        let name ← demand (ownProductName s body.applicationId body.name) ⟨500, "no free name"⟩
        return s.withProduct name body.applicationId

/-- `publishResource` (`operations.ts:632-757`), as far as ownership goes. -/
def publish (s : Portal) (user : User) (body : PublishBody) (now : Nat) :
    Except HttpError Portal := do
  assertCan user body.applicationId "publish for this application"
  ensure (s.applications.contains body.applicationId) ⟨404, "application not found"⟩
  ensure (isName body.name) ⟨400, "name: 2–61 lowercase letters, digits or hyphens"⟩
  ensure (isApiVersion body.apiVersion) ⟨400, "apiVersion: use v followed by a positive integer"⟩
  ensure (body.productName.all isName) ⟨400, "productName: 2–61 lowercase letters, digits or hyphens"⟩
  ensure (!s.resources.any fun r => r.applicationId == body.applicationId && r.name == body.name &&
    r.apiVersion == body.apiVersion) ⟨409, "API name and version already exist"⟩
  let (s, productId) ← productFor s body
  return { s with
    resources := s.resources ++
      [⟨s.next, body.name, body.applicationId, body.apiVersion, "active", now⟩]
    members := s.members ++ [(productId, s.next)]
    next := s.next + 1 }

/-- `POST /api/resources/:id/versions`, up to its body (`resources.ts:1120-1124`). -/
def openVersion (s : Portal) (user : User) (id : Nat) : Except HttpError Suspended := do
  let row ← demand (s.api id) ⟨404, s!"no resource {id}"⟩
  assertCan user row.applicationId "create a version of this resource"
  return .version user row

/-- `POST /api/resources/:id/versions`, from its body (`resources.ts:1130-1262`). -/
def createVersion (s : Portal) (row : Api) (apiVersion : String) (now : Nat) :
    Except HttpError Portal := do
  ensure (isApiVersion (trimmed apiVersion)) ⟨400, "apiVersion: use v followed by a positive integer"⟩
  ensure (trimmed apiVersion ≠ row.apiVersion) ⟨409, s!"this API is already at version {apiVersion}"⟩
  ensure (!s.resources.any fun r => r.applicationId == row.applicationId && r.name == row.name &&
    r.apiVersion == trimmed apiVersion) ⟨409, s!"the API already has a version {apiVersion}"⟩
  return { s with
    resources := s.resources ++
      [⟨s.next, row.name, row.applicationId, trimmed apiVersion, "active", now⟩]
    next := s.next + 1 }

/-! ### Ownership -/

/-- `POST /api/resources/:id/owner`; `ifMatch` is whether the header names a row's ETag. -/
structure OwnerBody where
  applicationId : Option String
  ifMatch : Api → Bool

/-- `POST /api/resources/:id/owner`, up to its body (`resources.ts:990-992`). -/
def openOwner (s : Portal) (user : User) (id : Nat) : Except HttpError Suspended := do
  let row ← demand (s.api id) ⟨404, s!"no resource {id}"⟩
  return .owner user row

def Portal.family (s : Portal) (applicationId name : String) : List Api :=
  s.resources.filter fun r => r.applicationId == applicationId && r.name == name

def Portal.selling (s : Portal) (ids : List Nat) : List Product :=
  s.products.filter fun p => s.members.any fun m => m.1 == p.id && ids.contains m.2

def Portal.others (s : Portal) (ids : List Nat) (p : Product) : Nat :=
  s.members.countP fun m => m.1 == p.id && !ids.contains m.2

/-- What a transfer is refused for (`resources.ts:993-1045`). -/
def assertTransfer (s : Portal) (user : User) (row : Api) (body : OwnerBody) (target : String) :
    Except HttpError Unit := do
  ensure (target ≠ "") ⟨400, "applicationId: required — name the application taking this API over"⟩
  ensure (target ≠ row.applicationId) ⟨400, s!"{row.name} already belongs to {target}"⟩
  ensure (s.applications.contains target) ⟨400, s!"applicationId: no application {target}"⟩
  assertCan user row.applicationId "give this API away"
  assertCan user target s!"hand this API to {target}"
  ensure (body.ifMatch row)
    ⟨412, "If-Match does not match the current ETag; someone else changed this resource"⟩
  ensure (s.family target row.name).isEmpty
    ⟨409, s!"{target} already has an API named {row.name} — rename one of them first"⟩
  let ids := (s.family row.applicationId row.name).map (·.id)
  ensure (!(s.selling ids).any fun p => 0 < s.others ids p && p.applicationId != target)
    ⟨409, s!"{row.name} is sold through products which also sell other APIs"⟩

/-- `POST /api/resources/:id/owner`, from its body (`resources.ts:993-1065`). -/
def transfer (s : Portal) (user : User) (row : Api) (body : OwnerBody) (now : Nat) :
    Except HttpError Portal := do
  let target := trimmed (body.applicationId.getD "")
  assertTransfer s user row body target
  let ids := (s.family row.applicationId row.name).map (·.id)
  let moving := ((s.selling ids).filter (·.applicationId ≠ target)).map (·.id)
  return { s with
    resources := s.resources.map fun r =>
      if ids.contains r.id then { r with applicationId := target, updatedAt := now } else r
    products := s.products.map fun p =>
      if moving.contains p.id then { p with applicationId := target } else p }

/-! ### The outbox -/

/-- `emitIntegration` (`integrations.ts:37-68`): an event is written once for its integration, kind
and subject. -/
def Portal.emit (s : Portal) (applicationId integration kind : String) (subject : Subject)
    (consumer : String) : Portal :=
  if s.events.any fun e => e.integration == integration && e.kind == kind && e.subject == subject then
    s
  else { s with
    events := s.events ++
      [⟨s.next, applicationId, integration, kind, subject, .queued, 0, consumer, 0⟩]
    next := s.next + 1 }

/-- `requestApproval` (`integrations.ts:223-246`) of a subscription. -/
def Portal.requestApproval (s : Portal) (consumer publisher : String) (id : Nat) : Portal :=
  ((((s.emit publisher "skonet" "subscription.request" (.subscription id) consumer).emit consumer
    "email" "subscription.requested" (.subscription id) "").emit publisher "email"
    "subscription.approval-needed" (.subscription id) "").emit consumer "ldapws" "contacts"
    (.application consumer) "").emit publisher "leanix" "metadata" (.application publisher) ""

/-- What one turn of `runIntegrationEvents` makes of an event (`integrations.ts:77-164`). -/
def IntegrationEvent.delivered (event : IntegrationEvent) : IntegrationEvent :=
  let attempts := event.attempts + 1
  if attempts ≤ event.simulateFailures then
    { event with state := .retrying, attempts := attempts }
  else
    { event with
      state :=
        if event.integration = "skonet" then .awaitingDecision
        else if event.integration = "fixme" then .completed
        else .delivered
      attempts := attempts }

def IntegrationEvent.waits (event : IntegrationEvent) : Bool :=
  event.state == .queued || event.state == .retrying

def deliver (s : Portal) (id : Nat) : Portal :=
  { s with
    events := s.events.map fun e => if e.id = id ∧ e.waits then e.delivered else e }

/-! ### Subscriptions -/

structure SubscribeBody where
  productId : Nat
  applicationId : String
  environment : String
  purpose : String

def SubscriptionState.current : SubscriptionState → Bool
  | .pending | .activating | .active | .revoking => true
  | _ => false

/-- `createSubscription` (`catalog.ts:394-480`). -/
def subscribe (chain : List String) (s : Portal) (user : User) (body : SubscribeBody) :
    Except HttpError Portal := do
  ensure (chain.contains body.environment) ⟨400, s!"unknown environment \"{body.environment}\""⟩
  let product ← demand (s.product body.productId) ⟨404, s!"no product {body.productId}"⟩
  ensure (s.applications.contains body.applicationId) ⟨404, s!"no application {body.applicationId}"⟩
  assertCan user body.applicationId "subscribe this application"
  let purpose := Routing.utf16Length (trimmed body.purpose).toList
  ensure (3 ≤ purpose && purpose ≤ 500) ⟨400, "purpose: 3–500 characters"⟩
  ensure (product.lifecycle != "retired")
    ⟨409, s!"product {product.name} is retired and does not take new subscriptions"⟩
  ensure (s.members.any fun m => m.1 == product.id && s.resources.any fun r =>
    r.id == m.2 && r.lifecycle != "retired" && s.releases.contains (r.id, body.environment))
    ⟨409, s!"product {product.name} has no active published API in {body.environment}"⟩
  ensure (!s.subscriptions.any fun sub => sub.productId == product.id &&
    sub.applicationId == body.applicationId && sub.environment == body.environment &&
      sub.state.current)
    ⟨409, "this application already has a request or subscription for this product and environment"⟩
  let own := product.applicationId == body.applicationId
  let id := s.next
  let created : Portal := { s with
    subscriptions := s.subscriptions ++
      [⟨id, product.id, body.applicationId, body.environment, if own then .activating else .pending⟩]
    next := s.next + 1 }
  return if own then
      created.emit body.applicationId "email" "subscription.approved" (.subscription id) ""
    else created.requestApproval body.applicationId product.applicationId id

def Portal.setState (s : Portal) (id : Nat) (state : SubscriptionState) : Portal :=
  { s with
    subscriptions := s.subscriptions.map fun sub =>
      if sub.id = id then { sub with state := state } else sub }

def Portal.setEvent (s : Portal) (id : Nat) (state : EventState) : Portal :=
  { s with events := s.events.map fun e => if e.id = id then { e with state := state } else e }

/-- What `DELETE /api/subscriptions/:id` makes of a state (`catalog.ts:535`). -/
def SubscriptionState.withdrawn : SubscriptionState → SubscriptionState
  | .pending => .cancelled
  | .cancelled => .cancelled
  | .rejected => .rejected
  | .revoked => .revoked
  | _ => .revoking

/-- `DELETE /api/subscriptions/:id` (`catalog.ts:531-553`), with `assertMayRevoke`. -/
def cancel (s : Portal) (user : User) (id : Nat) : Except HttpError Portal := do
  let sub ← demand (s.subscriptions.find? (·.id == id)) ⟨404, s!"no subscription {id}"⟩
  let product ← demand (s.product sub.productId) ⟨404, s!"no subscription {id}"⟩
  ensure (can user sub.applicationId || can user product.applicationId)
    ⟨403, s!"you are in neither application of the subscription"⟩
  return (s.setState id sub.state.withdrawn).emit sub.applicationId "email" "subscription.revoked"
    (.subscription id) ""

/-- The end of an operation in an environment (`operations.ts:1427-1435`). -/
def activate (s : Portal) (environment : String) : Portal :=
  { s with
    subscriptions := s.subscriptions.map fun sub =>
      if sub.environment = environment ∧ sub.state = .activating then { sub with state := .active }
      else if sub.environment = environment ∧ sub.state = .revoking then
        { sub with state := .revoked }
      else sub }

inductive Decision where
  | approved
  | rejected
  deriving DecidableEq

def Decision.event : Decision → EventState
  | .approved => .approved
  | .rejected => .rejected

def Decision.subscription : Decision → SubscriptionState
  | .approved => .activating
  | .rejected => .rejected

def Decision.kind : Decision → String
  | .approved => "subscription.request.approved"
  | .rejected => "subscription.request.rejected"

/-- `POST /api/integration-events/:id/decision`, up to its body (`integrations.ts:387-402`). -/
def openDecision (s : Portal) (user : User) (id : Nat) : Except HttpError Suspended := do
  let event ← demand (s.events.find? (·.id == id)) ⟨404, "no SkoNET approval request"⟩
  ensure (event.integration = "skonet") ⟨404, "no SkoNET approval request"⟩
  assertCan user event.applicationId "decide access to this application product"
  return .decision user event

/-- The transaction of a decision (`integrations.ts:411-493`), of the subscription the event asks
for. -/
def decided (s : Portal) (event : IntegrationEvent) (decision : Decision) (id : Nat) :
    Except HttpError Portal := do
  let row ← demand (s.subscriptions.find? (·.id == id)) ⟨409, "subscription is no longer pending"⟩
  ensure (row.state = .pending) ⟨409, "subscription is no longer pending"⟩
  ensure ((s.product row.productId).any (·.applicationId == event.applicationId))
    ⟨409, "product ownership changed"⟩
  return ((s.setState id decision.subscription).setEvent event.id decision.event).emit event.consumer
    "email" decision.kind (.subscription id) ""

/-- `POST /api/integration-events/:id/decision`, from its body (`integrations.ts:403-501`). -/
def decide (s : Portal) (event : IntegrationEvent) (decision : Decision) :
    Except HttpError Portal :=
  if event.state = decision.event then .ok s
  else do
    ensure (event.state = .awaitingDecision) ⟨409, "request is not awaiting a decision"⟩
    match event.kind, event.subject with
    | "subscription.request", .subscription id => decided s event decision id
    | _, _ => .error ⟨400, "unsupported approval process"⟩

/-! ### Steps -/

inductive Event where
  | createProduct (user : User) (body : ProductBody)
  | deleteProduct (user : User) (id : Nat)
  | publish (user : User) (body : PublishBody) (now : Nat)
  | openMembers (user : User) (id : Nat)
  | openVersion (user : User) (id : Nat)
  | openOwner (user : User) (id : Nat)
  | openDecision (user : User) (id : Nat)
  | resumeMembers (index : Nat) (resourceIds : List Nat)
  | resumeVersion (index : Nat) (apiVersion : String) (now : Nat)
  | resumeOwner (index : Nat) (body : OwnerBody) (now : Nat)
  | resumeDecision (index : Nat) (decision : Decision)
  | subscribe (user : User) (body : SubscribeBody)
  | cancel (user : User) (id : Nat)
  | deliver (id : Nat)
  | activate (environment : String)
  | released (releases : List (Nat × String))

def Portal.orSame (s : Portal) : Except HttpError Portal → Portal
  | .ok next => next
  | .error _ => s

def Portal.suspend (s : Portal) : Except HttpError Suspended → Portal
  | .ok handler => { s with suspended := s.suspended ++ [handler] }
  | .error _ => s

def Portal.resumed (s : Portal) (index : Nat) : Portal :=
  { s with suspended := s.suspended.eraseIdx index }

def step (chain : List String) (s : Portal) : Event → Option Portal
  | .createProduct user body => some (s.orSame (createProduct s user body))
  | .deleteProduct user id => some (s.orSame (deleteProduct s user id))
  | .publish user body now => some (s.orSame (publish s user body now))
  | .openMembers user id => some (s.suspend (openMembers s user id))
  | .openVersion user id => some (s.suspend (openVersion s user id))
  | .openOwner user id => some (s.suspend (openOwner s user id))
  | .openDecision user id => some (s.suspend (openDecision s user id))
  | .resumeMembers index resourceIds =>
    match s.suspended[index]? with
    | some (.members user product) =>
      some ((s.resumed index).orSame (putMembers (s.resumed index) user product resourceIds))
    | _ => none
  | .resumeVersion index apiVersion now =>
    match s.suspended[index]? with
    | some (.version _ row) =>
      some ((s.resumed index).orSame (createVersion (s.resumed index) row apiVersion now))
    | _ => none
  | .resumeOwner index body now =>
    match s.suspended[index]? with
    | some (.owner user row) =>
      some ((s.resumed index).orSame (transfer (s.resumed index) user row body now))
    | _ => none
  | .resumeDecision index decision =>
    match s.suspended[index]? with
    | some (.decision _ event) =>
      some ((s.resumed index).orSame (decide (s.resumed index) event decision))
    | _ => none
  | .subscribe user body => some (s.orSame (subscribe chain s user body))
  | .cancel user id => some (s.orSame (cancel s user id))
  | .deliver id => some (deliver s id)
  | .activate environment => some (activate s environment)
  | .released releases => some { s with releases := releases }

end Apim.Catalog
