import Apim.Lib.Guard
import Apim.ControlPlane.Directory
import Apim.ControlPlane.Database

/-!
# Kafka topics, their edits and who has access

A topic row is one stage's (`control-plane/src/kafka.ts:86-153` and `451-815`). An edit of a topic
with an API in its stage queues a configuration of that API before it writes the row
(`configureResource`, `control-plane/src/operations.ts:767-849`).

A handler that awaits has read the row before that and goes on with the copy; it stands in
`suspended` with what it knows. An edit may wait twice more after its body: inside the
configuration, and for the answer to it. What happens inside a step is not interrupted, and a
handler that throws has written nothing of what comes after.
-/

namespace Apim.KafkaTopics
open Guard
open ControlPlane (User can)
open Groups (trimmed)

/-! ### Rows -/

inductive TopicState where
  | provisioning
  | ready
  | deleted
  deriving DecidableEq

structure Contract where
  schemaType : Option String
  schemaJson : Option String
  schemaText : Option String
  compatibility : Option String
  certificateId : Option String
  deriving DecidableEq

structure Topic extends Contract where
  id : Nat
  applicationId : String
  environment : String
  name : String
  state : TopicState
  domain : Option String
  subdomain : Option String
  replication : Int
  partitions : Int
  description : String
  retentionDays : Option Int
  minInsyncReplicas : Option Int
  displayName : Option String
  wikiLink : Option String
  schemaVersion : Nat
  deriving DecidableEq

inductive AccessState where
  | pending
  | activating
  | active
  | revoking
  | revoked
  | rejected
  | cancelled
  deriving DecidableEq

def AccessState.live : AccessState → Bool
  | .pending | .activating | .active | .revoking => true
  | _ => false

structure Access where
  id : Nat
  topicId : Nat
  applicationId : String
  state : AccessState
  principal : String
  authType : String
  operation : String
  requestId : Nat
  deriving DecidableEq

structure TopicApi where
  id : Nat
  applicationId : String
  kafkaTopic : String
  retired : Bool
  deriving DecidableEq

structure Definition where
  topic : String
  schema : String
  description : String
  deriving DecidableEq

/-- An operation of a topic's API that has not been superseded: the definition of the revision it
names, and the certificate of its backend. -/
structure Operation where
  id : Nat
  resourceId : Nat
  environment : String
  definition : Definition
  certificate : Option String
  deriving DecidableEq

structure Certificate where
  id : String
  applicationId : String
  environment : String
  notAfter : Nat

structure HttpError where
  status : Nat
  detail : String

/-- `PATCH /api/kafka/topics/:id`: what is absent is `none`, and what is null is `some none`. A
schema that is sent as an object is the text it is written as. -/
structure PatchBody where
  displayName : Option String
  description : Option String
  wikiLink : Option (Option String)
  partitions : Option Int
  retentionDays : Option (Option Int)
  minInsyncReplicas : Option (Option Int)
  replication : Option Int
  domain : Option String
  subdomain : Option (Option String)
  schemaType : Option (Option String)
  schemaDefinition : Option (Option String)
  schema : Option (Option String)
  compatibility : Option (Option String)
  certificateId : Option (Option String)
  deriving DecidableEq

inductive Suspended where
  | patch (user : User) (topic : Topic)
  | configuring (topic : Topic) (body : PatchBody) (next : Contract) (api : Nat)
      (previous : Operation)
  | queued (topic : Topic) (body : PatchBody) (next : Contract) (api : Nat) (operation : Nat)
  | subscribe (user : User) (topic : Topic)

def Suspended.topic : Suspended → Topic
  | .patch _ topic => topic
  | .configuring topic _ _ _ _ => topic
  | .queued topic _ _ _ _ => topic
  | .subscribe _ topic => topic

structure Portal where
  applications : List String
  certificates : List Certificate
  topics : List Topic
  access : List Access
  apis : List TopicApi
  operations : List Operation
  next : Nat
  suspended : List Suspended

/-- The checks of `shared/kafka.ts` that read nothing but their arguments: the sentence of a
refusal. `compact` is `JSON.stringify(JSON.parse(text))`. -/
structure Checks where
  displayNameError : String → Option String
  wikiLinkError : Option String → Option String
  schemaCheck : String → String → String → Option String
  compact : String → String
  principalError : String → String → Option String

def Portal.topic (s : Portal) (id : Nat) : Option Topic := s.topics.find? (·.id == id)

/-- `topicApiOf` (`kafka-proxy.ts:77-88`). -/
def Portal.topicApi (s : Portal) (topic : Topic) : Option TopicApi :=
  s.apis.find? fun api =>
    api.applicationId == topic.applicationId && api.kafkaTopic == topic.name && !api.retired

def Portal.snapshot (s : Portal) (api : Nat) (environment : String) : Option Operation :=
  (s.operations.filter fun op => op.resourceId == api && op.environment == environment).getLast?

def Portal.published (s : Portal) (topic : Topic) : Option (Nat × Operation) :=
  (s.topicApi topic).bind fun api => (s.snapshot api.id topic.environment).map (api.id, ·)

/-- `certificateUsable` (`kafka-proxy.ts:101-118`). -/
def Portal.certificateUsable (s : Portal) (id : String) (topic : Topic) (now : Nat) : Bool :=
  (s.certificates.find? (·.id == id)).any fun cert =>
    cert.applicationId == topic.applicationId && cert.environment == topic.environment &&
      now < cert.notAfter

/-! ### Edits -/

def orNull (value : Option String) : Option String := value.filter (· ≠ "")

def refuse : Option String → Except HttpError Unit
  | some sentence => .error ⟨400, sentence⟩
  | none => .ok ()

def intIn (value low high : Int) (label : String) : Except HttpError Unit :=
  ensure (low ≤ value && value ≤ high) ⟨400, s!"{label}: {low}–{high}"⟩

def TOPIC_SCHEMA_TYPES : List String := ["json", "avro", "protobuf"]

def TOPIC_COMPATIBILITIES : List String := ["BACKWARD", "FORWARD", "FULL", "NONE"]

def PatchBody.text (body : PatchBody) : Option (Option String) :=
  match body.schemaDefinition with
  | some definition => some (orNull definition)
  | none => body.schema.map orNull

/-- The two columns of a definition (`kafka.ts:99-126`). -/
def readDefinition (c : Checks) (topic : Topic) (schemaType : Option String) (typeChanged : Bool) :
    Option (Option String) → Except HttpError (Option String × Option String)
  | none => .ok (if typeChanged then (none, none) else (topic.schemaJson, topic.schemaText))
  | some none => .ok (none, none)
  | some (some text) => do
    let schemaType ← demand schemaType
      ⟨400, "schemaType: a definition needs its type — json, avro or protobuf"⟩
    refuse (c.schemaCheck schemaType text topic.name)
    return if schemaType = "json" then (some (c.compact text), none) else (none, some text)

/-- `readContract` (`kafka.ts:86-153`). -/
def readContract (c : Checks) (s : Portal) (topic : Topic) (body : PatchBody) (now : Nat) :
    Except HttpError Contract := do
  let schemaType := (body.schemaType.map orNull).getD topic.schemaType
  ensure (body.schemaType.isNone || schemaType.all TOPIC_SCHEMA_TYPES.contains)
    ⟨400, "schemaType: one of json, avro, protobuf"⟩
  let (schemaJson, schemaText) ←
    readDefinition c topic schemaType (schemaType != topic.schemaType) body.text
  let compatibility := (body.compatibility.map orNull).getD topic.compatibility
  ensure (body.compatibility.isNone || compatibility.all TOPIC_COMPATIBILITIES.contains)
    ⟨400, "compatibility: one of BACKWARD, FORWARD, FULL, NONE, or empty for the registry's default"⟩
  let certificateId := (body.certificateId.map orNull).getD topic.certificateId
  ensure (body.certificateId.isNone || certificateId.all (s.certificateUsable · topic now))
    ⟨400, "certificateId: choose a certificate of this topic's application that has not expired"⟩
  return ⟨schemaType, schemaJson, schemaText, compatibility, certificateId⟩

/-- What an edit is refused for, and the contract it asks for (`kafka.ts:466-503`). -/
def readPatch (c : Checks) (s : Portal) (topic : Topic) (body : PatchBody) (now : Nat) :
    Except HttpError Contract := do
  ensure (topic.state ≠ .deleted) ⟨409, "topic was deleted"⟩
  each body.partitions.toList fun n => do
    intIn n 1 100 "partitions"
    ensure (topic.partitions ≤ n) ⟨400, "partitions may only increase, up to 100"⟩
  each body.replication.toList fun n => ensure (n = topic.replication)
    ⟨400, "replication: fixed when the topic is created — changing it is a reassignment, not a setting"⟩
  ensure (body.domain.all (fun domain => orNull (some (trimmed domain)) = topic.domain) &&
      body.subdomain.all fun subdomain => orNull (subdomain.map trimmed) = topic.subdomain)
    ⟨400, "domain: fixed when the topic is created — its name carries it"⟩
  each (body.retentionDays.bind id).toList fun n => intIn n 1 7 "retention (days)"
  each (body.minInsyncReplicas.bind id).toList fun n => intIn n 1 3 "min.insync.replicas"
  ensure ((body.minInsyncReplicas.getD topic.minInsyncReplicas).all (· ≤ topic.replication))
    ⟨400, "min.insync.replicas: at most the replication factor, or no write could ever succeed"⟩
  each body.displayName.toList fun name => refuse (c.displayNameError (trimmed name))
  each body.wikiLink.toList fun link => refuse (c.wikiLinkError link)
  ensure (body.description.all fun text => Routing.utf16Length text.toList ≤ 20000)
    ⟨400, "description: at most 20 000 characters"⟩
  readContract c s topic body now

def Contract.hasSchema (contract : Contract) : Bool :=
  (orNull contract.schemaJson).isSome || (orNull contract.schemaText).isSome

def Contract.differs (next old : Contract) : Bool :=
  next.schemaType != old.schemaType || next.schemaJson != old.schemaJson ||
    next.schemaText != old.schemaText

/-- A row after the `UPDATE` of an edit that has read `topic` (`kafka.ts:547-567`): every column an
edit may name is written, from the body or from the copy. -/
def Topic.patched (row topic : Topic) (body : PatchBody) (next : Contract) : Topic :=
  { row with
    toContract := next
    description := body.description.getD topic.description
    partitions := body.partitions.getD topic.partitions
    retentionDays := body.retentionDays.getD topic.retentionDays
    minInsyncReplicas := body.minInsyncReplicas.getD topic.minInsyncReplicas
    displayName := (body.displayName.map fun name => some (trimmed name)).getD topic.displayName
    wikiLink := (body.wikiLink.map fun link => orNull (link.map trimmed)).getD topic.wikiLink
    schemaVersion :=
      if next.differs topic.toContract && next.hasSchema then topic.schemaVersion + 1
      else topic.schemaVersion }

def Portal.write (s : Portal) (topic : Topic) (body : PatchBody) (next : Contract) : Portal :=
  { s with
    topics := s.topics.map fun row => if row.id = topic.id then row.patched topic body next else row }

def Contract.servesApi (next : Contract) : Bool :=
  next.schemaType == some "json" && (orNull next.schemaJson).isSome &&
    (orNull next.certificateId).isSome

/-- `PATCH /api/kafka/topics/:id`, up to its body (`kafka.ts:451-453`). -/
def openPatch (s : Portal) (user : User) (id : Nat) : Except HttpError Suspended := do
  let topic ← demand (s.topic id) ⟨404, "topic not found"⟩
  ensure (can user topic.applicationId) ⟨403, "configure topic"⟩
  return .patch user topic

def Contract.moves (next old : Contract) : Bool :=
  next.schemaJson != old.schemaJson || next.certificateId != old.certificateId

/-- From the body on, to where the configuration of the API waits or to the end
(`kafka.ts:465-567`). -/
def patch (c : Checks) (s : Portal) (topic : Topic) (body : PatchBody) (now : Nat) :
    Except HttpError Portal := do
  let next ← readPatch c s topic body now
  match s.published topic with
  | none => return s.write topic body next
  | some (api, previous) => do
    ensure next.servesApi ⟨409, s!"{topic.name} has an API in {topic.environment}, which needs a JSON schema and a client certificate. Keep both, or retire the API first."⟩
    if next.moves topic.toContract then
      return { s with suspended := s.suspended ++ [.configuring topic body next api previous] }
    else return s.write topic body next

def configuration (topic : Topic) (body : PatchBody) (next : Contract) (api : Nat)
    (previous : Operation) (id : Nat) : Operation where
  id := id
  resourceId := api
  environment := topic.environment
  definition :=
    if next.schemaJson = topic.schemaJson then previous.definition
    else ⟨topic.name, next.schemaJson.getD "", body.description.getD topic.description⟩
  certificate :=
    if next.certificateId = topic.certificateId then previous.certificate else next.certificateId

/-- The transaction of the configuration (`operations.ts:811-848`). -/
def configure (s : Portal) (topic : Topic) (body : PatchBody) (next : Contract) (api : Nat)
    (previous : Operation) : Portal :=
  { s with
    operations := s.operations ++ [configuration topic body next api previous s.next]
    next := s.next + 1
    suspended := s.suspended ++ [.queued topic body next api s.next] }

/-! ### Staging and deleting -/

def stageAfter (chain : List String) (environment : String) : Option String :=
  chain[chain.idxOf environment + 1]?

/-- `POST /api/kafka/topics/:id/stage` (`kafka.ts:594-647`). -/
def stage (chain : List String) (s : Portal) (user : User) (id : Nat) : Except HttpError Portal := do
  let topic ← demand (s.topic id) ⟨404, "topic not found"⟩
  ensure (can user topic.applicationId) ⟨403, "stage topic"⟩
  ensure (topic.state = .ready) ⟨409, s!"{topic.name} is not ready; stage it once it is ready"⟩
  ensure (chain.contains topic.environment) ⟨409, s!"{topic.name} cannot be staged from its stage"⟩
  let environment ← demand (stageAfter chain topic.environment)
    ⟨409, s!"{topic.environment} is the last stage"⟩
  ensure (!s.topics.any fun row => row.environment == environment && row.name == topic.name)
    ⟨409, s!"{topic.name} is already in {environment}"⟩
  return { s with
    topics := s.topics ++ [{ topic with
      id := s.next
      environment := environment
      state := .provisioning
      certificateId := none
      schemaVersion := if topic.toContract.hasSchema then 1 else 0 }]
    next := s.next + 1 }

/-- `DELETE /api/kafka/topics/:id` (`kafka.ts:654-673`). -/
def delete (s : Portal) (user : User) (id : Nat) : Except HttpError Portal := do
  let topic ← demand (s.topic id) ⟨404, "topic not found"⟩
  ensure (can user topic.applicationId) ⟨403, "delete topic"⟩
  ensure (!s.access.any fun row => row.topicId == topic.id && row.state.live)
    ⟨409, "revoke or cancel topic subscriptions first"⟩
  ensure (s.published topic).isNone
    ⟨409, s!"{topic.name} has an API in {topic.environment}; retire the API first"⟩
  return { s with
    topics := s.topics.map fun row =>
      if row.id = topic.id then { row with state := .deleted } else row }

/-! ### Access -/

def TOPIC_OPERATIONS : List String := ["read", "write", "describe", "delete"]

structure SubscribeBody where
  applicationId : String
  purpose : String
  authType : String
  principal : String
  operations : List String

def openSubscribe (s : Portal) (user : User) (id : Nat) : Except HttpError Suspended := do
  let topic ← demand (s.topic id) ⟨404, "topic not found"⟩
  return .subscribe user topic

/-- What a request for access is refused for (`kafka.ts:720-745`). -/
def assertSubscribe (c : Checks) (s : Portal) (user : User) (topic : Topic) (body : SubscribeBody) :
    Except HttpError Unit := do
  ensure (can user body.applicationId) ⟨403, "request topic access"⟩
  ensure (topic.state = .ready) ⟨409, "topic is not ready"⟩
  let purpose := Routing.utf16Length (trimmed body.purpose).toList
  ensure (3 ≤ purpose && purpose ≤ 500) ⟨400, "purpose: 3–500 characters"⟩
  ensure (["mtls", "oauth"].contains body.authType) ⟨400, "authType: mtls or oauth"⟩
  refuse (c.principalError body.authType (trimmed body.principal))
  ensure (!body.operations.isEmpty && body.operations.all TOPIC_OPERATIONS.contains)
    ⟨400, "operations: one or more of read, write, describe, delete"⟩
  ensure (!s.access.any fun row => row.topicId == topic.id &&
      row.applicationId == body.applicationId && row.principal == trimmed body.principal &&
      row.state.live && body.operations.contains row.operation)
    ⟨409, "this principal is already requested or granted"⟩
  ensure (s.applications.contains body.applicationId) ⟨500, "FOREIGN KEY constraint failed"⟩

/-- `POST /api/kafka/topics/:id/subscribe`, from its body (`kafka.ts:720-775`). -/
def subscribe (c : Checks) (s : Portal) (user : User) (topic : Topic) (body : SubscribeBody) :
    Except HttpError Portal := do
  assertSubscribe c s user topic body
  let state := if body.applicationId = topic.applicationId then .activating else .pending
  let ordered := TOPIC_OPERATIONS.filter body.operations.contains
  return { s with
    access := s.access ++ ordered.mapIdx fun i operation =>
      ⟨s.next + i, topic.id, body.applicationId, state, trimmed body.principal, body.authType,
        operation, s.next⟩
    next := s.next + ordered.length }

/-- `DELETE /api/kafka/access/:id` (`kafka.ts:782-815`): a request is cancelled whole. -/
def withdraw (s : Portal) (user : User) (id : Nat) : Except HttpError Portal := do
  let row ← demand (s.access.find? (·.id == id)) ⟨404, "access request not found"⟩
  let topic ← demand (s.topic row.topicId) ⟨404, "access request not found"⟩
  ensure (can user topic.applicationId || can user row.applicationId) ⟨403, "revoke topic access"⟩
  return { s with
    access := s.access.map fun a =>
      if row.state = .pending then
        if a.requestId = row.requestId ∧ a.state = .pending then { a with state := .cancelled } else a
      else if a.id = id ∧ (a.state = .active ∨ a.state = .activating) then
        { a with state := .revoking }
      else a }

/-- What the owner says of a request (`integrations.ts:437-460`). -/
def decide (s : Portal) (requestId : Nat) (approved : Bool) : Portal :=
  { s with
    access := s.access.map fun a =>
      if a.requestId = requestId ∧ a.state = .pending then
        { a with state := if approved then .activating else .rejected }
      else a }

/-- The broker has created a topic (`integrations.ts:145-149`). -/
def created (s : Portal) (id : Nat) : Portal :=
  { s with
    topics := s.topics.map fun row =>
      if row.id = id ∧ row.state = .provisioning then { row with state := .ready } else row }

/-- The broker has granted or revoked access (`integrations.ts:150-159`). -/
def settled (s : Portal) (id : Nat) : Portal :=
  { s with
    access := s.access.map fun a =>
      if a.id = id ∧ a.state = .activating then { a with state := .active }
      else if a.id = id ∧ a.state = .revoking then { a with state := .revoked }
      else a }

/-! ### Steps -/

inductive Event where
  | openPatch (user : User) (id : Nat)
  | resumePatch (index : Nat) (body : PatchBody) (now : Nat)
  | resumeConfigure (index : Nat) (accepted : Bool)
  | resumeWrite (index : Nat)
  | stage (user : User) (id : Nat)
  | delete (user : User) (id : Nat)
  | openSubscribe (user : User) (id : Nat)
  | resumeSubscribe (index : Nat) (body : SubscribeBody)
  | withdraw (user : User) (id : Nat)
  | decide (requestId : Nat) (approved : Bool)
  | created (id : Nat)
  | settled (id : Nat)

def Portal.orSame (s : Portal) : Except HttpError Portal → Portal
  | .ok next => next
  | .error _ => s

def Portal.suspend (s : Portal) : Except HttpError Suspended → Portal
  | .ok handler => { s with suspended := s.suspended ++ [handler] }
  | .error _ => s

def Portal.resumed (s : Portal) (index : Nat) : Portal :=
  { s with suspended := s.suspended.eraseIdx index }

def step (c : Checks) (chain : List String) (s : Portal) : Event → Option Portal
  | .openPatch user id => some (s.suspend (openPatch s user id))
  | .resumePatch index body now =>
    match s.suspended[index]? with
    | some (.patch _ topic) =>
      some ((s.resumed index).orSame (patch c (s.resumed index) topic body now))
    | _ => none
  | .resumeConfigure index accepted =>
    match s.suspended[index]? with
    | some (.configuring topic body next api previous) =>
      some (if accepted then configure (s.resumed index) topic body next api previous
        else s.resumed index)
    | _ => none
  | .resumeWrite index =>
    match s.suspended[index]? with
    | some (.queued topic body next _ _) => some ((s.resumed index).write topic body next)
    | _ => none
  | .stage user id => some (s.orSame (stage chain s user id))
  | .delete user id => some (s.orSame (delete s user id))
  | .openSubscribe user id => some (s.suspend (openSubscribe s user id))
  | .resumeSubscribe index body =>
    match s.suspended[index]? with
    | some (.subscribe user topic) =>
      some ((s.resumed index).orSame (subscribe c (s.resumed index) user topic body))
    | _ => none
  | .withdraw user id => some (s.orSame (withdraw s user id))
  | .decide requestId approved => some (decide s requestId approved)
  | .created id => some (created s id)
  | .settled id => some (settled s id)

end Apim.KafkaTopics
