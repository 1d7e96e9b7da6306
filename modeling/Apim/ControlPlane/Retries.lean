import Apim.ControlPlane.Settled

/-!
# Requests with one Idempotency-Key

What a publish, a configure or a promote is answered (`control-plane/src/operations.ts:181-263` and
`623-930`). A command looks its key up when it arrives; it waits, for its definition and for the
check of its backend; then it commits. Only the transaction of a publish looks the key up again. A
row with a key that is taken is refused by the column, and no handler expects that.
-/

namespace Apim.Retries
open Apim.ControlPlane Overlay Policy Trace Routing

/-! ### Answers -/

inductive Answer where
  | accepted (id : OperationId)
  | refused (refusal : Refusal)
  | failed

/-- `queue` inserts a row whose key is taken: the UNIQUE column throws (`schema-006.sql:57`). -/
def Answer.of : Refusal → Answer
  | .conflict "Idempotency-Key" => .failed
  | refusal => .refused refusal

theorem Answer.of_ne_accepted (refusal : Refusal) (id : OperationId) :
    Answer.of refusal ≠ .accepted id := by
  unfold Answer.of
  split <;> nofun

/-- A key that `key` accepts (`operations.ts:181-188`). -/
def keyed (body : PublishInput) : Bool :=
  body.generated || (body.idempotencyKey != "" && body.idempotencyKey.length ≤ 160)

/-- `repeated` (`operations.ts:189-201`). -/
def repeated (l : Ledger) (user : User) (body : PublishInput) : Option Answer :=
  (l.operations.find? fun o => o.idempotencyKey == storedKey user body).map fun o =>
    if o.input.requestDigest == body.requestDigest then .accepted o.id
    else .refused (.conflict "Idempotency-Key was already used for a different command")

inductive Outcome (κ : Type) where
  | answered (answer : Answer) (db : Database)
  | waits (command : κ)

def Outcome.of {κ : Type} (db : Database) : Except Refusal κ → Outcome κ
  | .ok command => .waits command
  | .error refusal => .answered (.of refusal) db

/-! ### Stages of a command -/

inductive Command where
  | publishing (user : User) (body : PublishInput) (environment : Environment)
  | started (request : Request)

/-- What `publishResource` checks before it waits (`operations.ts:629-667`). -/
def publishChecks (app : App) (user : User) (body : PublishInput) (environment : Environment) :
    Except Refusal Taxonomy := do
  require (can user body.applicationId) .notMember
  require (app.config.promotionChain.contains environment) (.unknownEnvironment environment)
  require (nameValid body.name) (.badRequest "name")
  require (versionValid body.apiVersion) (.badRequest "apiVersion")
  readTaxonomy app body ⟨none, none⟩ true

/-- What `publishResource` does while it waits (`operations.ts:668-669`). -/
def publishSettings (app : App) (db : Database) (user : User) (body : PublishInput)
    (environment : Environment) : Except Refusal Settings := do
  require body.source.isSome (.badRequest "spec")
  let taxonomy ← readTaxonomy app body ⟨none, none⟩ true
  settings app db user body body.kind environment taxonomy none ∅

def publishResource (app : App) (db : Database) (user : User) (body : PublishInput)
    (environment : Environment) : Outcome Command :=
  if !keyed body then .answered (.refused (.badRequest "Idempotency-Key")) db
  else match repeated db.ledger user body with
    | some answer => .answered answer db
    | none => .of db ((publishChecks app user body environment).map fun _ =>
        .publishing user body environment)

/-- What `configureResource` and `promoteResource` do before they look the key up. -/
def received (app : App) (db : Database) (user : User) (id : ResourceId) (body : PublishInput) :
    Except Refusal Unit := do
  let resource ← orRefuse (resourceOf db id) .notFound
  require (can user resource.applicationId) .notMember
  let _ ← environmentOf app body
  require (keyed body) (.badRequest "Idempotency-Key")

/-- The beginning of a command on an existing API; `read` is what it reads when its key is new. -/
def beginning (app : App) (db : Database) (user : User) (id : ResourceId) (body : PublishInput)
    (read : Except Refusal Request) : Outcome Command :=
  match received app db user id body with
  | .error refusal => .answered (.of refusal) db
  | .ok _ => match repeated db.ledger user body with
    | some answer => .answered answer db
    | none => .of db (read.map .started)

/-- The beginning of `configureResource` (`operations.ts:773-790`). -/
def configureResource (app : App) (db : Database) (user : User) (id : ResourceId)
    (body : PublishInput) : Outcome Command :=
  beginning app db user id body ((configureRead app db user id body).map (.configure user body))

/-- The beginning of `promoteResource` (`operations.ts:871-908`). -/
def promoteResource (app : App) (db : Database) (user : User) (id : ResourceId)
    (body : PublishInput) : Outcome Command :=
  beginning app db user id body ((promoteRead app db user id body).map (.promote user body))

/-- The transaction of `publishResource` looks the key up again (`operations.ts:670-672`); the
other two do not. -/
def again (l : Ledger) : Request → Option Answer
  | .publish user body _ _ => repeated l user body
  | _ => none

def queuedId (l : Ledger) : OperationId := (l.operations.getLast?.map (·.id)).getD 0

def Command.resume (app : App) (db : Database) : Command → Outcome Command
  | .publishing user body environment =>
    .of db ((publishSettings app db user body environment).map fun config =>
      .started (.publish user body environment config))
  | .started request =>
    match again db.ledger request with
    | some answer => .answered answer db
    | none => match resumeRequest app db request with
      | .error refusal => .answered (.of refusal) db
      | .ok (.inl next) => .waits (.started next)
      | .ok (.inr after) => .answered (.accepted (queuedId after.ledger)) after

def Command.awaits : Command → Bool
  | .started (.publish _ _ _ _) => false
  | .started (.configureSettled _ body _ _) => body.source.isSome
  | .started (.promoteSettled _ _ _ _) => false
  | _ => true

/-! ### Steps -/

structure State where
  system : ControlPlane.State
  waiting : List Command

inductive Event where
  | publish (user : User) (body : PublishInput) (environment : Environment)
  | configure (user : User) (id : ResourceId) (body : PublishInput)
  | promote (user : User) (id : ResourceId) (body : PublishInput)
  | resume (index : Nat)
  | lose (index : Nat) (refusal : Refusal)
  | other (event : ControlPlane.Event)

def State.ledger (s : State) : Ledger := s.system.db.ledger

/-- What a request is told, and what it leaves; `none` when there is no such request. -/
def State.outcome (app : App) (s : State) : Event → Option (Outcome Command)
  | .publish user body environment => some (publishResource app s.system.db user body environment)
  | .configure user id body => some (configureResource app s.system.db user id body)
  | .promote user id body => some (promoteResource app s.system.db user id body)
  | .resume index => s.waiting[index]?.map (·.resume app s.system.db)
  | .lose index refusal => (s.waiting[index]?.filter (·.awaits)).map fun _ =>
      .answered (.refused refusal) s.system.db
  | .other _ => none

def State.begun (s : State) : Outcome Command → State
  | .answered _ db => { s with system := { s.system with db := db } }
  | .waits command => { s with waiting := s.waiting ++ [command] }

def State.resumed (s : State) (index : Nat) : Outcome Command → State
  | .answered _ db =>
    { system := { s.system with db := db }, waiting := s.waiting.eraseIdx index }
  | .waits command => { s with waiting := s.waiting.set index command }

def isBackground : ControlPlane.Event → Bool
  | .publish .. | .configure .. | .promote .. | .resume _ => false
  | _ => true

def State.besides (app : App) (s : State) (event : ControlPlane.Event) : Option State :=
  if isBackground event then
    (ControlPlane.step app s.system event).map fun system =>
      { system := system
        waiting := match event with
          | .crash => []
          | _ => s.waiting }
  else none

def step (app : App) (s : State) : Event → Option State
  | .publish user body environment =>
    (s.outcome app (.publish user body environment)).map s.begun
  | .configure user id body => (s.outcome app (.configure user id body)).map s.begun
  | .promote user id body => (s.outcome app (.promote user id body)).map s.begun
  | .resume index => (s.outcome app (.resume index)).map (s.resumed index)
  | .lose index refusal => (s.outcome app (.lose index refusal)).map (s.resumed index)
  | .other event => s.besides app event

def State.initial : State := ⟨ControlPlane.State.initial, []⟩

def State.answer (app : App) (s : State) (e : Event) : Option Answer :=
  match s.outcome app e with
  | some (.answered answer _) => some answer
  | _ => none

/-! ### Whose request it is -/

def askedBy : Request → User × PublishInput
  | .publish user body _ _ => (user, body)
  | .configure user body _ => (user, body)
  | .configureSettled user body _ _ => (user, body)
  | .promote user body _ => (user, body)
  | .promoteSettled user body _ _ => (user, body)

def Command.asks : Command → User × PublishInput
  | .publishing user body _ => (user, body)
  | .started request => askedBy request

def State.asks (s : State) : Event → Option (User × PublishInput)
  | .publish user body _ => some (user, body)
  | .configure user _ body => some (user, body)
  | .promote user _ body => some (user, body)
  | .resume index | .lose index _ => s.waiting[index]?.map (·.asks)
  | .other _ => none

/-! ### One key, one operation -/

def marks (l : Ledger) : List (OperationId × String × String) :=
  l.operations.map fun o => (o.id, o.idempotencyKey, o.input.requestDigest)

/-- What an accepted request leaves: the operation `o`, at most one revision, and one API touched. -/
structure Accepted (user : User) (body : PublishInput) (o : Operation) (db db' : Database) :
    Prop where
  key : o.idempotencyKey = storedKey user body
  digest : o.input.requestDigest = body.requestDigest
  operations : db'.ledger.operations = db.ledger.operations ++ [o]
  revisions : db'.ledger.revisions.map (·.id) = db.ledger.revisions.map (·.id) ∨
    ∃ id, db'.ledger.revisions.map (·.id) = db.ledger.revisions.map (·.id) ++ [id]
  resources : ∀ r : Resource, r.id ≠ o.resourceId → (r ∈ db'.resources ↔ r ∈ db.resources)

/-- The claim's step: a key belongs to one operation, which stays; a request whose key is taken
changes nothing; one whose key is not taken changes nothing or is accepted, and told so; and a
request whose command has been accepted is told that operation, when it is told anything. -/
structure OneOperation (app : App) (s : State) (e : Event) (s' : State) : Prop where
  unique : (s'.ledger.operations.map (·.idempotencyKey)).Nodup
  kept : marks s.ledger <+: marks s'.ledger
  spent : ∀ user body, s.asks e = some (user, body) → repeatedKey s.ledger user body = true →
    s'.system.db = s.system.db
  once : ∀ user body, s.asks e = some (user, body) → repeatedKey s.ledger user body = false →
    s'.system.db = s.system.db ∨ ∃ o, s.answer app e = some (.accepted o.id) ∧
      Accepted user body o s.system.db s'.system.db
  acknowledged : ∀ user body, s.asks e = some (user, body) → ∀ o ∈ s.ledger.operations,
    o.idempotencyKey = storedKey user body → o.input.requestDigest = body.requestDigest →
      ∀ answer, s.answer app e = some answer → answer = .accepted o.id

def Command.unhindered (app : App) (db : Database) : Command → Bool
  | .publishing user body environment => (publishSettings app db user body environment).isOk
  | .started (.publish _ _ _ _) => true
  | .started (.configure user body read) => (configureSettle app db user body read).isOk
  | .started (.configureSettled _ _ _ _) => false
  | .started (.promote user body read) => (promoteSettle app db user body read).isOk
  | .started (.promoteSettled _ _ _ _) => false

def State.unhindered (app : App) (s : State) : Event → Bool
  | .publish _ body _ => keyed body
  | .configure user id body | .promote user id body => (received app s.system.db user id body).isOk
  | .resume index => match s.waiting[index]? with
    | some command => command.unhindered app s.system.db
    | none => true
  | .lose _ _ => false
  | .other _ => true

/-- No request whose command has been accepted is hindered on its way to the look-up. -/
def Prompt (app : App) (s : State) (e : Event) (_ : State) : Prop :=
  ∀ user body, s.asks e = some (user, body) → ∀ o ∈ s.ledger.operations,
    o.idempotencyKey = storedKey user body → o.input.requestDigest = body.requestDigest →
      s.unhindered app e = true

/-! ### The look-up -/

variable {l : Ledger}

theorem repeated_eq_none_iff {user : User} {body : PublishInput} :
    repeated l user body = none ↔ repeatedKey l user body = false := by
  simp only [repeated, repeatedKey, Option.map_eq_none_iff, List.find?_eq_none, List.any_eq_false]

variable {o : Operation}

theorem repeated_of_accepted {user : User} {body : PublishInput}
    (hunique : (l.operations.map (·.idempotencyKey)).Nodup) (ho : o ∈ l.operations)
    (hkey : o.idempotencyKey = storedKey user body)
    (hdigest : o.input.requestDigest = body.requestDigest) :
    repeated l user body = some (.accepted o.id) := by
  have hfind : l.operations.find? (fun o => o.idempotencyKey == storedKey user body) = some o := by
    have hmatch : (o.idempotencyKey == storedKey user body) = true := beq_iff_eq.mpr hkey
    have hsome : (l.operations.find? fun o =>
        o.idempotencyKey == storedKey user body).isSome = true := by
      rw [List.find?_isSome]
      exact ⟨o, ho, hmatch⟩
    obtain ⟨found, hfound⟩ := Option.isSome_iff_exists.mp hsome
    have hfoundKey : found.idempotencyKey = storedKey user body := by
      simpa using List.find?_some hfound
    have hsame : found = o := List.inj_on_of_nodup_map hunique (List.mem_of_find?_eq_some hfound)
      ho (hfoundKey.trans hkey.symm)
    rw [hfound, hsame]
  simp only [repeated, hfind, Option.map_some, hdigest, beq_self_eq_true, if_true]

theorem repeatedKey_of_mem {user : User} {body : PublishInput} (ho : o ∈ l.operations)
    (hkey : o.idempotencyKey = storedKey user body) : repeatedKey l user body = true := by
  have hmatch : (o.idempotencyKey == storedKey user body) = true := beq_iff_eq.mpr hkey
  rw [repeatedKey, List.any_eq_true]
  exact ⟨o, ho, hmatch⟩

/-! ### What a commit leaves -/

def OthersKept (id : ResourceId) (rows rows' : List Resource) : Prop :=
  ∀ r : Resource, r.id ≠ id → (r ∈ rows' ↔ r ∈ rows)

theorem OthersKept.trans {id : ResourceId} {rows rows' rows'' : List Resource}
    (h : OthersKept id rows rows') (h' : OthersKept id rows' rows'') : OthersKept id rows rows'' :=
  fun r hr => (h' r hr).trans (h r hr)

theorem othersKept_map {id : ResourceId} {f : Resource → Resource} (rows : List Resource)
    (hid : ∀ r, (f r).id = r.id) (hother : ∀ r, r.id ≠ id → f r = r) :
    OthersKept id rows (rows.map f) := by
  intro r hr
  rw [List.mem_map]
  constructor
  · rintro ⟨was, hwas, rfl⟩
    rw [hid] at hr
    rw [hother was hr]
    exact hwas
  · intro hmem
    exact ⟨r, hmem, hother r hr⟩

theorem othersKept_append (rows : List Resource) (row : Resource) :
    OthersKept row.id rows (rows ++ [row]) := by
  intro r hr
  rw [List.mem_append, List.mem_singleton, or_iff_left]
  rintro rfl
  exact hr rfl

structure Prepared (id : ResourceId) (db db' : Database) : Prop where
  operations : db'.ledger.operations = db.ledger.operations
  revisions : db'.ledger.revisions.map (·.id) = db.ledger.revisions.map (·.id) ∨
    ∃ rev, db'.ledger.revisions.map (·.id) = db.ledger.revisions.map (·.id) ++ [rev]
  resources : OthersKept id db.resources db'.resources

theorem prepared_writeRevision (db : Database) (id : ResourceId) (definition : Definition) :
    Prepared id db (writeRevision db id definition).1 := by
  rcases writeRevision_cases db id definition with ⟨same, -, -, h⟩ | ⟨rev, h⟩
  · rw [h]
    exact ⟨rfl, .inl rfl, fun _ _ => Iff.rfl⟩
  · rw [h]
    have hartifact : ∀ digest, (db.ledger.storeArtifact digest).operations = db.ledger.operations ∧
        (db.ledger.storeArtifact digest).revisions = db.ledger.revisions := by
      intro digest
      unfold Ledger.storeArtifact
      split <;> exact ⟨rfl, rfl⟩
    refine ⟨(hartifact definition.artifactDigest).1, .inr ⟨db.ledger.next, ?_⟩, ?_⟩
    · simp only [touch, Ledger.addRevision, (hartifact definition.artifactDigest).2, List.map_append,
        List.map_cons, List.map_nil]
      unfold Ledger.storeArtifact
      split <;> rfl
    · refine othersKept_map db.resources (fun r => ?_) fun r hr => if_neg hr
      split <;> rfl

theorem prepared_configureRevision (db : Database) (id : ResourceId) (body : PublishInput)
    (previous : Snapshot) : Prepared id db (configureRevision db id body previous).1 := by
  unfold configureRevision
  cases body.source with
  | some definition => exact prepared_writeRevision db id definition
  | none => exact ⟨rfl, .inl rfl, fun _ _ => Iff.rfl⟩

variable {after : Database}

theorem accepted_of_queue (db : Database) {before : Database} {user : User} {body : PublishInput}
    {applicationId : String} {stage : Stage} {kind : OperationKind} {snapshot : Snapshot}
    (h : queue before user body applicationId stage kind snapshot = .ok after)
    (hdigest : snapshot.requestDigest = body.requestDigest) (hprepared : Prepared stage.1 db before) :
    repeatedKey db.ledger user body = false ∧
      ∃ o, queuedId after.ledger = o.id ∧ Accepted user body o db after := by
  obtain ⟨hfresh, rfl⟩ := queue_ok h
  have hsame : repeatedKey db.ledger user body = repeatedKey before.ledger user body := by
    rw [repeatedKey, repeatedKey, hprepared.operations]
  refine ⟨hsame.trans hfresh, body.operation user applicationId stage kind snapshot
    before.ledger.next, ?_, rfl, hdigest, ?_, ?_, hprepared.resources⟩
  · simp [queuedId, Ledger.freeze, Ledger.addOperation]
  · rw [← hprepared.operations]
    rfl
  · have hids : (((before.ledger.addOperation (body.operation user applicationId stage kind
        snapshot)).freeze snapshot.revisionId before.clock).revisions.map (·.id)) =
          before.ledger.revisions.map (·.id) := freeze_ids _ _ _
    rw [hids]
    exact hprepared.revisions

variable {request : Request}

theorem accepted_of_commit {app : App} {db : Database}
    (h : resumeRequest app db request = .ok (.inr after)) :
    repeatedKey db.ledger (askedBy request).1 (askedBy request).2 = false ∧
      ∃ o, queuedId after.ledger = o.id ∧
        Accepted (askedBy request).1 (askedBy request).2 o db after := by
  rcases resumeRequest_committed h with ⟨user, body, environment, config, rfl, hcommit⟩ |
    ⟨user, body, read, config, rfl, hcommit⟩ | ⟨user, body, read, config, rfl, hcommit⟩
  · obtain ⟨definition, taxonomy, -, -, hqueue⟩ := publishCommit_ok hcommit
    have hwritten := prepared_writeRevision { db with
      resources := db.resources ++ [body.resourceRow taxonomy db.clock db.ledger.next]
      ledger := { db.ledger with next := db.ledger.next + 1 } } db.ledger.next definition
    refine accepted_of_queue db hqueue rfl ⟨hwritten.operations, hwritten.revisions, ?_⟩
    have hrow := othersKept_append db.resources (body.resourceRow taxonomy db.clock db.ledger.next)
    exact hrow.trans hwritten.resources
  · obtain ⟨taxonomy, -, -, hqueue⟩ := configureCommit_ok hcommit
    have hwritten := prepared_configureRevision db read.resource.id body read.previous
    refine accepted_of_queue db hqueue rfl ⟨hwritten.operations, hwritten.revisions, ?_⟩
    refine hwritten.resources.trans (othersKept_map _ (fun r => ?_) fun r hr => if_neg hr)
    split <;> rfl
  · obtain ⟨-, hqueue⟩ := promoteCommit_ok hcommit
    exact accepted_of_queue db hqueue rfl ⟨rfl, .inl rfl, fun _ _ => Iff.rfl⟩

/-! ### What a request is told -/

def Outcome.left {κ : Type} (db : Database) : Outcome κ → Database
  | .answered _ after => after
  | .waits _ => db

def Outcome.Tells {κ : Type} (id : OperationId) : Outcome κ → Prop
  | .answered answer _ => answer = .accepted id
  | .waits _ => True

def Outcome.Fair {κ : Type} (app : App) (user : User) (body : PublishInput) (db : Database)
    (outcome : Outcome κ) : Prop :=
  outcome.left db = db ∨ ∃ request after, askedBy request = (user, body) ∧
    resumeRequest app db request = .ok (.inr after) ∧
      outcome = .answered (.accepted (queuedId after.ledger)) after

theorem left_of {κ : Type} (db : Database) (result : Except Refusal κ) :
    (Outcome.of db result).left db = db := by
  cases result with
  | error refusal => rfl
  | ok command => rfl

variable {id : OperationId}

theorem tells_of_iff {κ : Type} {db : Database} {result : Except Refusal κ} :
    (Outcome.of db result).Tells id ↔ result.isOk = true := by
  cases result with
  | error refusal => exact iff_of_false (Answer.of_ne_accepted refusal id) nofun
  | ok command => exact iff_of_true trivial rfl

theorem isOk_map {α β : Type} (result : Except Refusal α) (f : α → β) :
    (result.map f).isOk = result.isOk := by
  cases result with
  | error refusal => rfl
  | ok a => rfl

section
variable {app : App} {db : Database} {user : User} {body : PublishInput}

theorem publishResource_fair {environment : Environment} :
    (publishResource app db user body environment).Fair app user body db := by
  left
  unfold publishResource
  split
  · rfl
  · split
    · rfl
    · exact left_of db _

theorem beginning_fair {id : ResourceId} {read : Except Refusal Request} :
    (beginning app db user id body read).Fair app user body db := by
  left
  unfold beginning
  split
  · rfl
  · split
    · rfl
    · exact left_of db _

theorem resume_fair (command : Command) :
    (command.resume app db).Fair app command.asks.1 command.asks.2 db := by
  cases command with
  | publishing user body environment => exact .inl (left_of db _)
  | started request =>
    cases hagain : again db.ledger request with
    | some answer =>
      left
      simp only [Command.resume, hagain, Outcome.left]
    | none =>
      cases hresume : resumeRequest app db request with
      | error refusal =>
        left
        simp only [Command.resume, hagain, hresume, Outcome.left]
      | ok result =>
        cases result with
        | inl next =>
          left
          simp only [Command.resume, hagain, hresume, Outcome.left]
        | inr after =>
          refine .inr ⟨request, after, rfl, hresume, ?_⟩
          simp only [Command.resume, hagain, hresume]

theorem publishResource_tells_iff {environment : Environment}
    (h : repeated db.ledger user body = some (.accepted id)) :
    (publishResource app db user body environment).Tells id ↔ keyed body = true := by
  unfold publishResource
  cases hkeyed : keyed body with
  | false => exact iff_of_false nofun nofun
  | true =>
    rw [h]
    exact iff_of_true rfl rfl

theorem beginning_tells_iff {resource : ResourceId} {read : Except Refusal Request}
    (h : repeated db.ledger user body = some (.accepted id)) :
    (beginning app db user resource body read).Tells id ↔
      (received app db user resource body).isOk = true := by
  unfold beginning
  cases hreceived : received app db user resource body with
  | error refusal => exact iff_of_false (Answer.of_ne_accepted refusal id) nofun
  | ok passed =>
    rw [h]
    exact iff_of_true rfl rfl

theorem resume_refused (hagain : again db.ledger request = none)
    (hspent : repeatedKey db.ledger (askedBy request).1 (askedBy request).2 = true)
    (hlast : ∀ next, resumeRequest app db request ≠ .ok (.inl next)) :
    ¬((Command.started request).resume app db).Tells id := by
  cases hresume : resumeRequest app db request with
  | error refusal =>
    simp only [Command.resume, hagain, hresume, Outcome.Tells]
    exact Answer.of_ne_accepted refusal id
  | ok result =>
    cases result with
    | inl next => exact absurd hresume (hlast next)
    | inr after =>
      have hfresh := (accepted_of_commit hresume).1
      rw [hspent] at hfresh
      cases hfresh

theorem resume_settles {result : Except Refusal Settings} {next : Settings → Request}
    (hagain : again db.ledger request = none)
    (hresume : resumeRequest app db request = result.map fun config => .inl (next config)) :
    ((Command.started request).resume app db).Tells id ↔ result.isOk = true := by
  cases result with
  | error refusal =>
    simp only [Command.resume, hagain, hresume, Except.map, Outcome.Tells]
    exact iff_of_false (Answer.of_ne_accepted refusal id) nofun
  | ok config =>
    simp only [Command.resume, hagain, hresume, Except.map, Outcome.Tells]
    exact iff_of_true trivial rfl

theorem resume_tells_iff {command : Command}
    (h : repeated db.ledger command.asks.1 command.asks.2 = some (.accepted id)) :
    (command.resume app db).Tells id ↔ command.unhindered app db = true := by
  have hspent : repeatedKey db.ledger command.asks.1 command.asks.2 = true := by
    by_contra hfresh
    rw [repeated_eq_none_iff.mpr (Bool.eq_false_iff.mpr hfresh)] at h
    cases h
  cases command with
  | publishing user body environment =>
    simp only [Command.resume, Command.unhindered, tells_of_iff, isOk_map]
  | started request =>
    cases request with
    | publish user body environment config =>
      have hagain : again db.ledger (.publish user body environment config) =
          some (.accepted id) := h
      simp only [Command.resume, hagain, Outcome.Tells, Command.unhindered]
    | configure user body read => exact resume_settles rfl rfl
    | promote user body read => exact resume_settles rfl rfl
    | configureSettled user body read config =>
      refine iff_of_false (resume_refused rfl hspent fun next hnext => ?_) nofun
      obtain ⟨after, -, hafter⟩ := map_eq_ok hnext
      cases hafter
    | promoteSettled user body read config =>
      refine iff_of_false (resume_refused rfl hspent fun next hnext => ?_) nofun
      obtain ⟨after, -, hafter⟩ := map_eq_ok hnext
      cases hafter

end

/-! ### Steps -/

variable {s : State} {e : Event}

theorem step_eq_some {app : App} {s' : State} (h : step app s e = some s') :
    (∃ event, e = .other event ∧ s.besides app event = some s') ∨
      ∃ outcome, s.outcome app e = some outcome ∧
        s'.system = { s.system with db := outcome.left s.system.db } := by
  have hbegun : ∀ outcome : Outcome Command,
      (s.begun outcome).system = { s.system with db := outcome.left s.system.db } := by
    intro outcome
    cases outcome <;> rfl
  have hresumed : ∀ (index : Nat) (outcome : Outcome Command),
      (s.resumed index outcome).system = { s.system with db := outcome.left s.system.db } := by
    intro index outcome
    cases outcome <;> rfl
  cases e with
  | other event => exact .inl ⟨event, rfl, h⟩
  | publish | configure | promote =>
    simp only [step, Option.map_eq_some_iff] at h
    obtain ⟨outcome, houtcome, rfl⟩ := h
    exact .inr ⟨outcome, houtcome, hbegun outcome⟩
  | resume index | lose index =>
    simp only [step, Option.map_eq_some_iff] at h
    obtain ⟨outcome, houtcome, rfl⟩ := h
    exact .inr ⟨outcome, houtcome, hresumed index outcome⟩

variable {outcome : Outcome Command}

theorem outcome_fair {app : App} {user : User} {body : PublishInput}
    (h : s.outcome app e = some outcome) (hasks : s.asks e = some (user, body)) :
    outcome.Fair app user body s.system.db := by
  cases e with
  | publish asker asked environment =>
    cases hasks
    cases h
    exact publishResource_fair
  | configure asker id asked | promote asker id asked =>
    cases hasks
    cases h
    exact beginning_fair
  | resume index =>
    obtain ⟨command, hcommand, rfl⟩ := Option.map_eq_some_iff.mp h
    simp only [State.asks, hcommand, Option.map_some, Option.some.injEq] at hasks
    have hfair : (command.resume app s.system.db).Fair app command.asks.1 command.asks.2
        s.system.db := resume_fair command
    rw [hasks] at hfair
    exact hfair
  | lose index refusal =>
    obtain ⟨command, -, rfl⟩ := Option.map_eq_some_iff.mp h
    exact .inl rfl
  | other event => cases h

theorem outcome_tells_iff {app : App} {user : User} {body : PublishInput}
    (h : s.outcome app e = some outcome) (hasks : s.asks e = some (user, body))
    (hrepeated : repeated s.ledger user body = some (.accepted id)) :
    outcome.Tells id ↔ s.unhindered app e = true := by
  cases e with
  | publish asker asked environment =>
    cases hasks
    cases h
    exact publishResource_tells_iff hrepeated
  | configure asker resource asked | promote asker resource asked =>
    cases hasks
    cases h
    exact beginning_tells_iff hrepeated
  | resume index =>
    obtain ⟨command, hcommand, rfl⟩ := Option.map_eq_some_iff.mp h
    simp only [State.asks, hcommand, Option.map_some, Option.some.injEq] at hasks
    simp only [State.unhindered, hcommand]
    refine resume_tells_iff ?_
    rw [hasks]
    exact hrepeated
  | lose index refusal =>
    obtain ⟨command, -, rfl⟩ := Option.map_eq_some_iff.mp h
    exact iff_of_false nofun nofun
  | other event => cases h

/-! ### What else the control plane does -/

theorem marks_update (l : Ledger) (id : OperationId) {f : Operation → Operation}
    (hf : ∀ o, (f o).id = o.id ∧ (f o).idempotencyKey = o.idempotencyKey ∧ (f o).input = o.input) :
    marks (l.updateOperation id f) = marks l := by
  simp only [marks, Ledger.updateOperation, List.map_map]
  refine List.map_congr_left fun o _ => ?_
  obtain ⟨hid, hkey, hinput⟩ := hf o
  by_cases hrow : o.id = id
  · simp only [Function.comp_apply, hrow, if_true, hkey, hinput]
    rw [hid, hrow]
  · simp only [Function.comp_apply, hrow, if_false]

theorem move_marks {l' : Ledger} {m : Move} (h : l.move m = some l')
    (hm : ∀ row, m ≠ .addOperation row) : marks l' = marks l := by
  cases m with
  | addOperation row => exact absurd rfl (hm row)
  | retry id at_ =>
    simp only [Ledger.move, Option.ite_none_right_eq_some, Option.some.injEq] at h
    obtain ⟨-, rfl⟩ := h
    exact marks_update l id fun _ => ⟨rfl, rfl, rfl⟩
  | publish id revision at_ =>
    obtain ⟨o, -, -, -, -, rfl⟩ := move_publish h
    exact marks_update (l.publish o revision at_) id fun _ => ⟨rfl, rfl, rfl⟩
  | complete environment =>
    obtain rfl := Option.some.inj h
    simp only [marks, Ledger.completeOperations, List.map_map]
    refine List.map_congr_left fun o _ => ?_
    simp only [Function.comp_apply]
    split <;> rfl
  | storeArtifact digest =>
    obtain rfl := Option.some.inj h
    unfold Ledger.storeArtifact
    split <;> rfl
  | enqueueJob work key at_ =>
    simp only [Ledger.move, Option.ite_none_right_eq_some, Option.some.injEq] at h
    obtain ⟨-, rfl⟩ := h
    unfold Ledger.enqueueJob
    split <;> rfl
  | prune options at_ =>
    obtain rfl := Option.some.inj h
    unfold Ledger.pruneOldRows Ledger.pruneRevisions
    split <;> rfl
  | freeze | remove | addPlan | deleteResource =>
    obtain rfl := Option.some.inj h
    rfl
  | number | addRevision | correct | addRelease | dismiss | converge | updateJobs =>
    simp only [Ledger.move, Option.ite_none_right_eq_some, Option.some.injEq] at h
    obtain ⟨-, rfl⟩ := h
    rfl

theorem moves_marks {l' : Ledger} {ms : List Move} (h : moves l ms = some l')
    (hms : ∀ row, .addOperation row ∉ ms) : marks l' = marks l := by
  induction ms generalizing l with
  | nil =>
    obtain rfl := Option.some.inj h
    rfl
  | cons m ms ih =>
    obtain ⟨mid, hmid, hrest⟩ := exec_cons_eq_some h
    have hfirst := move_marks hmid fun row hrow => hms row (hrow ▸ List.mem_cons_self)
    exact (ih hrest fun row hrow => hms row (List.mem_cons_of_mem _ hrow)).trans hfirst

theorem besides_kept {app : App} {s' : State} {event : ControlPlane.Event} (hs : s.system.Sound)
    (h : s.besides app event = some s') : s'.system.Sound ∧ marks s'.ledger = marks s.ledger := by
  simp only [State.besides, Option.ite_none_right_eq_some] at h
  obtain ⟨hbackground, h⟩ := h
  obtain ⟨system, hsystem, rfl⟩ := Option.map_eq_some_iff.mp h
  obtain ⟨ms, hwork, hmoves⟩ := step_moves hs hsystem
  refine ⟨step_sound hs hsystem, moves_marks hmoves fun row hrow => ?_⟩
  -- an operation is queued by a command only
  obtain ⟨index, -, -, rfl, -⟩ := hwork.queued hrow
  cases hbackground

/-! ### Runs -/

structure Kept (s : State) : Prop where
  sound : s.system.Sound
  unique : (s.ledger.operations.map (·.idempotencyKey)).Nodup

theorem initial_kept : Kept State.initial := ⟨State.initial_sound, List.nodup_nil⟩

theorem keys_of_marks (l : Ledger) :
    l.operations.map (·.idempotencyKey) = (marks l).map (·.2.1) := by
  rw [marks, List.map_map]
  rfl

theorem sound_of_commit {app : App} {s : ControlPlane.State} (hs : s.Sound)
    (h : resumeRequest app s.db request = .ok (.inr after)) : { s with db := after }.Sound := by
  have hheld : { s with requests := [request] }.Sound :=
    ⟨hs.ledger, hs.stamped, hs.targets, hs.numbered, hs.placed⟩
  have hstep : ControlPlane.step app { s with requests := [request] } (.resume 0) =
      some { s with db := after, requests := [] } := by
    simp only [ControlPlane.step, List.getElem?_cons_zero, h, List.eraseIdx_cons_zero]
  have hsound := step_sound hheld hstep
  exact ⟨hsound.ledger, hsound.stamped, hsound.targets, hsound.numbered, hsound.placed⟩

theorem asks_of_outcome {app : App} (h : s.outcome app e = some outcome) :
    ∃ user body, s.asks e = some (user, body) := by
  cases e with
  | publish user body environment => exact ⟨user, body, rfl⟩
  | configure user id body | promote user id body => exact ⟨user, body, rfl⟩
  | resume index =>
    obtain ⟨command, hcommand, -⟩ := Option.map_eq_some_iff.mp h
    exact ⟨command.asks.1, command.asks.2, by simp only [State.asks, hcommand, Option.map_some]⟩
  | lose index refusal =>
    obtain ⟨command, hcommand, -⟩ := Option.map_eq_some_iff.mp h
    obtain ⟨hcommand, -⟩ := Option.filter_eq_some_iff.mp hcommand
    exact ⟨command.asks.1, command.asks.2, by simp only [State.asks, hcommand, Option.map_some]⟩
  | other event => cases h

theorem accepted_marks {user : User} {body : PublishInput} {db : Database}
    (h : Accepted user body o db after) :
    marks after.ledger = marks db.ledger ++ [(o.id, o.idempotencyKey, o.input.requestDigest)] := by
  rw [marks, h.operations, List.map_append]
  rfl

theorem accepted_unique {user : User} {body : PublishInput} {db : Database}
    (hunique : (db.ledger.operations.map (·.idempotencyKey)).Nodup)
    (hfresh : repeatedKey db.ledger user body = false) (h : Accepted user body o db after) :
    (after.ledger.operations.map (·.idempotencyKey)).Nodup := by
  rw [h.operations, List.map_append]
  refine List.nodup_append.mpr ⟨hunique, List.nodup_singleton _, ?_⟩
  intro key hkey key' hkey' hsame
  obtain ⟨taken, htaken, rfl⟩ := List.mem_map.mp hkey
  have howned : taken.idempotencyKey = storedKey user body :=
    (hsame.trans (List.mem_singleton.mp hkey')).trans h.key
  have hrepeated := repeatedKey_of_mem htaken howned
  rw [hfresh] at hrepeated
  cases hrepeated

theorem step_kept {app : App} {s' : State} (hs : Kept s) (h : step app s e = some s') :
    Kept s' ∧ marks s.ledger <+: marks s'.ledger ∧
      ∀ user body, s.asks e = some (user, body) → s'.system.db = s.system.db ∨
        repeatedKey s.ledger user body = false ∧
          ∃ o, s.answer app e = some (.accepted o.id) ∧
            Accepted user body o s.system.db s'.system.db := by
  rcases step_eq_some h with ⟨event, rfl, hbesides⟩ | ⟨outcome, houtcome, hsystem⟩
  · obtain ⟨hsound, hmarks⟩ := besides_kept hs.sound hbesides
    refine ⟨⟨hsound, ?_⟩, ?_, ?_⟩
    · rw [keys_of_marks, hmarks, ← keys_of_marks]
      exact hs.unique
    · rw [hmarks]
    · intro user body hasks
      cases hasks
  · obtain ⟨user, body, hasks⟩ := asks_of_outcome houtcome
    have hdb : s'.system.db = outcome.left s.system.db := congrArg (·.db) hsystem
    rcases outcome_fair houtcome hasks with hleft | ⟨request, after, hasked, hcommit, rfl⟩
    · have hsame : s'.system = s.system := by rw [hsystem, hleft]
      have hledger : s'.ledger = s.ledger := congrArg (·.db.ledger) hsame
      refine ⟨⟨?_, ?_⟩, ?_, ?_⟩
      · rw [hsame]
        exact hs.sound
      · rw [hledger]
        exact hs.unique
      · rw [hledger]
      · intro asker asked _
        exact .inl (congrArg (·.db) hsame)
    · obtain ⟨hfresh, o, hid, haccepted⟩ := accepted_of_commit hcommit
      rw [hasked] at hfresh haccepted
      have hafter : s'.system.db = after := hdb
      have hmarks := accepted_marks haccepted
      have hkeys := accepted_unique hs.unique hfresh haccepted
      refine ⟨⟨?_, ?_⟩, ?_, ?_⟩
      · have hsound := sound_of_commit hs.sound hcommit
        rw [hsystem]
        exact hsound
      · rw [State.ledger, hafter]
        exact hkeys
      · rw [State.ledger, State.ledger, hafter, hmarks]
        exact List.prefix_append _ _
      · intro asker asked hasks'
        have hsame : (user, body) = (asker, asked) := Option.some.inj (hasks.symm.trans hasks')
        cases hsame
        refine .inr ⟨hfresh, o, ?_, hafter ▸ haccepted⟩
        simp only [State.answer, houtcome, hid]

theorem repeatedKey_of_prefix {l' : Ledger} {user : User} {body : PublishInput}
    (hmarks : marks l <+: marks l') (h : repeatedKey l user body = true) :
    repeatedKey l' user body = true := by
  rw [repeatedKey, List.any_eq_true] at h
  obtain ⟨o, ho, hkey⟩ := h
  have hmem : (o.id, o.idempotencyKey, o.input.requestDigest) ∈ marks l' :=
    hmarks.subset (List.mem_map_of_mem ho)
  obtain ⟨kept, hkept, hsame⟩ := List.mem_map.mp hmem
  refine repeatedKey_of_mem hkept ?_
  have hkeys : kept.idempotencyKey = o.idempotencyKey := congrArg (·.2.1) hsame
  rw [hkeys]
  exact beq_iff_eq.mp hkey

/-- Of the requests with one key, one changes the database: what `Accepted` says, and once. -/
def ChangesOnce (app : App) (events : List Event) : Prop :=
  ∀ front e₁ middle e₂ back, events = front ++ e₁ :: (middle ++ e₂ :: back) →
    ∀ s₁ s₂ s₃ s₄, exec (step app) State.initial front = some s₁ → step app s₁ e₁ = some s₂ →
      exec (step app) s₂ middle = some s₃ → step app s₃ e₂ = some s₄ →
        ∀ user body again, s₁.asks e₁ = some (user, body) → s₃.asks e₂ = some (user, again) →
          again.idempotencyKey = body.idempotencyKey → s₂.system.db ≠ s₁.system.db →
            s₄.system.db = s₃.system.db

theorem changesOnce (app : App) (events : List Event) : ChangesOnce app events := by
  intro front e₁ middle e₂ back _ s₁ s₂ s₃ s₄ hfront hfirst hmiddle hsecond user body again hasks
    hasks' hkey hchanged
  have hI : ∀ s e next, Kept s → step app s e = some next → Kept next :=
    fun s e next hs h => (step_kept hs h).1
  have h₁ : Kept s₁ := exec_invariant hI initial_kept hfront
  obtain ⟨h₂, -, hfair⟩ := step_kept h₁ hfirst
  obtain ⟨h₃, hmarks⟩ : Kept s₃ ∧ marks s₂.ledger <+: marks s₃.ledger := by
    refine exec_invariant (I := fun s => Kept s ∧ marks s₂.ledger <+: marks s.ledger) ?_
      ⟨h₂, List.prefix_rfl⟩ hmiddle
    intro s e next hs h
    obtain ⟨hnext, hgrown, -⟩ := step_kept hs.1 h
    exact ⟨hnext, hs.2.trans hgrown⟩
  have htaken : repeatedKey s₂.ledger user body = true := by
    rcases hfair user body hasks with hsame | ⟨-, o, -, haccepted⟩
    · exact absurd hsame hchanged
    · refine repeatedKey_of_mem (o := o) ?_ haccepted.key
      have hoperations : s₂.ledger.operations = s₁.ledger.operations ++ [o] := haccepted.operations
      rw [hoperations]
      exact List.mem_append_right _ (List.mem_singleton_self o)
  have hstill : repeatedKey s₃.ledger user again = true := by
    have hsame : storedKey user again = storedKey user body := by rw [storedKey, storedKey, hkey]
    rw [repeatedKey, hsame]
    exact repeatedKey_of_prefix hmarks htaken
  rcases (step_kept h₃ hsecond).2.2 user again hasks' with hsame | ⟨hfresh, -⟩
  · exact hsame
  · rw [hstill] at hfresh
    cases hfresh

theorem oneOperation_step_iff {app : App} {s' : State} (hs : Kept s) (h : step app s e = some s') :
    OneOperation app s e s' ↔ Prompt app s e s' := by
  obtain ⟨hs', hmarks, hfair⟩ := step_kept hs h
  have htells : ∀ user body, s.asks e = some (user, body) → ∀ o ∈ s.ledger.operations,
      o.idempotencyKey = storedKey user body → o.input.requestDigest = body.requestDigest →
        ((∀ answer, s.answer app e = some answer → answer = .accepted o.id) ↔
          s.unhindered app e = true) := by
    intro user body hasks o ho hkey hdigest
    have hrepeated := repeated_of_accepted hs.unique ho hkey hdigest
    rcases step_eq_some h with ⟨event, rfl, -⟩ | ⟨outcome, houtcome, -⟩
    · cases hasks
    · rw [← outcome_tells_iff houtcome hasks hrepeated]
      simp only [State.answer, houtcome]
      cases outcome with
      | answered answer after =>
        constructor
        · intro hall
          exact hall answer rfl
        · intro htold answer' hanswer
          rw [← Option.some.inj hanswer]
          exact htold
      | waits command => exact iff_of_true nofun trivial
  constructor
  · intro hone user body hasks o ho hkey hdigest
    exact (htells user body hasks o ho hkey hdigest).mp
      (hone.acknowledged user body hasks o ho hkey hdigest)
  · intro hprompt
    refine ⟨hs'.unique, hmarks, ?_, ?_, ?_⟩
    · intro user body hasks hspent
      rcases hfair user body hasks with hsame | ⟨hfresh, -⟩
      · exact hsame
      · rw [hspent] at hfresh
        cases hfresh
    · intro user body hasks _
      exact (hfair user body hasks).imp_right (·.2)
    · intro user body hasks o ho hkey hdigest
      exact (htells user body hasks o ho hkey hdigest).mpr
        (hprompt user body hasks o ho hkey hdigest)

/-- In every run: of the requests with one key at most one changes anything, whatever the
interleaving; and every one that is answered after its command was accepted is told the operation,
exactly where no such request is hindered. -/
theorem one_operation_iff_prompt (app : App) (events : List Event) :
    ChangesOnce app events ∧ EveryStep (step app) (OneOperation app) State.initial events ↔
      EveryStep (step app) (Prompt app) State.initial events := by
  rw [and_iff_right (changesOnce app events)]
  exact everyStep_congr_of_invariant (fun s e next hs h => (step_kept hs h).1)
    (fun s e next hs h => oneOperation_step_iff hs h) initial_kept events

def State.failsRetry (app : App) (s : State) (index : Nat) : Bool :=
  match s.waiting[index]?, s.answer app (.resume index) with
  | some command, some .failed => s.ledger.operations.any fun o =>
      o.idempotencyKey == storedKey command.asks.1 command.asks.2 &&
        o.input.requestDigest == command.asks.2.requestDigest
  | _, _ => false

theorem not_oneOperation_of_failsRetry {app : App} {s' : State} {index : Nat}
    (h : s.failsRetry app index = true) : ¬OneOperation app s (.resume index) s' := by
  intro hone
  unfold State.failsRetry at h
  split at h
  next command hcommand hanswer =>
    rw [List.any_eq_true] at h
    obtain ⟨o, ho, hsame⟩ := h
    rw [Bool.and_eq_true, beq_iff_eq, beq_iff_eq] at hsame
    have hasks : s.asks (.resume index) = some (command.asks.1, command.asks.2) := by
      simp only [State.asks, hcommand, Option.map_some]
    have htold := hone.acknowledged command.asks.1 command.asks.2 hasks o ho hsame.1 hsame.2
      .failed hanswer
    cases htold
  next => cases h

/-- Two requests to change an API, sent with one key while neither has looked further than it: the
first is accepted. -/
def retriedConfigure : List Event :=
  [.other (.administer twoGateways), .publish developer publishPets "dev", .resume 0, .resume 0,
    .configure developer 3 (configurePets "dev" "edit"),
    .configure developer 3 (configurePets "dev" "edit"), .resume 0, .resume 1, .resume 0]

theorem retry_fails : ¬(ChangesOnce twoStages (retriedConfigure ++ [.resume 0]) ∧
    EveryStep (step twoStages) (OneOperation twoStages) State.initial
      (retriedConfigure ++ [.resume 0])) := by
  intro h
  refine not_everyStep_of_observed (fun s₁ _ => s₁.failsRetry twoStages 0) ?_ ?_ h.2
  · intro s₁ s₂ hfails
    exact not_oneOperation_of_failsRetry hfails
  · decide +kernel

end Apim.Retries
