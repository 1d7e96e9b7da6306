import Apim.ControlPlane.Ledger
import Apim.ControlPlane.PolicyWrites

/-!
# Writing revisions

A definition becomes a revision (`writeRevision`, `control-plane/src/api/resources.ts:495-600`), a
draft is corrected in place (`api/resources.ts:1390-1500`), and a new version of an API starts from
its latest revision (`api/resources.ts:1119-1260`). A `Definition` is what `revisionSource` has
fetched and normalised; its text is never empty, so a revision written from one has its content.
-/

namespace Apim.ControlPlane
open Overlay Policy

/-- A definition as `revisionSource` returns it, with what `compileAndStore` makes of it. -/
structure Definition where
  model : String
  original : String
  versionDigest : String
  artifactDigest : String
  index : String
  model_ne : model ≠ ""

def Revision.HasContent (r : Revision) : Prop := r.prunedAt = none ∧ r.model ≠ ""

/-- `touch` (`api/common.ts:87-89`). -/
def touch (db : Database) (id : ResourceId) : Database :=
  { db with resources := db.resources.map fun r =>
      if r.id = id then { r with updatedAt := db.clock } else r }

def Definition.row (d : Definition) (resourceId : ResourceId) (rev : Nat) (at_ : Nat)
    (id : RevisionId) : Revision :=
  { id := id
    resourceId := resourceId
    rev := rev
    model := d.model
    original := d.original
    versionDigest := d.versionDigest
    artifactDigest := d.artifactDigest
    index := some d.index
    frozenAt := none
    prunedAt := none
    createdAt := at_ }

/-- `writeRevision` (`api/resources.ts:495-600`): the same definition twice is not a new revision.
The second component is the revision it answers with. -/
def writeRevision (db : Database) (id : ResourceId) (definition : Definition) :
    Database × RevisionId :=
  let latest := latestRevision db.ledger id
  match latest.filter fun r => r.versionDigest == definition.versionDigest with
  | some same => (db, same.id)
  | none =>
    let rev := (latest.map (·.rev)).getD 0 + 1
    let ledger := (db.ledger.storeArtifact definition.artifactDigest).addRevision
      (definition.row id rev db.clock)
    (touch { db with ledger := ledger } id, db.ledger.next)

theorem writeRevision_cases (db : Database) (id : ResourceId) (definition : Definition) :
    (∃ same, latestRevision db.ledger id = some same ∧
        same.versionDigest = definition.versionDigest ∧
        writeRevision db id definition = (db, same.id)) ∨
      ∃ rev, writeRevision db id definition =
        (touch { db with
            ledger := (db.ledger.storeArtifact definition.artifactDigest).addRevision
              (definition.row id rev db.clock) } id, db.ledger.next) := by
  unfold writeRevision
  dsimp only
  split
  next same hsame =>
    obtain ⟨hlatest, hdigest⟩ := Option.filter_eq_some_iff.mp hsame
    exact .inl ⟨same, hlatest, beq_iff_eq.mp hdigest, rfl⟩
  next => exact .inr ⟨_, rfl⟩

/-- POST of a definition to an API (`api/resources.ts`, `revision.create`). -/
def createRevision (db : Database) (user : User) (id : ResourceId) (definition : Definition) :
    Except Refusal (Database × RevisionId) := do
  let resource ← orRefuse (resourceOf db id) .notFound
  require (can user resource.applicationId) .notMember
  return writeRevision db id definition

theorem createRevision_ok {db : Database} {user : User} {id : ResourceId} {definition : Definition}
    {written : Database × RevisionId} (h : createRevision db user id definition = .ok written) :
    (resourceOf db id).isSome ∧ written = writeRevision db id definition := by
  simp only [createRevision, bind_ok, orRefuse_ok, require_ok] at h
  obtain ⟨resource, hresource, -, -, hwritten⟩ := h
  exact ⟨by rw [hresource]; rfl, (Except.ok.inj hwritten).symm⟩

/-- What a correction writes into the row (`api/resources.ts:1455-1472`). -/
def corrected (definition : Definition) (r : Revision) : Revision :=
  { r with
    model := definition.model
    original := definition.original
    versionDigest := definition.versionDigest
    artifactDigest := definition.artifactDigest
    index := some definition.index }

/-- The guarded `UPDATE` of a correction: a draft that is still the one that was read. -/
def Ledger.correct (l : Ledger) (id : RevisionId) (readDigest : String) (definition : Definition) :
    Ledger :=
  { l with revisions := l.revisions.map fun r =>
      if r.id = id ∧ r.frozenAt = none ∧ r.prunedAt = none ∧ r.versionDigest = readDigest then
        corrected definition r
      else r }

/-- PUT of a revision's definition (`api/resources.ts:1390-1500`): `readDigest` is the digest the
row had when the request was read, and the write states all three of its conditions again. -/
def correctRevision (db : Database) (user : User) (id : RevisionId) (readDigest : String)
    (definition : Definition) : Except Refusal Database := do
  let revision ← orRefuse (revisionOf db.ledger id) .notFound
  let resource ← orRefuse (resourceOf db revision.resourceId) .notFound
  require (can user resource.applicationId) .notMember
  require revision.prunedAt.isNone (.pruned revision.rev)
  require revision.frozenAt.isNone (.frozen revision.rev)
  require (revision.versionDigest == readDigest) (.conflict "corrected by someone else")
  require (definition.versionDigest != readDigest) (.conflict "unchanged")
  return touch { db with
    ledger := (db.ledger.storeArtifact definition.artifactDigest).correct id readDigest definition }
      resource.id

theorem correctRevision_ok {db db' : Database} {user : User} {id : RevisionId}
    {readDigest : String} {definition : Definition}
    (h : correctRevision db user id readDigest definition = .ok db') :
    ∃ resource, db' = touch { db with
      ledger := (db.ledger.storeArtifact definition.artifactDigest).correct id readDigest
        definition } resource := by
  simp only [correctRevision, bind_ok, orRefuse_ok, require_ok] at h
  obtain ⟨-, -, resource, -, -, -, -, -, -, -, -, -, -, -, hdb⟩ := h
  exact ⟨resource.id, (Except.ok.inj hdb).symm⟩

/-- The base path a new version is proposed under (`api/resources.ts:1110-1118`). -/
def versionBasePath (app : App) (resource : Resource) (apiVersion : String) : String :=
  match resource.domain with
  | some domain =>
    app.platform.publishedPath domain resource.subdomain resource.name apiVersion
  | none => "/" ++ resource.name ++ "/" ++ apiVersion

def proposeRoutes (app : App) (db : Database) (source target : ResourceId) (basePath : String) :
    Stage → Option Route :=
  fun stage =>
    if stage.1 = target ∧ app.config.promotionChain.contains stage.2 then
      match db.live.route (source, stage.2) with
      | some route =>
        if db.resources.any fun r =>
            db.live.route (r.id, stage.2) == some ⟨route.host, basePath⟩ then none
        else some ⟨route.host, basePath⟩
      | none => none
    else db.live.route stage

def versionLive (app : App) (db : Database) (resource : Resource) (newId : ResourceId)
    (apiVersion : String) (copyPolicyFrom : Option Environment) (createRoutes : Bool) : Live :=
  let live := match copyPolicyFrom with
    | some environment =>
      db.live.setPolicy (newId, environment) (resourceUnits db.live (resource.id, environment))
    | none => db.live
  if createRoutes then
    { live with
      route := proposeRoutes app db resource.id newId (versionBasePath app resource apiVersion) }
  else live

def versionRevision (source : Revision) (newId : ResourceId) (at_ : Nat) (id : RevisionId) :
    Revision :=
  { source with
    id := id, resourceId := newId, rev := 1, frozenAt := none, prunedAt := none, createdAt := at_ }

/-- POST of a new version (`api/resources.ts:1119-1260`): the latest revision is copied as it
stands. -/
def createVersion (app : App) (db : Database) (user : User) (id : ResourceId) (apiVersion : String)
    (copyPolicyFrom : Option Environment) (createRoutes : Bool) : Except Refusal Database := do
  let resource ← orRefuse (resourceOf db id) .notFound
  require (can user resource.applicationId) .notMember
  require (apiVersion != resource.apiVersion) (.conflict "apiVersion")
  let source ← orRefuse (latestRevision db.ledger id) (.conflict "this API has no revision yet")
  require (copyPolicyFrom.all app.config.promotionChain.contains) (.badRequest "copyPolicyFrom")
  require (!db.resources.any fun r =>
    r.applicationId == resource.applicationId && r.name == resource.name &&
      r.apiVersion == apiVersion) (.conflict "apiVersion")
  let newId := db.ledger.next
  return { db with
    resources := db.resources ++ [{ resource with
      id := newId, apiVersion := apiVersion, lifecycle := "active", visibility := "listed",
      sunsetAt := none, kafkaTopic := none, updatedAt := db.clock }]
    ledger := { db.ledger with next := newId + 1 }.addRevision
      (versionRevision source newId db.clock)
    live := versionLive app db resource newId apiVersion copyPolicyFrom createRoutes }

theorem createVersion_ok {app : App} {db db' : Database} {user : User} {id : ResourceId}
    {apiVersion : String} {copyPolicyFrom : Option Environment} {createRoutes : Bool}
    (h : createVersion app db user id apiVersion copyPolicyFrom createRoutes = .ok db') :
    ∃ resource source, resourceOf db id = some resource ∧
      latestRevision db.ledger id = some source ∧
      db'.ledger = { db.ledger with next := db.ledger.next + 1 }.addRevision
        (versionRevision source db.ledger.next db.clock) ∧
      db'.live =
        versionLive app db resource db.ledger.next apiVersion copyPolicyFrom createRoutes ∧
      db'.clock = db.clock ∧ db'.estate = db.estate := by
  simp only [createVersion, bind_ok, orRefuse_ok, require_ok] at h
  obtain ⟨resource, hresource, -, -, -, -, source, hsource, -, -, -, -, hdb⟩ := h
  obtain rfl := Except.ok.inj hdb
  exact ⟨resource, source, hresource, hsource, rfl, rfl, rfl, rfl⟩

end Apim.ControlPlane
