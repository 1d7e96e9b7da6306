import Apim.ControlPlane.ConfigBuild

/-!
# Writing policy in place

The requests that write `policy_entry` and `global_policy_entry` at once, without an operation: PUT
and DELETE of one unit (`control-plane/src/api/resources.ts:1760-1901`), copy-from between two
environments of one API (`control-plane/src/api/promotion.ts:288-368`), and the three writes of the
global tier (`control-plane/src/api/policy.ts:131-299`). Each handler is a function of the database
that answers a refusal or the database after the write. Its `_ok` lemma says what an accepted write
checked and which rows it left.
-/

namespace Apim.ControlPlane
open Overlay Policy

def Live.setPolicy (live : Live) (stage : Stage) (doc : Document) : Live :=
  { live with policyEntry := Function.update live.policyEntry stage doc }

def Live.setGlobals (live : Live) (environment : Environment) (doc : Document) : Live :=
  { live with globalPolicy := Function.update live.globalPolicy environment doc }

@[simp] theorem Live.setPolicy_policyEntry (live : Live) (stage : Stage) (doc : Document) :
    (live.setPolicy stage doc).policyEntry stage = doc := Function.update_self _ _ _

theorem Live.setPolicy_other (live : Live) {stage other : Stage} (doc : Document)
    (h : other ≠ stage) : (live.setPolicy stage doc).policyEntry other = live.policyEntry other :=
  Function.update_of_ne h _ _

@[simp] theorem Live.setPolicy_globalPolicy (live : Live) (stage : Stage) (doc : Document) :
    (live.setPolicy stage doc).globalPolicy = live.globalPolicy := rfl

@[simp] theorem Live.setPolicy_inheritedUnits (live : Live) (stage : Stage) (doc : Document)
    (environment : Environment) :
    inheritedUnits (live.setPolicy stage doc) environment = inheritedUnits live environment := rfl

@[simp] theorem Live.setGlobals_globalPolicy (live : Live) (environment : Environment)
    (doc : Document) : (live.setGlobals environment doc).globalPolicy environment = doc :=
  Function.update_self _ _ _

/-! ### One unit of one API -/

/-- The operation ids of the latest revision, when it lists any (`api/resources.ts:123-135`). -/
def operationIdsOf (app : App) (db : Database) (id : ResourceId) : Option (List String) :=
  (latestRevision db.ledger id).bind fun revision =>
    revision.index.bind app.platform.operationIds

def operationDeclared (app : App) (db : Database) (id : ResourceId) (unitKey : UnitKey) : Bool :=
  match parseOperationUnitKey unitKey with
  | none => true
  | some (operationId, _) =>
    match operationIdsOf app db id with
    | none => true
    | some known => known.contains operationId

/-- PUT of a unit (`api/resources.ts:1760-1842`). -/
def putUnit (app : App) (db : Database) (user : User) (id : ResourceId) (environment : Environment)
    (unitKey : UnitKey) (value : Json) : Except Refusal Database := do
  let resource ← orRefuse (resourceOf db id) .notFound
  require (can user resource.applicationId) .notMember
  require (app.config.promotionChain.contains environment) (.unknownEnvironment environment)
  require ((parseOperationUnitKey unitKey).isSome || unitKey == DISABLED_KEY ||
    POLICY_UNITS.contains unitKey) (.unknownUnit unitKey)
  let details := app.platform.validateUnit unitKey value
  require details.isEmpty (.invalidUnit details)
  require (operationDeclared app db id unitKey) (.unknownOperation unitKey)
  let stage := (id, environment)
  let before := effectiveDocument db.live stage
  let assembled := before.insert unitKey value
  let moved := globalUnitChanges (inheritedUnits db.live environment) before assembled
  require (user.isAdmin || moved.isEmpty) (.globalOverride environment moved)
  let problems := validateDocument app.platform.validateUnit resource.kind assembled
  require problems.isEmpty (.invalidDocument problems)
  return { db with
    live := db.live.setPolicy stage ((resourceUnits db.live stage).insert unitKey value) }

/-- DELETE of a unit (`api/resources.ts:1843-1883`). -/
def deleteUnit (app : App) (db : Database) (user : User) (id : ResourceId)
    (environment : Environment) (unitKey : UnitKey) : Except Refusal Database := do
  let resource ← orRefuse (resourceOf db id) .notFound
  require (can user resource.applicationId) .notMember
  require (app.config.promotionChain.contains environment) (.unknownEnvironment environment)
  let stage := (id, environment)
  let before := effectiveDocument db.live stage
  let remaining := before.erase unitKey
  let moved := globalUnitChanges (inheritedUnits db.live environment) before remaining
  require (user.isAdmin || moved.isEmpty) (.globalOverride environment moved)
  let problems := validateDocument app.platform.validateUnit resource.kind remaining
  require problems.isEmpty (.invalidDocument problems)
  return { db with
    live := db.live.setPolicy stage ((resourceUnits db.live stage).erase unitKey) }

structure Accepted (app : App) (db : Database) (user : User) (stage : Stage)
    (before after : Document) : Prop where
  moved : user.isAdmin = true ∨
    globalUnitChanges (inheritedUnits db.live stage.2) before after = []
  valid : ∃ resource, resourceOf db stage.1 = some resource ∧
    Valid app.platform.validateUnit resource.kind after

variable {app : App} {db db' : Database} {user : User} {environment : Environment}
  {unitKey : UnitKey}

theorem putUnit_ok {id : ResourceId} {value : Json}
    (h : putUnit app db user id environment unitKey value = .ok db') :
    Accepted app db user (id, environment) (effectiveDocument db.live (id, environment))
        ((effectiveDocument db.live (id, environment)).insert unitKey value) ∧
      db' = { db with
        live := db.live.setPolicy (id, environment)
          ((resourceUnits db.live (id, environment)).insert unitKey value) } := by
  simp only [putUnit, orRefuse_bind_ok, require_bind_ok, Bool.or_eq_true, List.isEmpty_iff] at h
  obtain ⟨resource, hresource, -, -, -, -, -, hmoved, hvalid, hdb⟩ := h
  exact ⟨⟨hmoved, resource, hresource, hvalid⟩, (Except.ok.inj hdb).symm⟩

theorem deleteUnit_ok {id : ResourceId}
    (h : deleteUnit app db user id environment unitKey = .ok db') :
    Accepted app db user (id, environment) (effectiveDocument db.live (id, environment))
        ((effectiveDocument db.live (id, environment)).erase unitKey) ∧
      db' = { db with
        live := db.live.setPolicy (id, environment)
          ((resourceUnits db.live (id, environment)).erase unitKey) } := by
  simp only [deleteUnit, orRefuse_bind_ok, require_bind_ok, Bool.or_eq_true, List.isEmpty_iff] at h
  obtain ⟨resource, hresource, -, -, hmoved, hvalid, hdb⟩ := h
  exact ⟨⟨hmoved, resource, hresource, hvalid⟩, (Except.ok.inj hdb).symm⟩

/-! ### From another environment of the same API -/

def copyUnit (source : Document) (doc : Document) (unit : UnitKey) : Document :=
  match source.lookup unit with
  | none => doc.erase unit
  | some value => doc.insert unit value

/-- copy-from (`api/promotion.ts:288-368`). The per-unit check inside its transaction repeats a part
of `validateDocument` and never fires. -/
def copyFrom (app : App) (db : Database) (user : User) (id : ResourceId)
    (fromEnvironment environment : Environment) (units : List UnitKey) :
    Except Refusal Database := do
  let resource ← orRefuse (resourceOf db id) .notFound
  require (can user resource.applicationId) .notMember
  require (app.config.promotionChain.contains fromEnvironment) (.unknownEnvironment fromEnvironment)
  require (app.config.promotionChain.contains environment) (.unknownEnvironment environment)
  require (fromEnvironment != environment) (.badRequest "fromEnvironment")
  require (!units.isEmpty) (.badRequest "units")
  require (units.all POLICY_UNITS.contains) (.badRequest "units")
  let stage := (id, environment)
  let source := effectiveDocument db.live (id, fromEnvironment)
  let before := effectiveDocument db.live stage
  let after := units.foldl (copyUnit source) before
  let moved := globalUnitChanges (inheritedUnits db.live environment) before after
  require (user.isAdmin || moved.isEmpty) (.globalOverride environment moved)
  let problems := validateDocument app.platform.validateUnit resource.kind after
  require problems.isEmpty (.invalidDocument problems)
  return { db with
    live := db.live.setPolicy stage (units.foldl (copyUnit source) (resourceUnits db.live stage)) }

theorem copyFrom_ok {id : ResourceId} {fromEnvironment : Environment} {units : List UnitKey}
    (h : copyFrom app db user id fromEnvironment environment units = .ok db') :
    (∀ unit ∈ units, unit ∈ POLICY_UNITS) ∧
      Accepted app db user (id, environment) (effectiveDocument db.live (id, environment))
        (units.foldl (copyUnit (effectiveDocument db.live (id, fromEnvironment)))
          (effectiveDocument db.live (id, environment))) ∧
      db' = { db with
        live := db.live.setPolicy (id, environment)
          (units.foldl (copyUnit (effectiveDocument db.live (id, fromEnvironment)))
            (resourceUnits db.live (id, environment))) } := by
  simp only [copyFrom, orRefuse_bind_ok, require_bind_ok, Bool.or_eq_true, List.isEmpty_iff] at h
  obtain ⟨resource, hresource, -, -, -, -, -, hunits, hmoved, hvalid, hdb⟩ := h
  refine ⟨fun unit hunit => ?_, ⟨hmoved, resource, hresource, hvalid⟩, (Except.ok.inj hdb).symm⟩
  simpa using List.all_eq_true.mp hunits unit hunit

theorem lookup_foldl_copyUnit (source : Document) (units : List UnitKey) (doc : Document)
    (unit : UnitKey) :
    (units.foldl (copyUnit source) doc).lookup unit =
      if unit ∈ units then source.lookup unit else doc.lookup unit := by
  induction units generalizing doc with
  | nil => rfl
  | cons first units ih =>
    rw [List.foldl_cons, ih]
    have hfirst : (copyUnit source doc first).lookup unit =
        if unit = first then source.lookup unit else doc.lookup unit := by
      rw [copyUnit]
      by_cases heq : unit = first
      · subst heq
        cases hs : source.lookup unit <;> simp
      · cases hs : source.lookup first
        · simp [heq, AList.lookup_erase_ne heq]
        · simp [heq, AList.lookup_insert_ne heq]
    by_cases hin : unit ∈ units
    · simp [hin]
    · rw [if_neg hin, hfirst]
      simp [hin]

/-! ### The global tier -/

/-- `conflictsFor` (`api/policy.ts:75-97`): the APIs these globals would leave invalid. -/
def conflictsFor (app : App) (db : Database) (environment : Environment) (globals : Document) :
    List (ResourceId × List DocumentError) :=
  (resourcesInEnvironment db environment).filterMap fun resource =>
    let merged := overlaid (resourceUnits db.live (resource.id, environment))
      (select (fun unit _ => isGloballyAttachable unit) globals)
    let problems := validateDocument app.platform.validateUnit resource.kind merged
    if problems.isEmpty then none else some (resource.id, problems)

def writeGlobals (app : App) (db : Database) (environment : Environment) (globals : Document) :
    Except Refusal Database :=
  match conflictsFor app db environment globals with
  | [] => .ok { db with live := db.live.setGlobals environment globals }
  | (id, problems) :: _ => .error (.globalConflict id problems)

theorem writeGlobals_ok {globals : Document} (h : writeGlobals app db environment globals = .ok db') :
    conflictsFor app db environment globals = [] ∧
      db' = { db with live := db.live.setGlobals environment globals } := by
  rw [writeGlobals] at h
  split at h
  next hnone => exact ⟨hnone, (Except.ok.inj h).symm⟩
  next => cases h

/-- PUT of a global unit (`api/policy.ts:131-191`). -/
def putGlobalUnit (app : App) (db : Database) (user : User) (environment : Environment)
    (unitKey : UnitKey) (value : Json) : Except Refusal Database := do
  require user.isAdmin .adminOnly
  require (app.config.promotionChain.contains environment) (.unknownEnvironment environment)
  require (isGloballyAttachable unitKey) (.notAttachable unitKey)
  let details := app.platform.validateUnit unitKey value
  require details.isEmpty (.invalidUnit details)
  require (!app.platform.namesPlatformRef value) (.platformReference unitKey)
  writeGlobals app db environment ((db.live.globalPolicy environment).insert unitKey value)

/-- DELETE of a global unit (`api/policy.ts:193-226`). -/
def deleteGlobalUnit (app : App) (db : Database) (user : User) (environment : Environment)
    (unitKey : UnitKey) : Except Refusal Database := do
  require user.isAdmin .adminOnly
  require (app.config.promotionChain.contains environment) (.unknownEnvironment environment)
  writeGlobals app db environment ((db.live.globalPolicy environment).erase unitKey)

/-- copy-from of a whole tier, applied rather than tried (`api/policy.ts:233-299`): units only the
destination has stay. -/
def copyGlobals (app : App) (db : Database) (user : User)
    (fromEnvironment environment : Environment) : Except Refusal Database := do
  require user.isAdmin .adminOnly
  require (app.config.promotionChain.contains environment) (.unknownEnvironment environment)
  require (app.config.promotionChain.contains fromEnvironment) (.unknownEnvironment fromEnvironment)
  require (fromEnvironment != environment) (.badRequest "from")
  writeGlobals app db environment
    (overlaid (db.live.globalPolicy fromEnvironment) (db.live.globalPolicy environment))

def GlobalWrite (app : App) (db : Database) (user : User) (environment : Environment)
    (globals : Document) (db' : Database) : Prop :=
  user.isAdmin = true ∧ conflictsFor app db environment globals = [] ∧
    db' = { db with live := db.live.setGlobals environment globals }

theorem putGlobalUnit_ok {value : Json}
    (h : putGlobalUnit app db user environment unitKey value = .ok db') :
    app.platform.validateUnit unitKey value = [] ∧
      GlobalWrite app db user environment ((db.live.globalPolicy environment).insert unitKey value)
        db' := by
  simp only [putGlobalUnit, require_bind_ok, List.isEmpty_iff] at h
  obtain ⟨hadmin, -, -, hunit, -, hwrite⟩ := h
  exact ⟨hunit, hadmin, writeGlobals_ok hwrite⟩

theorem deleteGlobalUnit_ok (h : deleteGlobalUnit app db user environment unitKey = .ok db') :
    GlobalWrite app db user environment ((db.live.globalPolicy environment).erase unitKey) db' := by
  simp only [deleteGlobalUnit, require_bind_ok] at h
  obtain ⟨hadmin, -, hwrite⟩ := h
  exact ⟨hadmin, writeGlobals_ok hwrite⟩

theorem copyGlobals_ok {fromEnvironment : Environment}
    (h : copyGlobals app db user fromEnvironment environment = .ok db') :
    GlobalWrite app db user environment
      (overlaid (db.live.globalPolicy fromEnvironment) (db.live.globalPolicy environment)) db' := by
  simp only [copyGlobals, require_bind_ok] at h
  obtain ⟨hadmin, -, -, -, hwrite⟩ := h
  exact ⟨hadmin, writeGlobals_ok hwrite⟩

end Apim.ControlPlane
