import Apim.ControlPlane.Database

/-!
# The global policy tier

An environment may attach units to every API in it; an API that has the unit itself keeps its own
value (`control-plane/src/globals.ts`). `effectiveDocument` is the merge the gateway is given and
every write is validated against, `globalUnitChanges` is the question whether a write moves a unit
the environment defines, and `unitState` is what one unit comes to in the end.
-/

namespace Apim.ControlPlane
open Overlay Policy

/-! ### The merge -/

/-- The globals that reach a resource's document (`control-plane/src/globals.ts:46-59`). -/
def inheritedUnits (live : Live) (environment : Environment) : Document :=
  select (fun unit _ => isGloballyAttachable unit) (live.globalPolicy environment)

/-- `resourceUnits` (`control-plane/src/globals.ts:70-77`). -/
def resourceUnits (live : Live) (stage : Stage) : Document := live.policyEntry stage

/-- `effectiveDocument` (`control-plane/src/globals.ts:84-98`), and `policyFor`. -/
def effectiveDocument (live : Live) (stage : Stage) : Document :=
  overlaid (resourceUnits live stage) (inheritedUnits live stage.2)

/-- What one unit of a stage comes to: the value that runs there, `none` when the unit is absent or
switched off. -/
def unitState (live : Live) (stage : Stage) (unit : UnitKey) : Option Json :=
  (activeDocument (effectiveDocument live stage)).lookup unit

def AttachedGlobally (live : Live) (environment : Environment) (unit : UnitKey) : Prop :=
  ((inheritedUnits live environment).lookup unit).isSome

def Inherited (live : Live) (stage : Stage) (unit : UnitKey) : Prop :=
  (resourceUnits live stage).lookup unit = none ∧ AttachedGlobally live stage.2 unit

theorem lookup_effectiveDocument (live : Live) (stage : Stage) (unit : UnitKey) :
    (effectiveDocument live stage).lookup unit =
      ((resourceUnits live stage).lookup unit).or ((inheritedUnits live stage.2).lookup unit) :=
  lookup_over _ _ unit

/-! ### Overriding the tier -/

inductive OverrideHow where
  | changed
  | disabled
  deriving DecidableEq, Repr

structure GlobalOverride where
  unitKey : UnitKey
  how : OverrideHow
  deriving DecidableEq, Repr

/-- `globalUnitState` (`control-plane/src/globals.ts:150-168`): how the unit departs from the
environment, and the pair the source writes as the `signature` text. -/
def globalUnitState (environmentWide document : Document) (unitKey : UnitKey) :
    Option OverrideHow × (Bool × Option Json) :=
  let off := unitKey != DISABLED_KEY && (disabledUnits document).contains unitKey
  let own := document.lookup unitKey
  let value := own.or (environmentWide.lookup unitKey)
  let how :=
    if off then some .disabled
    else if own.isSome && own != environmentWide.lookup unitKey then some .changed
    else none
  (how, (off, value))

/-- `globalUnitChanges` (`control-plane/src/globals.ts:180-193`), in the order of the tier. -/
def globalUnitChanges (environmentWide before after : Document) : List GlobalOverride :=
  environmentWide.keys.filterMap fun unitKey =>
    let was := globalUnitState environmentWide before unitKey
    let now := globalUnitState environmentWide after unitKey
    if was.2 = now.2 then none
    else some ⟨unitKey, (now.1.or was.1).getD .changed⟩

theorem globalUnitChanges_eq_nil_iff (environmentWide before after : Document) :
    globalUnitChanges environmentWide before after = [] ↔
      ∀ unit, (environmentWide.lookup unit).isSome →
        (globalUnitState environmentWide before unit).2 =
          (globalUnitState environmentWide after unit).2 := by
  rw [globalUnitChanges, List.filterMap_eq_nil_iff]
  constructor
  · intro h unit hunit
    have hkey := h unit (AList.mem_keys.mp (AList.lookup_isSome.mp hunit))
    by_contra hne
    simp [hne] at hkey
  · intro h unit hunit
    have hsome := AList.lookup_isSome.mpr (AList.mem_keys.mpr hunit)
    simp [h unit hsome]

theorem signature_eq_iff (environmentWide before after : Document) (unit : UnitKey)
    (hunit : unit ≠ DISABLED_KEY) :
    (globalUnitState environmentWide before unit).2 =
        (globalUnitState environmentWide after unit).2 ↔
      (unit ∈ disabledUnits before ↔ unit ∈ disabledUnits after) ∧
        (before.lookup unit).or (environmentWide.lookup unit) =
          (after.lookup unit).or (environmentWide.lookup unit) := by
  have hoff : ∀ document : Document,
      (unit != DISABLED_KEY && (disabledUnits document).contains unit) =
        decide (unit ∈ disabledUnits document) := by
    intro document
    simp [hunit]
  simp only [globalUnitState, hoff, Prod.mk.injEq, decide_eq_decide]

/-! ### Which APIs a tier reaches -/

/-- `resourcesInEnvironment` (`control-plane/src/globals.ts:214-228`). -/
def resourcesInEnvironment (db : Database) (environment : Environment) : List Resource :=
  db.resources.filter fun r =>
    (db.live.route (r.id, environment)).isSome ||
      !(db.live.policyEntry (r.id, environment)).keys.isEmpty ||
      db.ledger.releases.any fun rel => rel.resourceId == r.id && rel.environment == environment

/-! ### Refusals -/

/-- Why a request is refused: the case of the error and its data, not its sentence. -/
inductive Refusal where
  | notFound
  | notMember
  | adminOnly
  | unknownEnvironment (environment : Environment)
  | globalOverride (environment : Environment) (overrides : List GlobalOverride)
  | globalRemoval (environment : Environment) (units : List UnitKey)
  | platformReference (unit : UnitKey)
  | subscriptionKeyLocked
  | unknownUnit (unit : UnitKey)
  | notAttachable (unit : UnitKey)
  | unknownOperation (operationId : String)
  | invalidUnit (details : List String)
  | invalidDocument (problems : List DocumentError)
  | globalConflict (resource : ResourceId) (problems : List DocumentError)
  | badAddress
  | outsideDomain (basePath : String)
  | noDomain
  | backendRefused (details : List String)
  | backendRequired
  | badCertificate
  | noGateway
  | unknownGateways (names : List String)
  | addressTaken
  | preconditionRequired
  | preconditionFailed
  | generatedApi
  | notPublished
  | pruned (rev : Nat)
  | frozen (rev : Nat)
  | blocked (blockers : List BlockerCode)
  | badRequest (field : String)
  | conflict (what : String)

def require (condition : Bool) (refusal : Refusal) : Except Refusal Unit :=
  if condition then .ok () else .error refusal

theorem require_bind_ok {α : Type} {condition : Bool} {refusal : Refusal}
    {rest : Unit → Except Refusal α} {result : α} :
    require condition refusal >>= rest = .ok result ↔ condition = true ∧ rest () = .ok result := by
  cases condition
  · simp [require, bind, Except.bind]
  · simp [require, bind, Except.bind]

theorem bind_ok {α β : Type} {first : Except Refusal α} {rest : α → Except Refusal β}
    {result : β} : first >>= rest = .ok result ↔ ∃ a, first = .ok a ∧ rest a = .ok result := by
  cases first
  · simp [bind, Except.bind]
  · simp [bind, Except.bind]

def orRefuse {α : Type} (row : Option α) (refusal : Refusal) : Except Refusal α :=
  match row with
  | some a => .ok a
  | none => .error refusal

theorem orRefuse_bind_ok {α β : Type} {row : Option α} {refusal : Refusal}
    {rest : α → Except Refusal β} {result : β} :
    orRefuse row refusal >>= rest = .ok result ↔ ∃ a, row = some a ∧ rest a = .ok result := by
  cases row
  · simp [orRefuse, bind, Except.bind]
  · simp [orRefuse, bind, Except.bind]

theorem require_ok {condition : Bool} {refusal : Refusal} {unit : Unit} :
    require condition refusal = .ok unit ↔ condition = true := by
  cases condition <;> simp [require]

theorem orRefuse_ok {α : Type} {row : Option α} {refusal : Refusal} {a : α} :
    orRefuse row refusal = .ok a ↔ row = some a := by
  cases row <;> simp [orRefuse]

end Apim.ControlPlane
