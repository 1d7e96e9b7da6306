import Apim.ControlPlane.ConfigBuild

/-!
# Has the fleet taken the configuration

`fleetApplied` (`control-plane/src/operations.ts:1151-1184`) decides when an operation is complete:
every instance that still counts must have acknowledged the digest of its gateway's document. The
document an instance is handed is built by the poll handler with the instance's own gateway
(`control-plane/src/api/gateway.ts:155-163`), while `fleetApplied` builds the document of an
environment with a single gateway for the environment as a whole. This module says exactly when the
two agree.
-/

namespace Apim.ControlPlane
open GatewaySettings

/-! ### The two readings -/

def pollDocument (app : App) (db : Database) (environment : Environment) (targetId : TargetId) :
    GatewayConfig :=
  buildConfig app db environment (some targetId)

/-- The digest `fleetApplied` holds an instance of the gateway to: of the environment's document
when there is one gateway, of the gateway's own otherwise. -/
def expectedDigest (app : App) (db : Database) (environment : Environment) (targetId : TargetId) :
    String :=
  if (gatewaysIn db environment).length = 1 then (buildConfig app db environment none).digest
  else (buildConfig app db environment (some targetId)).digest

def countedInstances (app : App) (db : Database) (environment : Environment) :
    List GatewayInstance :=
  let abandonedBefore := db.clock - app.config.instanceAbandonedAfterSec * 1000
  db.estate.instances.filter fun i =>
    i.revokedAt.isNone && (gatewaysIn db environment).any (fun t => t.id == i.targetId) &&
      i.lastSeenAt.all fun seen => abandonedBefore ≤ seen

def DocumentsBuild (app : App) (db : Database) (environment : Environment) : Prop :=
  (buildConfig app db environment none).body.errors = [] ∧
    ∀ t ∈ gatewaysIn db environment, (pollDocument app db environment t.id).body.errors = []

/-- `fleetApplied` (`operations.ts:1151-1184`). -/
def fleetApplied (app : App) (db : Database) (environment : Environment) : Bool :=
  if !(buildConfig app db environment none).body.errors.isEmpty then false
  else
    let counted := countedInstances app db environment
    !counted.isEmpty && counted.all fun i =>
      i.configDigest == some (expectedDigest app db environment i.targetId) && i.lastSeenAt.isSome

/-- Every instance that counts has been seen and runs the document it is handed. -/
def FleetRunsWhatItIsHanded (app : App) (db : Database) (environment : Environment) : Prop :=
  DocumentsBuild app db environment ∧ countedInstances app db environment ≠ [] ∧
    ∀ i ∈ countedInstances app db environment, i.lastSeenAt.isSome ∧
      i.configDigest = some (pollDocument app db environment i.targetId).digest

theorem documentsBuild_iff (app : App) (db : Database) (environment : Environment) :
    DocumentsBuild app db environment ↔
      (buildConfig app db environment none).body.errors = [] := by
  refine ⟨And.left, fun h => ⟨h, fun t _ => ?_⟩⟩
  exact errors_eq_nil_of_environment h t.id

theorem fleetApplied_iff (app : App) (db : Database) (environment : Environment) :
    fleetApplied app db environment = true ↔
      DocumentsBuild app db environment ∧ countedInstances app db environment ≠ [] ∧
        ∀ i ∈ countedInstances app db environment, i.lastSeenAt.isSome ∧
          i.configDigest = some (expectedDigest app db environment i.targetId) := by
  rw [documentsBuild_iff, fleetApplied]
  by_cases herrors : (buildConfig app db environment none).body.errors = []
  · simp [herrors, and_comm]
  · simp [herrors]

/-! ### When they agree -/

def AllRun (app : App) (db : Database) (environment : Environment) (digest : String) : Prop :=
  ∀ i ∈ countedInstances app db environment, i.lastSeenAt.isSome ∧ i.configDigest = some digest

/-- The environment's only gateway is handed a document of another digest than the environment's,
and the fleet is settled on one of the two: here the two readings differ. -/
def SingleGatewayGap (app : App) (db : Database) (environment : Environment) : Prop :=
  ∃ t, gatewaysIn db environment = [t] ∧
    (buildConfig app db environment none).digest ≠ (pollDocument app db environment t.id).digest ∧
    DocumentsBuild app db environment ∧ countedInstances app db environment ≠ [] ∧
    (AllRun app db environment (buildConfig app db environment none).digest ∨
      AllRun app db environment (pollDocument app db environment t.id).digest)

variable {db : Database} {environment : Environment}

theorem targetId_of_counted {app : App} {t : Target} (ht : gatewaysIn db environment = [t])
    {i : GatewayInstance} (hi : i ∈ countedInstances app db environment) : i.targetId = t.id := by
  simp only [countedInstances, List.mem_filter, ht, List.any_cons, List.any_nil, Bool.or_false,
    Bool.and_eq_true, beq_iff_eq] at hi
  exact hi.2.1.2.symm

theorem fleetApplied_iff_of_single {app : App} {t : Target} (ht : gatewaysIn db environment = [t]) :
    fleetApplied app db environment = true ↔
      DocumentsBuild app db environment ∧ countedInstances app db environment ≠ [] ∧
        AllRun app db environment (buildConfig app db environment none).digest := by
  rw [fleetApplied_iff]
  simp only [expectedDigest, ht, List.length_singleton, if_true, AllRun]

theorem fleetRuns_iff_of_single {app : App} {t : Target} (ht : gatewaysIn db environment = [t]) :
    FleetRunsWhatItIsHanded app db environment ↔
      DocumentsBuild app db environment ∧ countedInstances app db environment ≠ [] ∧
        AllRun app db environment (pollDocument app db environment t.id).digest := by
  refine and_congr_right fun _ => and_congr_right fun _ => forall₂_congr fun i hi => ?_
  rw [targetId_of_counted ht hi]

theorem fleetApplied_iff_of_several {app : App} (h : (gatewaysIn db environment).length ≠ 1) :
    fleetApplied app db environment = true ↔ FleetRunsWhatItIsHanded app db environment := by
  rw [fleetApplied_iff, FleetRunsWhatItIsHanded]
  simp only [expectedDigest, if_neg h, pollDocument]

/-- `fleetApplied` says that the fleet runs what it is handed, except in the gap of an environment
with a single gateway. -/
theorem fleetApplied_agrees_iff (app : App) (db : Database) (environment : Environment) :
    (fleetApplied app db environment = true ↔ FleetRunsWhatItIsHanded app db environment) ↔
      ¬ SingleGatewayGap app db environment := by
  by_cases hone : (gatewaysIn db environment).length = 1
  · obtain ⟨t, ht⟩ := List.length_eq_one_iff.mp hone
    rw [fleetApplied_iff_of_single ht, fleetRuns_iff_of_single ht]
    constructor
    · rintro hagree ⟨t', ht', hne, hbuild, hcounted, hall⟩
      obtain rfl : t = t' := by simpa [ht] using ht'
      -- an instance that counts runs one digest, so agreement would make the two digests equal
      obtain ⟨i, hi⟩ := List.exists_mem_of_ne_nil _ hcounted
      have hsame : ∀ d d', AllRun app db environment d → AllRun app db environment d' → d = d' :=
        fun d d' h h' => Option.some.inj ((h i hi).2.symm.trans (h' i hi).2)
      rcases hall with hall | hall
      · exact hne (hsame _ _ hall (hagree.mp ⟨hbuild, hcounted, hall⟩).2.2)
      · exact hne (hsame _ _ (hagree.mpr ⟨hbuild, hcounted, hall⟩).2.2 hall)
    · intro hgap
      by_cases heq : (buildConfig app db environment none).digest =
          (pollDocument app db environment t.id).digest
      · rw [heq]
      · constructor
        · rintro ⟨hbuild, hcounted, hall⟩
          exact absurd ⟨t, ht, heq, hbuild, hcounted, .inl hall⟩ hgap
        · rintro ⟨hbuild, hcounted, hall⟩
          exact absurd ⟨t, ht, heq, hbuild, hcounted, .inr hall⟩ hgap
  · refine ⟨fun _ => ?_, fun _ => fleetApplied_iff_of_several hone⟩
    rintro ⟨t, ht, -⟩
    exact hone (by rw [ht]; rfl)

/-! ### The gap, run -/

/-- One gateway with a concurrency ceiling of its own, and one replica that runs what the poll
handler hands it. -/
def tunedGateway : Database :=
  { Database.empty with
    clock := 1000
    estate := { Database.empty.estate with
      targets := [⟨1, "dev", "managed", false⟩]
      gatewaySettings := [⟨.gateway 1, .maxConcurrentRequests, .int 10⟩]
      instances := [⟨1, 1, some "sha256:10", some 1000, none⟩] } }

def devOnly : App :=
  ⟨Platform.plain, ⟨["dev"], 300, 20, 365, 24⟩⟩

theorem tunedGateway_never_applied :
    ¬ (fleetApplied devOnly tunedGateway "dev" = true ↔
      FleetRunsWhatItIsHanded devOnly tunedGateway "dev") := by
  have hfalse : fleetApplied devOnly tunedGateway "dev" = false := by decide +kernel
  have hcounted : countedInstances devOnly tunedGateway "dev" =
      [⟨1, 1, some "sha256:10", some 1000, none⟩] := by decide +kernel
  have herrors : (buildConfig devOnly tunedGateway "dev" none).body.errors = [] := by rfl
  have hdigest : (pollDocument devOnly tunedGateway "dev" 1).digest = "sha256:10" := by
    decide +kernel
  rw [hfalse]
  intro hagree
  apply absurd (hagree.mpr ⟨(documentsBuild_iff _ _ _).mpr herrors, ?_, ?_⟩) (by decide)
  · rw [hcounted]
    decide
  · intro i hi
    rw [hcounted, List.mem_singleton] at hi
    subst hi
    exact ⟨rfl, by rw [hdigest]⟩

end Apim.ControlPlane
