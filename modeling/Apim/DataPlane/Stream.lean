import Apim.DataPlane.Gateway

/-!
# The open streams of an instance

`StreamRegistry` (`data-plane/src/stream.ts:61-127`). `admit` compares the streams that are open with two
ceilings and `opened` registers one; nothing is held in between.
-/

namespace Apim.ConfigClient

open Apim.DataPlane

structure SubscriptionId where
  text : String
  nonempty : text ≠ ""
  deriving DecidableEq, Repr

inductive StreamKind where
  | websocket
  | sse
  deriving DecidableEq, Repr

structure StreamHandle where
  id : Nat
  kind : StreamKind
  resourceId : String
  subscriptionId : Option SubscriptionId
  deriving DecidableEq, Repr

structure StreamRegistry where
  streams : List StreamHandle
  nextId : Nat
  maxTotal : Nat
  deriving DecidableEq, Repr

namespace StreamRegistry

def size (registry : StreamRegistry) : Nat := registry.streams.length

def countFor (registry : StreamRegistry) (resourceId : String) : Nat :=
  registry.streams.countP fun stream => stream.resourceId = resourceId

def admission (registry : StreamRegistry) (resourceId : String) (unit : Option PassthroughUnit) :
    StreamAdmission :=
  if registry.maxTotal ≤ registry.size then .instanceFull
  else match unit.bind (·.maxConcurrentConnections) with
    | some routeCeiling => if routeCeiling ≤ registry.countFor resourceId then .routeFull else .ok
    | none => .ok

def opened (registry : StreamRegistry) (kind : StreamKind) (resourceId : String)
    (subscriptionId : Option SubscriptionId) : StreamRegistry :=
  { registry with
    streams := registry.streams ++ [⟨registry.nextId, kind, resourceId, subscriptionId⟩]
    nextId := registry.nextId + 1 }

def close (registry : StreamRegistry) (id : Nat) : StreamRegistry :=
  { registry with streams := registry.streams.filter fun stream => stream.id ≠ id }

def closeRevoked (registry : StreamRegistry) (active : List SubscriptionId) : StreamRegistry :=
  { registry with streams := registry.streams.filter fun stream =>
      stream.subscriptionId.all fun id => id ∈ active }

def closeAll (registry : StreamRegistry) : StreamRegistry := { registry with streams := [] }

def resize (registry : StreamRegistry) (maxTotal : Nat) : StreamRegistry :=
  { registry with maxTotal := maxTotal }

def Within (registry : StreamRegistry) (resourceId : String) (unit : Option PassthroughUnit) : Prop :=
  registry.size ≤ registry.maxTotal ∧
    ∀ ceiling, unit.bind (·.maxConcurrentConnections) = some ceiling →
      registry.countFor resourceId ≤ ceiling

theorem within_opened_iff (registry : StreamRegistry) (kind : StreamKind) (resourceId : String)
    (subscriptionId : Option SubscriptionId) (unit : Option PassthroughUnit) :
    (registry.opened kind resourceId subscriptionId).Within resourceId unit ↔
      registry.admission resourceId unit = .ok := by
  have hsize : (registry.opened kind resourceId subscriptionId).size = registry.size + 1 := by
    simp [opened, size]
  have hcount : (registry.opened kind resourceId subscriptionId).countFor resourceId =
      registry.countFor resourceId + 1 := by
    simp [opened, countFor]
  have hmax : (registry.opened kind resourceId subscriptionId).maxTotal = registry.maxTotal := rfl
  rw [Within, hsize, hcount, hmax, admission]
  by_cases hfull : registry.maxTotal ≤ registry.size
  · simp [hfull, Nat.not_le.mpr (Nat.lt_succ_of_le hfull)]
  · have hroom : registry.size + 1 ≤ registry.maxTotal := by omega
    cases hunit : unit.bind (·.maxConcurrentConnections) with
    | none => simp [hfull, hroom]
    | some ceiling =>
      by_cases hroute : ceiling ≤ registry.countFor resourceId
      · simp [hfull, hroute, Nat.not_le.mpr (Nat.lt_succ_of_le hroute)]
      · simp only [hroom, if_neg hfull, if_neg hroute, true_and]
        simp only [Option.some.injEq, forall_eq', iff_true]
        omega

def Numbered (registry : StreamRegistry) : Prop :=
  ∀ stream ∈ registry.streams, stream.id < registry.nextId

theorem Numbered.sublist {registry registry' : StreamRegistry} (h : registry.Numbered)
    (hsub : registry'.streams.Sublist registry.streams) (hnext : registry'.nextId = registry.nextId) :
    registry'.Numbered := by
  intro stream hstream
  rw [hnext]
  exact h stream (hsub.subset hstream)

theorem Numbered.opened {registry : StreamRegistry} (h : registry.Numbered) (kind : StreamKind)
    (resourceId : String) (subscriptionId : Option SubscriptionId) :
    (registry.opened kind resourceId subscriptionId).Numbered := by
  intro stream hstream
  rcases List.mem_append.mp hstream with hold | hnew
  · exact Nat.lt_succ_of_lt (h stream hold)
  · rw [List.mem_singleton.mp hnew]
    exact Nat.lt_succ_self _

end StreamRegistry

end Apim.ConfigClient
