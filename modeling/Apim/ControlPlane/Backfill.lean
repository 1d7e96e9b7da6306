import Apim.ControlPlane.Artifacts
import Apim.DataPlane.Resolve
import Apim.Lib.Trace

/-!
# Compiling what was not compiled

A revision is compiled when it is written. One that was stored without its bundle is compiled by a job
(`compileMissingArtifacts`, `control-plane/src/artifacts.ts:271-307`), and a compilation that throws
there leaves the revision with the empty digest and the empty index, which say of every other revision
that its definition declares no schemas and no operations. Nothing on the way to a gateway tells the
two apart (`config-build.ts:267-289, 375-448`), and a gateway forwards every request of a route
without operations.

So what is served is checked exactly as long as each revision that is released has been compiled and
its compilation has not thrown, or declares nothing (`served_checked_iff`).
-/

namespace Apim.ControlPlane.Backfill
open Overlay Trace DataPlane Guard

/-! ### Revisions -/

/-- The columns of a revision that this reads. `model` is the text as it reads back, and `served` says
that some environment has its release. Beside them stands whether the job's compilation threw. -/
structure Revision where
  id : Nat
  model : Except String ApiModel
  artifactDigest : Option String
  index : Option (List IndexedOperation)
  frozen : Bool
  pruned : Bool
  served : Bool
  failed : Bool

/-- The operations of the revision's route (`config-build.ts:375-377`). -/
def Revision.operations (r : Revision) : List IndexedOperation := r.index.getD []

/-- `artifactsFor` (`config-build.ts:267-289`). A digest that the table no longer has still travels. -/
def artifactsFor (artifacts : Dict String ArtifactRef) (digest : Option String) (soap : Bool) :
    List ArtifactRef :=
  match digest.filter (· ≠ "") with
  | none => []
  | some digest =>
    match artifacts.lookup digest with
    | some ref => [ref]
    | none => [⟨digest, if soap then .xsdSet else .jsonSchema, 0⟩]

/-- The route that a gateway is handed, of a binding and the revision it is released with. -/
def Revision.route (r : Revision) (artifacts : Dict String ArtifactRef)
    (binding : DataPlane.ConfigRoute) : DataPlane.ConfigRoute :=
  { binding with
    operations := r.operations.map IndexedOperation.operation
    artifact := (artifactsFor artifacts r.artifactDigest (binding.kind = .soap)).head?.map
      (·.digest) }

structure State where
  revisions : List Revision
  artifacts : Dict String ArtifactRef
  next : Nat

def State.initial : State := ⟨[], ∅, 0⟩

inductive Event where
  | deferred (model : Except String ApiModel)
  | create (model : ApiModel) (maxBytes : Nat)
  | correct (id : Nat) (model : ApiModel) (maxBytes : Nat)
  | copy (id : Nat)
  | release (id : Nat)
  | withdraw (id : Nat)
  | prune (id : Nat)
  | backfill (limit maxBytes : Nat) (throws : Nat → Option String)

section
variable (T : Toolkit)

/-- What the job makes of one revision (`control-plane/src/artifacts.ts:287-302`). -/
def compileRevision (artifacts : Dict String ArtifactRef) (maxBytes : Nat)
    (throws : Nat → Option String) (r : Revision) : Dict String ArtifactRef × Revision :=
  let stored : Except String Stored := do
    let model ← r.model
    match throws r.id with
    | some message => .error message
    | none => compileAndStore T artifacts model maxBytes
  match stored with
  | .ok stored =>
    (stored.artifacts,
      { r with
        artifactDigest := some (stored.digest.getD "")
        index := some stored.index
        failed := false })
  | .error _ => (artifacts, { r with artifactDigest := some "", index := some [], failed := true })

def Revision.pending (r : Revision) : Bool := r.artifactDigest.isNone && !r.pruned

/-- `compileMissingArtifacts` over the rows from the oldest on, at most `limit` of them. -/
def compileMissing (maxBytes : Nat) (throws : Nat → Option String) :
    Nat → Dict String ArtifactRef → List Revision → Dict String ArtifactRef × List Revision
  | _, artifacts, [] => (artifacts, [])
  | limit, artifacts, r :: revisions =>
    if 0 < limit ∧ r.pending then
      let compiled := compileRevision T artifacts maxBytes throws r
      let rest := compileMissing maxBytes throws (limit - 1) compiled.1 revisions
      (rest.1, compiled.2 :: rest.2)
    else
      let rest := compileMissing maxBytes throws limit artifacts revisions
      (rest.1, r :: rest.2)

def written (id : Nat) (model : ApiModel) (stored : Stored) : Revision where
  id := id
  model := .ok model
  artifactDigest := some (stored.digest.getD "")
  index := some stored.index
  frozen := false
  pruned := false
  served := false
  failed := false

def State.change (s : State) (id : Nat) (f : Revision → Revision) : State :=
  { s with revisions := s.revisions.map fun r => if r.id = id then f r else r }

def step (s : State) : Event → Option State
  | .deferred model =>
    some { s with
      revisions := s.revisions ++ [⟨s.next, model, none, none, false, false, false, false⟩]
      next := s.next + 1 }
  | .create model maxBytes =>
    match compileAndStore T s.artifacts model maxBytes with
    | .ok stored =>
      some { s with
        revisions := s.revisions ++ [written s.next model stored]
        artifacts := stored.artifacts
        next := s.next + 1 }
    | .error _ => none
  | .correct id model maxBytes =>
    match compileAndStore T s.artifacts model maxBytes with
    | .ok stored =>
      some { s.change id fun r => if r.frozen ∨ r.pruned then r else written id model stored with
        artifacts := stored.artifacts }
    | .error _ => none
  | .copy id =>
    (s.revisions.find? (·.id = id)).map fun source => { s with
      revisions := s.revisions ++
        [{ source with id := s.next, frozen := false, pruned := false, served := false }]
      next := s.next + 1 }
  | .release id =>
    some (s.change id fun r => if r.pruned then r else { r with frozen := true, served := true })
  | .withdraw id => some (s.change id fun r => { r with served := false })
  | .prune id =>
    some (s.change id fun r =>
      if r.served then r else { r with model := .error "", index := none, pruned := true })
  | .backfill limit maxBytes throws =>
    let compiled := compileMissing T maxBytes throws limit s.artifacts s.revisions
    some { s with revisions := compiled.2, artifacts := compiled.1 }

/-! ### The property, and what decides it -/

def DeclaresSchemas (model : ApiModel) : Prop :=
  ∀ notes, compileArtifact T model ≠ .ok ⟨none, notes⟩

structure Checked (artifacts : Dict String ArtifactRef) (r : Revision) (model : ApiModel) : Prop where
  operations : model.operations ≠ [] → r.operations ≠ []
  artifacts : DeclaresSchemas T model → ∀ soap, artifactsFor artifacts r.artifactDigest soap ≠ []

/-- Every route that is served is checked, and a gateway finds an operation for each request that it
forwards, unless the definition declares none. -/
structure Served (_ : State) (_ : Event) (s' : State) : Prop where
  checked : ∀ r ∈ s'.revisions, r.served = true → ∀ model, r.model = .ok model →
    Checked T s'.artifacts r model
  resolved : ∀ r ∈ s'.revisions, r.served = true → ∀ model, r.model = .ok model →
    ∀ (P : DataPlane.Platform) (req : DataPlane.Request) (binding : DataPlane.ConfigRoute)
        (body : Body) (resolved : Resolved),
      resolveRest P req (r.route s'.artifacts binding) body = .ok resolved →
        resolved.operation = none → model.operations = []

def DeclaresNothing (model : ApiModel) : Prop := model.operations = [] ∧ ¬ DeclaresSchemas T model

def Revision.Compiled (r : Revision) : Prop := r.artifactDigest ≠ none ∧ r.failed = false

def ReleasesCompiled (s : State) : Event → State → Prop
  | .release id, _ => ∀ r ∈ s.revisions, r.id = id → r.pruned = false →
    r.Compiled ∨ ∀ model, r.model = .ok model → DeclaresNothing T model
  | _, _ => True

end

/-! ### What a revision says of itself -/

theorem artifactsFor_eq_nil (artifacts : Dict String ArtifactRef) (digest : Option String)
    (soap : Bool) : artifactsFor artifacts digest soap = [] ↔ digest.getD "" = "" := by
  cases digest with
  | none => exact ⟨fun _ => rfl, fun _ => rfl⟩
  | some digest =>
    unfold artifactsFor
    by_cases hempty : digest = ""
    · subst hempty
      exact ⟨fun _ => rfl, fun _ => rfl⟩
    · rw [Option.filter_some, if_pos (decide_eq_true hempty)]
      refine iff_of_false (fun h => ?_) hempty
      dsimp only at h
      split at h <;> cases h

variable {model : ApiModel}

theorem Checked.of_artifacts {T : Toolkit} {artifacts artifacts' : Dict String ArtifactRef}
    {r : Revision} (h : Checked T artifacts r model) : Checked T artifacts' r model := by
  refine ⟨h.operations, fun hschemas soap hnil => h.artifacts hschemas soap ?_⟩
  exact (artifactsFor_eq_nil _ _ _).mpr ((artifactsFor_eq_nil _ _ _).mp hnil)

structure Sound (T : Toolkit) (artifacts : Dict String ArtifactRef) (r : Revision) : Prop where
  compiled : r.Compiled → ∀ model, r.model = .ok model → Checked T artifacts r model
  opened : ¬ r.Compiled → r.operations = [] ∧ r.artifactDigest.getD "" = ""
  served : r.served = true → ∀ model, r.model = .ok model → Checked T artifacts r model

def AllSound (T : Toolkit) (s : State) : Prop := ∀ r ∈ s.revisions, Sound T s.artifacts r

section
variable {T : Toolkit} {artifacts artifacts' : Dict String ArtifactRef} {r : Revision}

theorem Sound.of_artifacts (h : Sound T artifacts r) : Sound T artifacts' r :=
  ⟨fun hcompiled model hmodel => (h.compiled hcompiled model hmodel).of_artifacts, h.opened,
    fun hserved model hmodel => (h.served hserved model hmodel).of_artifacts⟩

theorem checked_of_stored {maxBytes : Nat} {stored : Stored}
    (hstored : compileAndStore T artifacts model maxBytes = .ok stored)
    (hdigest : r.artifactDigest = some (stored.digest.getD ""))
    (hindex : r.index = some stored.index) : Checked T artifacts' r model := by
  obtain ⟨hlength, hempty⟩ := compileAndStore_ok T hstored
  refine ⟨fun hops hnil => ?_, fun hschemas soap hnil => ?_⟩
  · rw [Revision.operations, hindex, Option.getD_some] at hnil
    rw [hnil] at hlength
    exact hops (List.eq_nil_of_length_eq_zero hlength.symm)
  · have hnone := (artifactsFor_eq_nil _ _ _).mp hnil
    rw [hdigest, Option.getD_some] at hnone
    obtain ⟨notes, hnotes⟩ := hempty hnone
    exact hschemas notes hnotes

theorem checked_of_declaresNothing (h : DeclaresNothing T model) : Checked T artifacts r model :=
  ⟨fun hops => absurd h.1 hops, fun hschemas => absurd hschemas h.2⟩

theorem declaresNothing_of_checked (hopened : ¬ r.Compiled) (hsound : Sound T artifacts r)
    (h : Checked T artifacts' r model) : DeclaresNothing T model := by
  obtain ⟨hoperations, hdigest⟩ := hsound.opened hopened
  exact ⟨not_ne_iff.mp fun hops => h.operations hops hoperations,
    fun hschemas => h.artifacts hschemas false ((artifactsFor_eq_nil _ _ _).mpr hdigest)⟩

theorem sound_written {id : Nat} {maxBytes : Nat} {stored : Stored}
    (hstored : compileAndStore T artifacts model maxBytes = .ok stored) :
    Sound T artifacts' (written id model stored) := by
  refine ⟨fun _ model' hmodel => ?_, fun hopened => absurd ⟨nofun, rfl⟩ hopened, nofun⟩
  obtain rfl := Except.ok.inj hmodel
  exact checked_of_stored hstored rfl rfl

theorem sound_compileRevision (h : Sound T artifacts r) (hpending : r.pending = true)
    (maxBytes : Nat) (throws : Nat → Option String) :
    Sound T artifacts' (compileRevision T artifacts maxBytes throws r).2 := by
  have hnever : r.artifactDigest = none := by
    rw [Revision.pending, Bool.and_eq_true, Option.isNone_iff_eq_none] at hpending
    exact hpending.1
  have hopened : ¬ r.Compiled := fun hcompiled => hcompiled.1 hnever
  have hserved : r.served = true → ∀ model, r.model = .ok model → DeclaresNothing T model :=
    fun hserved model hmodel =>
      declaresNothing_of_checked hopened h (h.served hserved model hmodel)
  unfold compileRevision
  dsimp only
  split
  · rename_i stored hstored
    obtain ⟨model, hmodel, hcompile⟩ := bind_eq_ok.mp hstored
    have hchecked : ∀ r' : Revision, r'.model = r.model →
        r'.artifactDigest = some (stored.digest.getD "") → r'.index = some stored.index →
          ∀ model', r'.model = .ok model' → Checked T artifacts' r' model' := by
      intro r' hsame hdigest hindex model' hmodel'
      rw [hsame, hmodel] at hmodel'
      obtain rfl := Except.ok.inj hmodel'
      cases hthrows : throws r.id with
      | some message =>
        rw [hthrows] at hcompile
        cases hcompile
      | none =>
        rw [hthrows] at hcompile
        exact checked_of_stored hcompile hdigest hindex
    exact ⟨fun _ => hchecked _ rfl rfl rfl, fun hnot => absurd ⟨nofun, rfl⟩ hnot,
      fun _ => hchecked _ rfl rfl rfl⟩
  · exact ⟨fun hcompiled => Bool.noConfusion hcompiled.2, fun _ => ⟨rfl, rfl⟩,
      fun hs model hmodel => checked_of_declaresNothing (hserved hs model hmodel)⟩

theorem mem_compileMissing {maxBytes : Nat} {throws : Nat → Option String} {limit : Nat}
    {revisions : List Revision}
    (h : r ∈ (compileMissing T maxBytes throws limit artifacts revisions).2) :
    r ∈ revisions ∨ ∃ artifacts' r', r' ∈ revisions ∧ r'.pending = true ∧
      r = (compileRevision T artifacts' maxBytes throws r').2 := by
  induction revisions generalizing limit artifacts with
  | nil => exact .inl h
  | cons first revisions ih =>
    unfold compileMissing at h
    split at h
    · rename_i hpending
      rcases List.mem_cons.mp h with rfl | hrest
      · exact .inr ⟨artifacts, first, List.mem_cons_self, hpending.2, rfl⟩
      · rcases ih hrest with hbefore | ⟨artifacts', r', hr', hpending', hr⟩
        · exact .inl (List.mem_cons_of_mem _ hbefore)
        · exact .inr ⟨artifacts', r', List.mem_cons_of_mem _ hr', hpending', hr⟩
    · rcases List.mem_cons.mp h with rfl | hrest
      · exact .inl List.mem_cons_self
      · rcases ih hrest with hbefore | ⟨artifacts', r', hr', hpending', hr⟩
        · exact .inl (List.mem_cons_of_mem _ hbefore)
        · exact .inr ⟨artifacts', r', List.mem_cons_of_mem _ hr', hpending', hr⟩

/-! ### Steps -/

theorem mem_change {s : State} {id : Nat} {f : Revision → Revision}
    (h : r ∈ (s.change id f).revisions) :
    r ∈ s.revisions ∨ ∃ r' ∈ s.revisions, r'.id = id ∧ r = f r' := by
  obtain ⟨r', hr', rfl⟩ := List.mem_map.mp h
  split
  · rename_i hid
    exact .inr ⟨r', hr', hid, rfl⟩
  · exact .inl hr'

theorem step_allSound {s s' : State} {e : Event} (hs : AllSound T s)
    (hreleases : ReleasesCompiled T s e s') (h : step T s e = some s') : AllSound T s' := by
  cases e with
  | deferred model =>
    obtain rfl := Option.some.inj h
    intro r hr
    rcases List.mem_append.mp hr with hbefore | hnew
    · exact hs r hbefore
    · obtain rfl := List.mem_singleton.mp hnew
      exact ⟨fun hcompiled => absurd rfl hcompiled.1, fun _ => ⟨rfl, rfl⟩, nofun⟩
  | create model maxBytes =>
    simp only [step] at h
    split at h
    · rename_i stored hstored
      obtain rfl := Option.some.inj h
      intro r hr
      rcases List.mem_append.mp hr with hbefore | hnew
      · exact (hs r hbefore).of_artifacts
      · obtain rfl := List.mem_singleton.mp hnew
        exact sound_written hstored
    · cases h
  | correct id model maxBytes =>
    simp only [step] at h
    split at h
    · rename_i stored hstored
      obtain rfl := Option.some.inj h
      intro r hr
      rcases mem_change hr with hbefore | ⟨r', hr', -, rfl⟩
      · exact (hs r hbefore).of_artifacts
      · split
        · exact (hs r' hr').of_artifacts
        · exact sound_written hstored
    · cases h
  | copy id =>
    obtain ⟨source, hsource, rfl⟩ := Option.map_eq_some_iff.mp h
    intro r hr
    rcases List.mem_append.mp hr with hbefore | hnew
    · exact hs r hbefore
    · obtain rfl := List.mem_singleton.mp hnew
      have hsound := hs source (List.mem_of_find?_eq_some hsource)
      exact ⟨fun hcompiled model hmodel =>
        ⟨(hsound.compiled hcompiled model hmodel).operations,
          (hsound.compiled hcompiled model hmodel).artifacts⟩, hsound.opened, nofun⟩
  | release id =>
    obtain rfl := Option.some.inj h
    intro r hr
    rcases mem_change hr with hbefore | ⟨r', hr', hid, rfl⟩
    · exact hs r hbefore
    · have hsound := hs r' hr'
      split
      · exact hsound
      · rename_i hpruned
        refine ⟨fun hcompiled model hmodel => ?_, hsound.opened, fun _ model hmodel => ?_⟩
        · have hchecked := hsound.compiled hcompiled model hmodel
          exact ⟨hchecked.operations, hchecked.artifacts⟩
        · rcases hreleases r' hr' hid (Bool.eq_false_iff.mpr hpruned) with hcompiled | hnothing
          · have hchecked := hsound.compiled hcompiled model hmodel
            exact ⟨hchecked.operations, hchecked.artifacts⟩
          · exact checked_of_declaresNothing (hnothing model hmodel)
  | withdraw id =>
    obtain rfl := Option.some.inj h
    intro r hr
    rcases mem_change hr with hbefore | ⟨r', hr', -, rfl⟩
    · exact hs r hbefore
    · have hsound := hs r' hr'
      exact ⟨fun hcompiled model hmodel =>
        ⟨(hsound.compiled hcompiled model hmodel).operations,
          (hsound.compiled hcompiled model hmodel).artifacts⟩, hsound.opened, nofun⟩
  | prune id =>
    obtain rfl := Option.some.inj h
    intro r hr
    rcases mem_change hr with hbefore | ⟨r', hr', -, rfl⟩
    · exact hs r hbefore
    · have hsound := hs r' hr'
      split
      · exact hsound
      · exact ⟨nofun, fun hopened => ⟨rfl, (hsound.opened hopened).2⟩, nofun⟩
  | backfill limit maxBytes throws =>
    obtain rfl := Option.some.inj h
    intro r hr
    rcases mem_compileMissing hr with hbefore | ⟨artifacts', r', hr', hpending, rfl⟩
    · exact (hs r hbefore).of_artifacts
    · exact sound_compileRevision (hs r' hr').of_artifacts hpending maxBytes throws

theorem operations_of_unresolved {P : DataPlane.Platform} {req : DataPlane.Request}
    {route : DataPlane.ConfigRoute} {body : Body}
    {resolved : Resolved} (h : resolveRest P req route body = .ok resolved)
    (hnone : resolved.operation = none) : route.operations = [] := by
  unfold resolveRest at h
  split at h
  · assumption
  · simp only [bind_eq_ok, pure_eq_ok] at h
    obtain ⟨found, -, rfl⟩ := h
    cases hnone

theorem served_of_allSound {s : State} (hs : AllSound T s) (before : State) (e : Event) :
    Served T before e s := by
  refine ⟨fun r hr hserved model hmodel => (hs r hr).served hserved model hmodel, ?_⟩
  intro r hr hserved model hmodel P req binding body resolved hresolved hnone
  have hroute := operations_of_unresolved hresolved hnone
  have hoperations : r.operations = [] := List.map_eq_nil_iff.mp hroute
  by_contra hops
  exact ((hs r hr).served hserved model hmodel).operations hops hoperations

theorem releasesCompiled_of_served {s s' : State} {e : Event} (hs : AllSound T s)
    (h : step T s e = some s') (hserved : Served T s e s') : ReleasesCompiled T s e s' := by
  cases e with
  | release id =>
    obtain rfl := Option.some.inj h
    intro r hr hid hpruned
    by_cases hcompiled : r.Compiled
    · exact .inl hcompiled
    · refine .inr fun model hmodel => ?_
      have hreleased : { r with frozen := true, served := true } ∈ (s.change id fun r =>
          if r.pruned then r else { r with frozen := true, served := true }).revisions := by
        refine List.mem_map.mpr ⟨r, hr, ?_⟩
        rw [if_pos hid]
        exact if_neg (Bool.eq_false_iff.mp hpruned)
      have hchecked := hserved.checked _ hreleased rfl model hmodel
      exact declaresNothing_of_checked hcompiled (hs r hr)
        ⟨hchecked.operations, hchecked.artifacts⟩
  | deferred | create | correct | copy | withdraw | prune | backfill => trivial

/-- In every run of writes, releases and backfills, whatever throws: every route that is served is
checked, if and only if each revision that is released has been compiled without a throw, or declares
neither operations nor schemas. -/
theorem served_checked_iff (T : Toolkit) (events : List Event) :
    EveryStep (step T) (Served T) .initial events ↔
      EveryStep (step T) (ReleasesCompiled T) .initial events := by
  refine everyStep_congr_of_kept (I := AllSound T) (fun s e next hs hstep hserved => ?_)
    (fun s e next hs hstep => ⟨fun hserved => ?_, fun hreleases => ?_⟩) (fun r hr => ?_) events
  · exact step_allSound hs (releasesCompiled_of_served hs hstep hserved) hstep
  · exact releasesCompiled_of_served hs hstep hserved
  · exact served_of_allSound (step_allSound hs hreleases hstep) s e
  · exact absurd hr List.not_mem_nil

end

/-! ### A bundle over the ceiling -/

def addPet : ApiModel where
  title := "pets"
  version := "1.0.0"
  operations := [{
    operationId := "addPet"
    method := "POST"
    path := "/pets"
    requestBody := some ⟨true, [("application/json", .obj [])]⟩ }]

def petTools : Toolkit where
  lintPattern := fun _ _ => []
  text := fun _ => ""
  canonicalJson := fun _ =>
    "\x7b\"defs\":\x7b\"s1\":\x7b\x7d\x7d,\"kind\":\"json-schema\",\"operations\":\x7b\"addPet\":" ++
    "\x7b\"request\":\x7b\"content\":\x7b\"application/json\":\"s1\"\x7d,\"required\":true\x7d," ++
    "\"state\":\"ok\"\x7d\x7d\x7d"
  sha256Hex := fun bytes => bytes
  calls := 64

def missesOperations (s : State) : Bool :=
  s.revisions.any fun r => r.served && r.operations.isEmpty &&
    match r.model with
    | .ok model => !model.operations.isEmpty
    | .error _ => false

theorem not_served_of_missesOperations {T : Toolkit} {s : State} (h : missesOperations s = true)
    (before : State) (e : Event) : ¬ Served T before e s := by
  intro hserved
  obtain ⟨r, hr, hmisses⟩ := List.any_eq_true.mp h
  simp only [Bool.and_eq_true] at hmisses
  obtain ⟨⟨hs, hempty⟩, hmodel⟩ := hmisses
  split at hmodel
  · rename_i model hok
    refine (hserved.checked r hr hs model hok).operations (fun hnil => ?_) (List.isEmpty_iff.mp hempty)
    rw [hnil] at hmodel
    cases hmodel
  · cases hmodel

theorem failed_compilation_is_served :
    ¬ EveryStep (step petTools) (Served petTools) .initial
      ([.deferred (.ok addPet), .backfill 50 100 fun _ => none] ++ [.release 0]) :=
  not_everyStep_of_observed (fun _ s₂ => missesOperations s₂)
    (fun s₁ _ hmisses => not_served_of_missesOperations hmisses s₁ _) (by decide +kernel)

end Apim.ControlPlane.Backfill
