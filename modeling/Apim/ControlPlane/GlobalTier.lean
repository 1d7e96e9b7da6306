import Apim.ControlPlane.PolicySteps

/-!
# Who may move a unit of the tier

A unit that administrators attach to an environment is theirs: a request of anybody else must leave
what it comes to on an API as it was. The requests that write at once are held to it by
`globalUnitChanges`. The writes that carry out an earlier request are not checked again, and
`keepsTier_iff` says exactly when they keep the tier: when the document that was asked for and the
rows that are there agree on every unit of the tier at that moment.
-/

namespace Apim.ControlPlane
open Overlay Policy Trace

/-! ### Documents that agree on a tier -/

def namedOff (doc : Document) : List UnitKey :=
  match doc.lookup DISABLED_KEY with
  | some raw => raw.strings
  | none => []

/-- Laid over the tier, two documents leave each unit of it in one state: both name it in
`disabled`, or neither does and both give it one value. -/
def AgreeOnTier (tier a b : Document) : Prop :=
  ∀ unit, unit ≠ DISABLED_KEY → (tier.lookup unit).isSome →
    (unit ∈ namedOff (overlaid a tier) ↔ unit ∈ namedOff (overlaid b tier)) ∧
      (unit ∉ namedOff (overlaid a tier) → (overlaid a tier).lookup unit = (overlaid b tier).lookup unit)

theorem mem_disabledUnits_iff_named {doc : Document} {unit : UnitKey}
    (hcarried : (doc.lookup unit).isSome) : unit ∈ disabledUnits doc ↔ unit ∈ namedOff doc := by
  rw [mem_disabledUnits, namedOff]
  cases doc.lookup DISABLED_KEY <;> simp [hcarried]

theorem lookup_active_eq_iff {a b : Document} {unit : UnitKey} (hunit : unit ≠ DISABLED_KEY)
    (ha : (a.lookup unit).isSome) (hb : (b.lookup unit).isSome) :
    (activeDocument a).lookup unit = (activeDocument b).lookup unit ↔
      (unit ∈ namedOff a ↔ unit ∈ namedOff b) ∧
        (unit ∉ namedOff a → a.lookup unit = b.lookup unit) := by
  obtain ⟨va, hva⟩ := Option.isSome_iff_exists.mp ha
  obtain ⟨vb, hvb⟩ := Option.isSome_iff_exists.mp hb
  simp only [lookup_activeDocument, mem_disabledUnits_iff_named ha,
    mem_disabledUnits_iff_named hb]
  by_cases hna : unit ∈ namedOff a
  · by_cases hnb : unit ∈ namedOff b
    · simp [hna, hnb]
    · simp [hunit, hna, hnb, hvb]
  · by_cases hnb : unit ∈ namedOff b
    · simp [hunit, hna, hnb, hva]
    · simp [hunit, hna, hnb]

theorem lookup_over_isSome (own : Document) {base : Document} {unit : UnitKey}
    (h : (base.lookup unit).isSome) : ((overlaid own base).lookup unit).isSome := by
  rw [lookup_over]
  cases own.lookup unit with
  | none => exact h
  | some value => rfl

theorem agreeOnTier_iff (tier a b : Document) :
    AgreeOnTier tier a b ↔ ∀ unit, (tier.lookup unit).isSome →
      (activeDocument (overlaid a tier)).lookup unit = (activeDocument (overlaid b tier)).lookup unit := by
  constructor
  · intro h unit hunit
    by_cases hkey : unit = DISABLED_KEY
    · rw [lookup_activeDocument, lookup_activeDocument, if_pos (.inl hkey), if_pos (.inl hkey)]
    · have hiff := lookup_active_eq_iff hkey (lookup_over_isSome a hunit)
        (lookup_over_isSome b hunit)
      exact hiff.mpr (h unit hkey hunit)
  · intro h unit hkey hunit
    have hiff := lookup_active_eq_iff hkey (lookup_over_isSome a hunit)
      (lookup_over_isSome b hunit)
    exact hiff.mp (h unit hunit)

/-! ### The check of a request that writes at once -/

theorem lookup_active_of_unmoved {tier own rows checked : Document}
    (hmoved : globalUnitChanges tier (overlaid own tier) checked = [])
    (hrows : ∀ unit, (overlaid rows tier).lookup unit = (checked.lookup unit).or (tier.lookup unit))
    (hdrop : ∀ unit, unit ≠ DISABLED_KEY → (tier.lookup unit).isSome →
      checked.lookup unit = none → checked.lookup DISABLED_KEY = (overlaid own tier).lookup DISABLED_KEY)
    {unit : UnitKey} (hunit : (tier.lookup unit).isSome) :
    (activeDocument (overlaid rows tier)).lookup unit =
      (activeDocument (overlaid own tier)).lookup unit := by
  rw [globalUnitChanges_eq_nil_iff] at hmoved
  by_cases hkey : unit = DISABLED_KEY
  · rw [lookup_activeDocument, lookup_activeDocument, if_pos (.inl hkey), if_pos (.inl hkey)]
  · have hbefore := lookup_over_isSome own hunit
    have hsignature := (signature_eq_iff tier (overlaid own tier) checked unit hkey).mp
      (hmoved unit hunit)
    have hidem : ∀ key, ((overlaid own tier).lookup key).or (tier.lookup key) =
        (overlaid own tier).lookup key := by
      intro key
      rw [lookup_over]
      cases own.lookup key <;> simp
    -- the `disabled` list the API runs under, as far as it names this unit
    have hlist : unit ∈ namedOff (overlaid rows tier) ↔ unit ∈ namedOff (overlaid own tier) := by
      have hcheckedNamed : (overlaid rows tier).lookup DISABLED_KEY =
            (overlaid own tier).lookup DISABLED_KEY ∨
          (overlaid rows tier).lookup DISABLED_KEY = checked.lookup DISABLED_KEY := by
        cases htier : tier.lookup DISABLED_KEY with
        | none => exact .inr (by rw [hrows, htier, Option.or_none])
        | some value =>
          refine .inl ?_
          have hvalue := (Prod.mk.inj (hmoved DISABLED_KEY (by rw [htier]; rfl))).2
          rw [hrows, ← hvalue, hidem]
      rcases hcheckedNamed with hsame | hchecked
      · simp only [namedOff, hsame]
      · cases hcarried : checked.lookup unit with
        | none =>
          have hsame := hdrop unit hkey hunit hcarried
          simp only [namedOff, hchecked, hsame]
        | some value =>
          have hoff := hsignature.1
          rw [mem_disabledUnits_iff_named hbefore,
            mem_disabledUnits_iff_named (by rw [hcarried]; rfl)] at hoff
          rw [hoff]
          simp only [namedOff, hchecked]
    have hvalue : (overlaid rows tier).lookup unit = (overlaid own tier).lookup unit := by
      rw [hrows, ← hsignature.2, hidem]
    have hafter := lookup_over_isSome rows hunit
    exact (lookup_active_eq_iff hkey hafter hbefore).mpr ⟨hlist, fun _ => hvalue⟩

theorem directWrite_keeps {app : App} {s s' : State} {e : Event} {w : PolicyWrite}
    (h : step app s e = some s') (hw : directWrite s e = some w) (huser : w.user.isAdmin = false)
    {unit : UnitKey} (hunit : ((inheritedUnits s.db.live w.stage.2).lookup unit).isSome) :
    (activeDocument (overlaid w.rows (inheritedUnits s.db.live w.stage.2))).lookup unit =
      unitState s.db.live w.stage unit := by
  cases e with
  | putUnit user id environment key value =>
    obtain ⟨db, hdb, rfl⟩ := State.write_eq_some h
    obtain ⟨⟨hmoved, -⟩, -⟩ := putUnit_ok hdb
    obtain rfl := Option.some.inj hw
    refine lookup_active_of_unmoved (hmoved.resolve_left (Bool.eq_false_iff.mp huser)) (fun k => ?_)
      (fun k _ hk hnone => ?_) hunit
    · rw [lookup_over]
      by_cases hkey : k = key
      · subst hkey
        simp
      · rw [AList.lookup_insert_ne hkey, AList.lookup_insert_ne hkey, lookup_effectiveDocument]
        cases (resourceUnits s.db.live (id, environment)).lookup k <;> simp
    · by_cases hkey : k = key
      · subst hkey
        simp at hnone
      · rw [AList.lookup_insert_ne hkey] at hnone
        have hsome := lookup_over_isSome (resourceUnits s.db.live (id, environment)) hk
        rw [effectiveDocument] at hnone
        rw [hnone] at hsome
        cases hsome
  | deleteUnit user id environment key =>
    obtain ⟨db, hdb, rfl⟩ := State.write_eq_some h
    obtain ⟨⟨hmoved, -⟩, -⟩ := deleteUnit_ok hdb
    obtain rfl := Option.some.inj hw
    refine lookup_active_of_unmoved (hmoved.resolve_left (Bool.eq_false_iff.mp huser)) (fun k => ?_)
      (fun k hne hk hnone => ?_) hunit
    · rw [lookup_over]
      by_cases hkey : k = key
      · subst hkey
        simp
      · rw [AList.lookup_erase_ne hkey, AList.lookup_erase_ne hkey, lookup_effectiveDocument]
        cases (resourceUnits s.db.live (id, environment)).lookup k <;> simp
    · by_cases hkey : k = key
      · subst hkey
        exact AList.lookup_erase_ne (Ne.symm hne)
      · rw [AList.lookup_erase_ne hkey] at hnone
        have hsome := lookup_over_isSome (resourceUnits s.db.live (id, environment)) hk
        rw [effectiveDocument] at hnone
        rw [hnone] at hsome
        cases hsome
  | copyFrom user id source environment units =>
    obtain ⟨db, hdb, rfl⟩ := State.write_eq_some h
    obtain ⟨hunits, ⟨hmoved, -⟩, -⟩ := copyFrom_ok hdb
    obtain rfl := Option.some.inj hw
    refine lookup_active_of_unmoved (hmoved.resolve_left (Bool.eq_false_iff.mp huser)) (fun k => ?_)
      (fun k _ _ _ => ?_) hunit
    · rw [lookup_over, lookup_foldl_copyUnit, lookup_foldl_copyUnit]
      by_cases hin : k ∈ units
      · rw [if_pos hin, if_pos hin]
      · rw [if_neg hin, if_neg hin, lookup_effectiveDocument]
        cases (resourceUnits s.db.live (id, environment)).lookup k <;> simp
    · -- a copy names units of the vocabulary only, and `disabled` is none of them
      have hnot : DISABLED_KEY ∉ units := by
        intro hin
        exact absurd (hunits DISABLED_KEY hin) (by decide)
      rw [lookup_foldl_copyUnit, if_neg hnot]
      rfl
  | _ => cases hw

/-! ### Who moves a unit of the tier -/

def byAdministrator (app : App) (s : State) : Event → Bool
  | .putGlobalUnit user _ _ _ => user.isAdmin
  | .deleteGlobalUnit user _ _ => user.isAdmin
  | .copyGlobals user _ _ => user.isAdmin
  | e => (policyWrite app s e).any (·.user.isAdmin)

/-- Unless an administrator is behind the step, each unit that the tier defines after it comes to
what it came to before, on every API that stays. -/
def KeepsTier (app : App) (s : State) (e : Event) (s' : State) : Prop :=
  byAdministrator app s e = false → ∀ stage : Stage, (∀ user, e ≠ .delete user stage.1) →
    ∀ unit, AttachedGlobally s'.db.live stage.2 unit →
      unitState s'.db.live stage unit = unitState s.db.live stage unit

/-- The document a carried write was asked with agrees, on the tier of this moment, with the rows
that are there, unless an administrator asked. -/
def CarriedAgrees (app : App) (s : State) (e : Event) : Prop :=
  ∀ w, carriedWrite app s e = some w → w.user.isAdmin = false →
    AgreeOnTier (inheritedUnits s.db.live w.stage.2) (resourceUnits s.db.live w.stage) w.asked

theorem globalPolicy_of_not_administrator {app : App} {s s' : State} {e : Event}
    (h : step app s e = some s') (hby : byAdministrator app s e = false) :
    s'.db.live.globalPolicy = s.db.live.globalPolicy := by
  have htier := (step_policy h).2
  cases e with
  | putGlobalUnit user environment unit value =>
    obtain ⟨db, hdb, -⟩ := State.write_eq_some h
    obtain ⟨-, hadmin, -, -⟩ := putGlobalUnit_ok hdb
    exact absurd hadmin (Bool.eq_false_iff.mp hby)
  | deleteGlobalUnit user environment unit =>
    obtain ⟨db, hdb, -⟩ := State.write_eq_some h
    obtain ⟨hadmin, -, -⟩ := deleteGlobalUnit_ok hdb
    exact absurd hadmin (Bool.eq_false_iff.mp hby)
  | copyGlobals user source environment =>
    obtain ⟨db, hdb, -⟩ := State.write_eq_some h
    obtain ⟨hadmin, -, -⟩ := copyGlobals_ok hdb
    exact absurd hadmin (Bool.eq_false_iff.mp hby)
  | _ => exact htier

theorem unitState_of_rows {live live' : Live} {stage : Stage} {rows : Document}
    (hrows : ∀ unit, (resourceUnits live' stage).lookup unit = rows.lookup unit)
    (htier : live'.globalPolicy = live.globalPolicy) (unit : UnitKey) :
    unitState live' stage unit =
      (activeDocument (overlaid rows (inheritedUnits live stage.2))).lookup unit := by
  refine activeDocument_congr (fun key => ?_) unit
  rw [lookup_effectiveDocument, lookup_over, hrows, inheritedUnits, htier, inheritedUnits]

theorem over_rows_of_carried {app : App} {s : State} {e : Event} {w : PolicyWrite}
    (hw : carriedWrite app s e = some w) :
    Alike (overlaid w.rows (inheritedUnits s.db.live w.stage.2))
      (overlaid w.asked (inheritedUnits s.db.live w.stage.2)) := by
  intro unit
  unfold carriedWrite at hw
  split at hw
  next id =>
    obtain ⟨o, -, hwrite⟩ := Option.bind_eq_some_iff.mp hw
    unfold operationWrite at hwrite
    split at hwrite
    · obtain rfl := Option.some.inj hwrite
      exact lookup_over_departures _ _ unit
    · cases hwrite
  next id leased =>
    obtain ⟨j, -, hwrite⟩ := Option.bind_eq_some_iff.mp hw
    split at hwrite
    · cases hwrite
    · unfold seedWrite at hwrite
      split at hwrite
      · simp only [Option.bind_eq_bind, Option.bind_eq_some_iff] at hwrite
        obtain ⟨release, -, environment, -, hwrite⟩ := hwrite
        split at hwrite
        · cases hwrite
        · obtain rfl := Option.some.inj hwrite
          rfl
      · cases hwrite
  next =>
    obtain rfl := Option.some.inj hw
    rfl
  next => cases hw

theorem directWrite_of_carried {app : App} {s : State} {e : Event} {w : PolicyWrite}
    (hw : carriedWrite app s e = some w) :
    directWrite s e = none ∧ ∀ user id, e ≠ .delete user id := by
  cases e <;> first | (cases hw; done) | exact ⟨rfl, fun _ _ h => by cases h⟩

theorem keepsTier_step_iff {app : App} {s s' : State} {e : Event} (h : step app s e = some s') :
    KeepsTier app s e s' ↔ CarriedAgrees app s e := by
  obtain ⟨hrows, -⟩ := step_policy h
  constructor
  · intro hkeeps w hw huser
    obtain ⟨hdirect, hdelete⟩ := directWrite_of_carried hw
    have hwrite : policyWrite app s e = some w := by rw [policyWrite, hdirect, Option.none_or, hw]
    have hby : byAdministrator app s e = false := by
      have hany : (policyWrite app s e).any (·.user.isAdmin) = false := by
        rw [hwrite]
        exact huser
      cases e <;> first | exact hany | cases hw
    have htier := globalPolicy_of_not_administrator h hby
    rw [agreeOnTier_iff]
    intro unit hunit
    have hattached : AttachedGlobally s'.db.live w.stage.2 unit := by
      rw [AttachedGlobally, inheritedUnits, htier]
      exact hunit
    have hstate := hkeeps hby w.stage (fun user => hdelete user w.stage.1) unit hattached
    have hafter : ∀ key, (resourceUnits s'.db.live w.stage).lookup key = w.rows.lookup key := by
      intro key
      rw [hrows w.stage key fun user => hdelete user w.stage.1, rowsAfter, hwrite]
      exact congrArg _ (if_pos rfl)
    rw [unitState_of_rows hafter htier] at hstate
    rw [← activeDocument_congr (over_rows_of_carried hw) unit, hstate]
    rfl
  · intro hagrees hby stage hstays unit hattached
    have htier := globalPolicy_of_not_administrator h hby
    have hunit : ((inheritedUnits s.db.live stage.2).lookup unit).isSome := by
      rw [AttachedGlobally, inheritedUnits, htier] at hattached
      exact hattached
    rw [unitState_of_rows (fun key => hrows stage key hstays) htier]
    cases hwrite : policyWrite app s e with
    | none =>
      simp only [rowsAfter, hwrite]
      rfl
    | some w =>
      simp only [rowsAfter, hwrite]
      by_cases hstage : stage = w.stage
      · rw [if_pos hstage]
        subst hstage
        have huser : w.user.isAdmin = false := by
          have hany : (policyWrite app s e).any (·.user.isAdmin) = false := by
            cases e <;> first | exact hby | cases hwrite
          rwa [hwrite] at hany
        cases hdirect : directWrite s e with
        | some d =>
          obtain rfl : d = w := by
            rw [policyWrite, hdirect, Option.some_or] at hwrite
            exact Option.some.inj hwrite
          exact directWrite_keeps h hdirect huser hunit
        | none =>
          have hcarried : carriedWrite app s e = some w := by
            rwa [policyWrite, hdirect, Option.none_or] at hwrite
          have hsame := (agreeOnTier_iff _ _ _).mp (hagrees w hcarried huser) unit hunit
          rw [activeDocument_congr (over_rows_of_carried hcarried) unit, ← hsame]
          rfl
      · rw [if_neg hstage]
        rfl

theorem keepsTier_iff (app : App) (s : State) (events : List Event) :
    EveryStep (step app) (KeepsTier app) s events ↔
      EveryStep (step app) (fun s e _ => CarriedAgrees app s e) s events := by
  refine everyStep_congr (fun s e next h => ?_) s events
  exact keepsTier_step_iff h

/-! ### A publish that moves it, run -/

def shopKey : Json := .obj [("in", .str "header"), ("name", .str "X-Shop-Key")]

/-- An administrator attaches a subscription key to the environment, and a member of an application
publishes an API without saying anything about policy. -/
def publishUnderTier : List Event :=
  [.administer twoGateways, .putGlobalUnit administrator "dev" SUBSCRIPTION_KEY shopKey,
    .publish developer publishPets "dev", .resume 0]

theorem publish_moves_tier :
    ¬ EveryStep (step twoStages) (KeepsTier twoStages) State.initial
        (publishUnderTier ++ [.operation 5]) := by
  refine not_everyStep_of_observed (fun s₁ s₂ =>
    !byAdministrator twoStages s₁ (.operation 5) &&
      ((inheritedUnits s₂.db.live "dev").lookup SUBSCRIPTION_KEY).isSome &&
      unitState s₂.db.live (3, "dev") SUBSCRIPTION_KEY !=
        unitState s₁.db.live (3, "dev") SUBSCRIPTION_KEY) (fun s₁ s₂ hseen hkeeps => ?_)
    (by decide +kernel)
  simp only [Bool.and_eq_true, Bool.not_eq_true', bne_iff_ne] at hseen
  obtain ⟨⟨hby, hattached⟩, hmoved⟩ := hseen
  exact hmoved (hkeeps hby (3, "dev") (fun _ h => by cases h) SUBSCRIPTION_KEY hattached)

end Apim.ControlPlane
