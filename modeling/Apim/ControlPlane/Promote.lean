import Apim.ControlPlane.Settled

/-!
# What a promotion carries

The tier of an environment is never promoted: a unit becomes the API's own in the target only where
it is its own in the source, the target's override names it, the platform manages it or publishing
gives it, and a unit the API inherits in the target stays inherited. What is promoted is the
document of a snapshot, which is laid over the source's tier, and which units of it are stored is
decided by comparing values with the target's tier at the moment of the application
(`leavesTiers_iff`).
-/

namespace Apim.ControlPlane
open Overlay Policy Trace

def promotedDocument (user : User) (read : PromoteRead) : Document :=
  settledPolicy user (read.override.getD read.source.policy)
    (keptSubscriptionKey (some read.defaults)) (managedUnitsFor read.resource)

variable {user : User} {body : PublishInput} {read : PromoteRead}

theorem promoteSettle_ok {app : App} {db : Database} {config : Settings}
    (h : promoteSettle app db user body read = .ok config) (hnone : body.policy = none) :
    config.policy = promotedDocument user read := by
  obtain ⟨-, -, -, -, -, hpolicy, -⟩ := settings_ok h
  have hbody : (body.ofResource read.resource).policy = none := hnone
  rw [(settlePolicy_ok hpolicy).1, hbody]
  rfl

theorem promoteRead_ok {app : App} {db : Database} {id : ResourceId}
    (h : promoteRead app db user id body = .ok read) :
    read.override = db.live.environmentOverride (read.resource.id, read.environment) := by
  simp only [promoteRead, bind_ok, orRefuse_ok, require_ok] at h
  obtain ⟨resource, hresource, -, -, environment, -, -, -, sourceEnvironment, -, source, -, -, -,
    hread⟩ := h
  obtain rfl := Except.ok.inj hread
  have hid : resource.id = id := by simpa using List.find?_some hresource
  rw [hid]

/-- A promotion whose body names no policy has read both stages in `s₀`, is accepted in `s₁` and
applied in `s₃`. -/
structure PromotionCarriedOut (app : App) (user : User) (id : ResourceId) (body : PublishInput)
    (read : PromoteRead) (config : Settings) (operation : OperationId) (s₀ s₁ s₂ s₃ : State)
    (after : Database) : Prop
    extends CarriedOut app (.promoteSettled user body read config) operation s₁ s₂ s₃ after where
  unnamed : body.policy = none
  began : promoteRead app s₀.db user id body = .ok read
  between : ∃ events, run app s₀ (.promote user id body :: events) = some s₁

def GivenToTarget (live : Live) (read : PromoteRead) (unit : UnitKey) : Prop :=
  ((live.environmentOverride (read.resource.id, read.environment)).bind (·.lookup unit)).isSome ∨
    ((managedUnitsFor read.resource).lookup unit).isSome ∨ (DEFAULT_POLICY.lookup unit).isSome

/-- A promotion keeps the tiers apart: `read` are the rows it has read, `before` and `after` those
around its application. -/
structure LeavesTiers (promotion : PromoteRead) (read before after : Live) : Prop where
  own : ∀ unit,
    ((resourceUnits after (promotion.resource.id, promotion.environment)).lookup unit).isSome →
    ((resourceUnits read (promotion.resource.id, promotion.sourceEnvironment)).lookup unit).isSome ∨
      GivenToTarget read promotion unit
  merelyInherited : ∀ unit,
    Inherited read (promotion.resource.id, promotion.sourceEnvironment) unit →
    ¬ GivenToTarget read promotion unit →
    (resourceUnits after (promotion.resource.id, promotion.environment)).lookup unit = none
  inherited : ∀ unit, Inherited before (promotion.resource.id, promotion.environment) unit →
    Inherited after (promotion.resource.id, promotion.environment) unit

/-- What a promotion has read is carried by the API's own rows where it matters: unless the target
has an override, a unit of the source's document that the target's tier does not give is the API's
own in the source, is managed or is the subscription key; and a unit that the API inherits in the
target has the tier's value in the document that is promoted, or none. -/
structure CarriesOwn (user : User) (promotion : PromoteRead) (read before : Live) : Prop where
  own : promotion.override = none → ∀ unit value,
    (managedUnitsFor promotion.resource).lookup unit = none → unit ≠ SUBSCRIPTION_KEY →
    promotion.source.policy.lookup unit = some value →
    (inheritedUnits before promotion.environment).lookup unit ≠ some value →
    ((resourceUnits read (promotion.resource.id, promotion.sourceEnvironment)).lookup unit).isSome
  inherited : ∀ unit, Inherited before (promotion.resource.id, promotion.environment) unit →
    (promotedDocument user promotion).lookup unit = none ∨
      (promotedDocument user promotion).lookup unit =
        (inheritedUnits before promotion.environment).lookup unit

theorem lookup_promotedDocument {unit : UnitKey}
    (hmanaged : (managedUnitsFor read.resource).lookup unit = none) (hkey : unit ≠ SUBSCRIPTION_KEY) :
    (promotedDocument user read).lookup unit =
      (read.override.getD read.source.policy).lookup unit := by
  rw [promotedDocument, settledPolicy, lookup_over, hmanaged, Option.none_or]
  split
  · rfl
  · exact AList.lookup_insert_ne hkey

theorem lookup_defaultPolicy {unit : UnitKey} :
    (DEFAULT_POLICY.lookup unit).isSome ↔ unit = SUBSCRIPTION_KEY := by
  rw [AList.lookup_isSome, DEFAULT_POLICY, AList.mem_keys, AList.keys_singleton,
    List.mem_singleton]

theorem leavesTiers_iff {app : App} {user : User} {id : ResourceId} {body : PublishInput}
    {promotion : PromoteRead} {config : Settings} {operation : OperationId}
    {s₀ s₁ s₂ s₃ : State} {after : Database}
    (h : PromotionCarriedOut app user id body promotion config operation s₀ s₁ s₂ s₃ after) :
    LeavesTiers promotion s₀.db.live s₃.db.live after.live ↔
      CarriesOwn user promotion s₀.db.live s₃.db.live := by
  obtain ⟨settledAt, hsettle⟩ := h.toCarriedOut.settled
  obtain ⟨o, config', rev, parent, source, digest, haccepted, hinput, -, happly⟩ :=
    h.toCarriedOut.operation
  simp only [Request.accepted, Option.some.injEq, Prod.mk.injEq] at haccepted
  obtain ⟨rfl, ⟨hresource, henvironment⟩, rfl⟩ := haccepted
  have hpolicy := promoteSettle_ok hsettle h.unnamed
  have hoverride := promoteRead_ok h.began
  obtain ⟨-, -, -, -, hrows, htier⟩ := applied_rows happly
  rw [← hresource, ← henvironment, hinput] at hrows
  have hstored : resourceUnits after.live (promotion.resource.id, promotion.environment) =
      departures (promotedDocument o.actor promotion)
        (inheritedUnits s₃.db.live promotion.environment) := by
    rw [hrows, ← hpolicy]
    rfl
  constructor
  · intro hleaves
    refine ⟨fun hnone unit value hmanaged hkey hvalue hdiffers => ?_, fun unit hinherited => ?_⟩
    · have hcarried : (promotedDocument o.actor promotion).lookup unit = some value := by
        rw [lookup_promotedDocument hmanaged hkey, hnone]
        exact hvalue
      have hrow : ((resourceUnits after.live
          (promotion.resource.id, promotion.environment)).lookup unit).isSome := by
        rw [hstored, (lookup_departures_eq_some_iff _ _ unit value).mpr ⟨hcarried, hdiffers⟩]
        rfl
      rcases hleaves.own unit hrow with hown | hnamed | hplatform | hdefault
      · exact hown
      · rw [← hoverride, hnone] at hnamed
        cases hnamed
      · rw [hmanaged] at hplatform
        cases hplatform
      · exact absurd (lookup_defaultPolicy.mp hdefault) hkey
    · have hafter := (hleaves.inherited unit hinherited).1
      rw [hstored] at hafter
      exact (lookup_departures_eq_none_iff _ _ unit).mp hafter
  · intro hcarries
    have hown : ∀ unit, ((resourceUnits after.live
          (promotion.resource.id, promotion.environment)).lookup unit).isSome →
        ((resourceUnits s₀.db.live
          (promotion.resource.id, promotion.sourceEnvironment)).lookup unit).isSome ∨
        GivenToTarget s₀.db.live promotion unit := by
      intro unit hrow
      obtain ⟨value, hvalue⟩ := Option.isSome_iff_exists.mp hrow
      rw [hstored, lookup_departures_eq_some_iff] at hvalue
      obtain ⟨hcarried, hdiffers⟩ := hvalue
      by_cases hkey : unit = SUBSCRIPTION_KEY
      · exact .inr (.inr (.inr (lookup_defaultPolicy.mpr hkey)))
      · cases hmanaged : (managedUnitsFor promotion.resource).lookup unit with
        | some managed => exact .inr (.inr (.inl (by rw [hmanaged]; rfl)))
        | none =>
          rw [lookup_promotedDocument hmanaged hkey] at hcarried
          cases hnamed : promotion.override with
          | some document =>
            rw [hnamed] at hcarried
            refine .inr (.inl ?_)
            rw [← hoverride, hnamed]
            exact Option.isSome_iff_exists.mpr ⟨value, hcarried⟩
          | none =>
            rw [hnamed] at hcarried
            exact .inl (hcarries.own hnamed unit value hmanaged hkey hcarried hdiffers)
    refine ⟨hown, fun unit hinherited hgiven => ?_, fun unit hinherited => ⟨?_, ?_⟩⟩
    · by_contra hrow
      rcases hown unit (Option.isSome_iff_ne_none.mpr hrow) with hlocal | hothers
      · rw [hinherited.1] at hlocal
        cases hlocal
      · exact hgiven hothers
    · rw [hstored]
      exact (lookup_departures_eq_none_iff _ _ unit).mpr (hcarries.inherited unit hinherited)
    · rw [AttachedGlobally, htier]
      exact hinherited.2

theorem promotion_of_carryOut {app : App} {id : ResourceId}
    {front middle : List Event} {operation : OperationId} {request : Request} {s₁ s₂ s₃ : State}
    {after : Database} (hnone : body.policy = none)
    (hidle : (run app State.initial front).all (·.requests.isEmpty) = true)
    (h : carryOut app (front ++ [.promote user id body, .resume 0]) 0 middle operation =
      some (request, s₁, s₂, s₃, after)) :
    ∃ s₀ read config, run app State.initial front = some s₀ ∧
      request = .promoteSettled user body read config ∧
      PromotionCarriedOut app user id body read config operation s₀ s₁ s₂ s₃ after := by
  obtain ⟨hrun, hrequest⟩ := carryOut_accepted h
  obtain ⟨s₀, hfront, hback⟩ := exec_append_eq_some hrun
  obtain ⟨a, hpromote, hrest⟩ := exec_cons_eq_some hback
  obtain ⟨b, hresume, hend⟩ := exec_cons_eq_some hrest
  obtain rfl : b = s₁ := Option.some.inj hend
  have hempty : s₀.requests = [] := by
    rw [run, hfront] at hidle
    exact List.isEmpty_iff.mp hidle
  obtain ⟨waiting, hwaiting, rfl⟩ := State.waiting_eq_some hpromote
  obtain ⟨read, hread, rfl⟩ := map_eq_ok hwaiting
  obtain ⟨first, hfirst, hstage⟩ := step_resume hresume
  have hfirst' : first = .promote user body read := by
    simp only [hempty, List.nil_append, List.getElem?_cons_zero, Option.some.injEq] at hfirst
    exact hfirst.symm
  subst hfirst'
  rcases hstage with ⟨next, hnext, rfl⟩ | ⟨db, hdb, -⟩
  · rcases resumeRequest_settled hnext with ⟨_, _, _, _, hbad, -⟩ | ⟨u, bd, rd, config, hsame, -, rfl⟩
    · cases hbad
    · cases hsame
      simp only [hempty, List.nil_append, List.set_cons_zero, List.getElem?_cons_zero,
        Option.some.injEq] at hrequest
      subst hrequest
      exact ⟨s₀, read, config, hfront, rfl,
        { toCarriedOut := carriedOut_of_carryOut h
          unnamed := hnone
          began := hread
          between := ⟨_, hback⟩ }⟩
  · rcases resumeRequest_committed hdb with ⟨_, _, _, _, hbad, -⟩ | ⟨_, _, _, _, hbad, -⟩ |
      ⟨_, _, _, _, hbad, -⟩
    · cases hbad
    · cases hbad
    · cases hbad

def ceiling (requests : Rat) : Json := .obj [("requests", .num requests), ("window", .str "1m")]

def publishCeiling : PublishInput :=
  { publishPets with policy := some (DEFAULT_POLICY.insert "rateLimit" (ceiling 10)) }

def publishedUnderCeiling (body : PublishInput) (tier : List Event) : List Event :=
  [.administer polledGateways, .putGlobalUnit administrator "dev" "rateLimit" (ceiling 10)] ++ tier ++
    [.publish developer body "dev", .resume 0, .operation 5, .complete "dev"]

def promotePets : PublishInput :=
  { configurePets "test" "promote" with backendUrl := some "https://pets-test" }

def observedOwn (request : Request) (before : Live) : Bool :=
  match request with
  | .promoteSettled user _ read _ =>
    decide (read.source.policy.keys = [SUBSCRIPTION_KEY]) &&
      decide ((promotedDocument user read).keys = [SUBSCRIPTION_KEY]) &&
      ((inheritedUnits before read.environment).lookup SUBSCRIPTION_KEY).isNone
  | _ => false

theorem carriesOwn_of_observed {promotion : PromoteRead} {config : Settings} {read before : Live}
    (h : observedOwn (.promoteSettled user body promotion config) before = true) :
    CarriesOwn user promotion read before := by
  simp only [observedOwn, Bool.and_eq_true, decide_eq_true_eq, Option.isNone_iff_eq_none] at h
  obtain ⟨⟨hsource, hpromoted⟩, htier⟩ := h
  constructor
  · intro _ unit value _ hkey hvalue
    have hmem : unit ∈ promotion.source.policy.keys :=
      AList.mem_keys.mp (AList.lookup_isSome.mp (Option.isSome_iff_exists.mpr ⟨value, hvalue⟩))
    rw [hsource] at hmem
    exact absurd (List.mem_singleton.mp hmem) hkey
  · intro unit hinherited
    refine .inl (AList.lookup_eq_none.mpr fun hin => ?_)
    have hmem := AList.mem_keys.mp hin
    rw [hpromoted] at hmem
    obtain rfl := List.mem_singleton.mp hmem
    have hattached : ((inheritedUnits before promotion.environment).lookup
      SUBSCRIPTION_KEY).isSome := hinherited.2
    rw [htier] at hattached
    cases hattached

theorem promotion_leavesTiers : ∃ promotion config s₀ s₁ s₂ s₃ after,
    PromotionCarriedOut twoStages developer 3 promotePets promotion config 7 s₀ s₁ s₂ s₃ after ∧
      LeavesTiers promotion s₀.db.live s₃.db.live after.live := by
  have hidle : (run twoStages State.initial (publishedUnderCeiling publishPets
      [.putGlobalUnit administrator "test" "rateLimit" (ceiling 100)])).all
        (·.requests.isEmpty) = true := by decide +kernel
  have hseen : ((carryOut twoStages (publishedUnderCeiling publishPets
      [.putGlobalUnit administrator "test" "rateLimit" (ceiling 100)] ++
        [.promote developer 3 promotePets, .resume 0]) 0 [] 7).map
      fun r => observedOwn r.1 r.2.2.2.1.db.live) = some true := by decide +kernel
  obtain ⟨⟨request, s₁, s₂, s₃, after⟩, hrun, hown⟩ := Option.map_eq_some_iff.mp hseen
  obtain ⟨s₀, promotion, config, -, rfl, hcarried⟩ := promotion_of_carryOut rfl hidle hrun
  exact ⟨promotion, config, s₀, s₁, s₂, s₃, after, hcarried,
    (leavesTiers_iff hcarried).mpr (carriesOwn_of_observed hown)⟩

/-- The document the API is published with has the source's ceiling in it, as the editor loads it:
the unit is not stored in the source, where the API inherits it, and becomes the API's own in the
target. -/
theorem ceiling_promoted : ∃ promotion config s₀ s₁ s₂ s₃ after,
    PromotionCarriedOut twoStages developer 3 promotePets promotion config 7 s₀ s₁ s₂ s₃ after ∧
      Inherited s₀.db.live (3, "dev") "rateLimit" ∧
      ¬ LeavesTiers promotion s₀.db.live s₃.db.live after.live := by
  have hidle : (run twoStages State.initial (publishedUnderCeiling publishCeiling [])).all
      (·.requests.isEmpty) = true := by decide +kernel
  have hsource : (run twoStages State.initial (publishedUnderCeiling publishCeiling [])).map
      (fun s₀ => ((resourceUnits s₀.db.live (3, "dev")).lookup "rateLimit").isNone &&
        ((inheritedUnits s₀.db.live "dev").lookup "rateLimit").isSome &&
        (s₀.db.live.environmentOverride (3, "test")).isNone) = some true := by decide +kernel
  have hseen : ((carryOut twoStages (publishedUnderCeiling publishCeiling [] ++
        [.promote developer 3 promotePets, .resume 0]) 0 [] 7).map fun r =>
      match r.1 with
      | .promoteSettled _ _ promotion _ =>
        promotion.resource.id == 3 && promotion.sourceEnvironment == "dev" &&
          promotion.environment == "test" && (managedUnitsFor promotion.resource).keys.isEmpty &&
          ((resourceUnits r.2.2.2.2.live (3, "test")).lookup "rateLimit").isSome
      | _ => false) = some true := by decide +kernel
  obtain ⟨⟨request, s₁, s₂, s₃, after⟩, hrun, hrow⟩ := Option.map_eq_some_iff.mp hseen
  obtain ⟨s₀, promotion, config, hfront, rfl, hcarried⟩ := promotion_of_carryOut rfl hidle hrun
  rw [hfront] at hsource
  simp only [Option.map_some, Option.some.injEq, Bool.and_eq_true, Option.isNone_iff_eq_none]
    at hsource
  obtain ⟨⟨hown, htier⟩, hoverride⟩ := hsource
  simp only [Bool.and_eq_true, beq_iff_eq, List.isEmpty_iff] at hrow
  obtain ⟨⟨⟨⟨hid, hfrom⟩, hto⟩, hmanaged⟩, hrow⟩ := hrow
  refine ⟨promotion, config, s₀, s₁, s₂, s₃, after, hcarried, ⟨hown, htier⟩, fun hleaves => ?_⟩
  have hstored := hleaves.own "rateLimit"
  rw [hid, hfrom, hto] at hstored
  rcases hstored hrow with hlocal | hnamed | hplatform | hdefault
  · rw [hown] at hlocal
    cases hlocal
  · rw [hid, hto, hoverride] at hnamed
    cases hnamed
  · rw [AList.lookup_isSome, AList.mem_keys, hmanaged] at hplatform
    cases hplatform
  · exact absurd (lookup_defaultPolicy.mp hdefault) (by decide)

end Apim.ControlPlane
