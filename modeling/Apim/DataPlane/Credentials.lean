import Apim.DataPlane.Gates

/-!
# Which credentials go on

The four units that a caller's credential comes in by, and what is left of it before the owner's
rules: the subscription key in its header or parameter, `Authorization` for basic and introspection,
and the header of the token. The key is taken off by itself. `Authorization` is taken off under one
flag for all four units, and a token in a header of its own is not taken off at all.
-/

namespace Apim.DataPlane

open Apim.Guard Apim.Overlay

section
variable {P : Platform} {gw : Gateway} {v : Verdicts} {req : Request}

/-! ### What is taken off -/

def JwtAuthUnit.header (unit : JwtAuthUnit) : String := unit.headerName.getD "authorization"

def takesKey (policy : PolicyDocument) (name : String) : Bool :=
  (stripsKey policy .header).any fun key => lowerCase name == lowerCase key

def takesOff (policy : PolicyDocument) (name : String) : Bool :=
  takesKey policy name || (takesAuthorization policy && lowerCase name == "authorization")

def carriedTraceState (P : Platform) (req : Request) : Option String :=
  if (P.trace (req.headers.get "traceparent")).continued then
    (req.headers.get "tracestate").bind P.traceState
  else none

def ownToHop (P : Platform) (req : Request) (name : String) : Bool :=
  HOP_BY_HOP.contains (lowerCase name) || lowerCase name == "host" ||
    lowerCase name == "content-length" ||
    (lowerCase name == "tracestate" && (carriedTraceState P req).isNone)

theorem get_strippedHeaders (policy : PolicyDocument) (compressed : Bool) (name : String) :
    (strippedHeaders P req policy compressed).get name =
      if takesOff policy name then none else (hopHeaders P req compressed).get name := by
  have hlower : lowerCase "authorization" = "authorization" := by decide
  have hkey : ∀ out : Headers, ((stripsKey policy .header).elim out out.delete).get name =
      if takesKey policy name then none else out.get name := by
    intro out
    unfold takesKey
    cases stripsKey policy .header with
    | none => rfl
    | some key => simp [Headers.get_delete]
  have hstripped : strippedHeaders P req policy compressed =
      if takesAuthorization policy then
        ((stripsKey policy .header).elim (hopHeaders P req compressed)
          (hopHeaders P req compressed).delete).delete "authorization"
      else (stripsKey policy .header).elim (hopHeaders P req compressed)
        (hopHeaders P req compressed).delete := by
    unfold strippedHeaders
    cases stripsKey policy .header <;> rfl
  rw [hstripped]
  unfold takesOff
  cases takesAuthorization policy with
  | false =>
    simp only [Bool.false_and, Bool.or_false]
    exact hkey _
  | true =>
    by_cases hname : lowerCase name = "authorization"
    · simp [Headers.get_delete, hlower, hname]
    · simp only [if_true, Headers.get_delete, hlower, if_neg hname, Bool.true_and,
        beq_eq_false_iff_ne.mpr hname, Bool.or_false]
      exact hkey _

theorem get_hopHeaders (compressed : Bool) (name : String) :
    (hopHeaders P req compressed).get name =
      if lowerCase name = "tracestate" then carriedTraceState P req
      else if lowerCase name = "traceparent" then
        some (P.trace (req.headers.get "traceparent")).header
      else if compressed = false ∧ lowerCase name = "accept-encoding" then some "identity"
      else if lowerCase name = "content-length" ∨ lowerCase name = "host" then none
      else if HOP_BY_HOP.contains (lowerCase name) then none
      else req.headers.get name := by
  have hstate : lowerCase "tracestate" = "tracestate" := by decide
  have hparent : lowerCase "traceparent" = "traceparent" := by decide
  have hencoding : lowerCase "accept-encoding" = "accept-encoding" := by decide
  have hlength : lowerCase "content-length" = "content-length" := by decide
  have hhost : lowerCase "host" = "host" := by decide
  unfold hopHeaders carriedTraceState
  simp only [Headers.get_put, hstate, Headers.get_set, hparent]
  cases compressed with
  | true =>
    simp only [if_true, Headers.get_delete, hlength, hhost, Headers.get_endToEnd]
    by_cases hl : lowerCase name = "content-length" <;> by_cases hh : lowerCase name = "host" <;>
      simp [hl, hh]
  | false =>
    simp only [Bool.false_eq_true, if_false, Headers.get_set, hencoding, Headers.get_delete, hlength,
      hhost, Headers.get_endToEnd]
    by_cases hl : lowerCase name = "content-length" <;> by_cases hh : lowerCase name = "host" <;>
      simp [hl, hh]

theorem hopHeaders_eq_none {name : String} (hin : (req.headers.get name).isSome = true)
    (compressed : Bool) :
    (hopHeaders P req compressed).get name = none ↔ ownToHop P req name = true := by
  rw [get_hopHeaders]
  unfold ownToHop
  obtain ⟨value, hvalue⟩ := Option.isSome_iff_exists.mp hin
  by_cases hstate : lowerCase name = "tracestate"
  · rw [if_pos hstate, hstate]
    have hhop : "tracestate" ∉ HOP_BY_HOP := by decide
    cases carriedTraceState P req <;> simp [hhop]
  · rw [if_neg hstate]
    by_cases hparent : lowerCase name = "traceparent"
    · rw [if_pos hparent, hparent]
      have hhop : "traceparent" ∉ HOP_BY_HOP := by decide
      simp [hhop]
    · rw [if_neg hparent]
      by_cases hencoding : lowerCase name = "accept-encoding"
      · have hhop : "accept-encoding" ∉ HOP_BY_HOP := by decide
        cases compressed <;> simp [hencoding, hhop, hvalue]
      · by_cases hlength : lowerCase name = "content-length" <;>
          by_cases hhost : lowerCase name = "host" <;>
          cases hhop : HOP_BY_HOP.contains (lowerCase name) <;>
          simp [hencoding, hlength, hhost, hhop, hstate, hvalue]

theorem strippedHeaders_eq_none {name : String} (hin : (req.headers.get name).isSome = true)
    (policy : PolicyDocument) (compressed : Bool) :
    (strippedHeaders P req policy compressed).get name = none ↔
      takesOff policy name = true ∨ ownToHop P req name = true := by
  rw [get_strippedHeaders]
  by_cases htaken : takesOff policy name = true
  · simp [htaken]
  · rw [if_neg htaken, hopHeaders_eq_none hin]
    simp [htaken]

/-! ### The credentials of a forwarded request -/

def Journey.headers (P : Platform) (v : Verdicts) (req : Request) (j : Journey) : Headers :=
  strippedHeaders P req j.admitted.route.policy
    (passCompressed v req j.admitted.route j.resolved.operation)

/-- For every unit that does not forward it, what carried its credential is gone. -/
structure Withheld (P : Platform) (v : Verdicts) (req : Request) (j : Journey) : Prop where
  keyHeader : ∀ unit, j.admitted.route.policy.subscriptionKey = some unit →
    unit.forwardCredentials ≠ some true → unit.location = .header →
    (j.headers P v req).get unit.name = none
  keyQuery : ∀ unit, j.admitted.route.policy.subscriptionKey = some unit →
    unit.forwardCredentials ≠ some true → unit.location = .query →
    (strippedQuery req j.admitted.route.policy).get unit.name = none
  basic : ∀ unit, j.admitted.route.policy.basic = some unit →
    unit.forwardCredentials ≠ some true → (j.headers P v req).get "authorization" = none
  jwt : ∀ unit, j.admitted.route.policy.jwt = some unit →
    unit.forwardCredentials ≠ some true → (j.headers P v req).get unit.header = none
  introspection : ∀ unit, j.admitted.route.policy.introspection = some unit →
    unit.forwardCredentials ≠ some true → (j.headers P v req).get "authorization" = none

/-- Where a unit keeps its credential back, the policy takes `Authorization` off, or the header the
token has of its own, unless the hop drops that header anyway. -/
structure TakesCredentials (P : Platform) (req : Request) (policy : PolicyDocument) : Prop where
  basic : ∀ unit, policy.basic = some unit → unit.forwardCredentials ≠ some true →
    takesOff policy "authorization" = true
  jwt : ∀ unit, policy.jwt = some unit → unit.forwardCredentials ≠ some true →
    takesOff policy unit.header = true ∨ ownToHop P req unit.header = true
  introspection : ∀ unit, policy.introspection = some unit → unit.forwardCredentials ≠ some true →
    takesOff policy "authorization" = true

theorem stripsKey_eq_some {policy : PolicyDocument} {unit : SubscriptionKeyUnit}
    (hunit : policy.subscriptionKey = some unit) (hforward : unit.forwardCredentials ≠ some true) :
    stripsKey policy unit.location = some unit.name := by
  have hflag : unit.forwardCredentials.getD false = false := by
    cases hvalue : unit.forwardCredentials with
    | none => rfl
    | some value =>
      cases value with
      | false => rfl
      | true => exact absurd hvalue hforward
  simp [stripsKey, hunit, hflag]

theorem isSome_of_bearerToken {headers : Headers} {name scheme token : String}
    (h : bearerToken headers name scheme = some token) : (headers.get name).isSome = true := by
  unfold bearerToken at h
  split at h
  · cases h
  · rename_i hvalue
    rw [hvalue]
    rfl

theorem isSome_of_verifyBasic {crypto : Crypto} {header : Option String} {unit : BasicAuthUnit}
    {references : ConfigReferences} {identity : Identity}
    (h : verifyBasic crypto header unit references = .ok identity) : header.isSome = true := by
  simp only [verifyBasic, bind_eq_ok, demand_eq_ok] at h
  obtain ⟨value, hvalue, _⟩ := h
  rw [(Option.filter_eq_some_iff.mp hvalue).1]
  rfl

theorem authorization_eq_none (hin : (req.headers.get "authorization").isSome = true)
    (policy : PolicyDocument) (compressed : Bool) :
    (strippedHeaders P req policy compressed).get "authorization" = none ↔
      takesOff policy "authorization" = true := by
  have hown : ownToHop P req "authorization" = false := by
    have hlower : lowerCase "authorization" = "authorization" := by decide
    have hhop : HOP_BY_HOP.contains "authorization" = false := by decide
    rw [ownToHop, hlower, hhop]
    rfl
  rw [strippedHeaders_eq_none hin, hown]
  simp

theorem withheld_iff (P : Platform) (gw : Gateway) (v : Verdicts) (req : Request) (j : Journey)
    (h : handleRequest P gw v req = .ok j) :
    Withheld P v req j ↔ TakesCredentials P req j.admitted.route.policy := by
  have haccepted := (gated_of_handleRequest P gw v req j h).passed.accepted
  have hbasic : ∀ unit, j.admitted.route.policy.basic = some unit →
      (req.headers.get "authorization").isSome = true := by
    intro unit hunit
    obtain ⟨_, _, hverified⟩ := haccepted.basic unit hunit
    exact isSome_of_verifyBasic hverified
  have hjwt : ∀ unit, j.admitted.route.policy.jwt = some unit →
      (req.headers.get unit.header).isSome = true := by
    intro unit hunit
    obtain ⟨_, _, _, _, _, htoken, _⟩ := haccepted.jwt unit hunit
    exact isSome_of_bearerToken htoken
  have hintrospection : ∀ unit, j.admitted.route.policy.introspection = some unit →
      (req.headers.get "authorization").isSome = true := by
    intro unit hunit
    obtain ⟨_, _, _, _, _, htoken, _⟩ := haccepted.introspection unit hunit
    exact isSome_of_bearerToken htoken
  constructor
  · intro hwithheld
    exact
      { basic := fun unit hunit hforward =>
          (authorization_eq_none (hbasic unit hunit) _ _).mp (hwithheld.basic unit hunit hforward)
        jwt := fun unit hunit hforward =>
          (strippedHeaders_eq_none (hjwt unit hunit) _ _).mp (hwithheld.jwt unit hunit hforward)
        introspection := fun unit hunit hforward =>
          (authorization_eq_none (hintrospection unit hunit) _ _).mp
            (hwithheld.introspection unit hunit hforward) }
  · intro htakes
    refine
      { keyHeader := ?_
        keyQuery := ?_
        basic := fun unit hunit hforward =>
          (authorization_eq_none (hbasic unit hunit) _ _).mpr (htakes.basic unit hunit hforward)
        jwt := fun unit hunit hforward =>
          (strippedHeaders_eq_none (hjwt unit hunit) _ _).mpr (htakes.jwt unit hunit hforward)
        introspection := fun unit hunit hforward =>
          (authorization_eq_none (hintrospection unit hunit) _ _).mpr
            (htakes.introspection unit hunit hforward) }
    · intro unit hunit hforward hlocation
      have hstrips := stripsKey_eq_some hunit hforward
      rw [hlocation] at hstrips
      have htaken : takesOff j.admitted.route.policy unit.name = true := by
        simp [takesOff, takesKey, hstrips]
      rw [Journey.headers, get_strippedHeaders, if_pos htaken]
    · intro unit hunit hforward hlocation
      have hstrips := stripsKey_eq_some hunit hforward
      rw [hlocation] at hstrips
      unfold strippedQuery
      rw [hstrips]
      exact Query.get_delete _ _

def mixedRoute : ConfigRoute :=
  Small.route
    { subscriptionKey := some ⟨.header, "x-api-key", some true⟩
      jwt := some { issuerRef := "idp", forwardCredentials := some false } }

def mixedRequest : Request :=
  Small.request "GET" [("x-api-key", "k-1"), ("authorization", "Bearer " ++ Small.token)]

theorem mixed_run : (handleRequest Small.platform (Small.gateway mixedRoute) Small.verdicts
    mixedRequest).toOption.map (fun j => (j.admitted.route.policy.jwt,
      (j.headers Small.platform Small.verdicts mixedRequest).get "authorization")) =
    some (mixedRoute.policy.jwt, some ("Bearer " ++ Small.token)) := by
  decide +kernel

theorem token_forwarded_with_key : ¬ ∀ j, handleRequest Small.platform (Small.gateway mixedRoute)
    Small.verdicts mixedRequest = .ok j → Withheld Small.platform Small.verdicts mixedRequest j := by
  intro h
  have hrun := mixed_run
  cases hresult : handleRequest Small.platform (Small.gateway mixedRoute) Small.verdicts
      mixedRequest with
  | error stop =>
    rw [hresult] at hrun
    cases hrun
  | ok j =>
    rw [hresult] at hrun
    obtain ⟨hunit, hheader⟩ := Prod.mk.inj (Option.some.inj hrun)
    have habsent := (h j hresult).jwt _ hunit nofun
    have hpresent : (j.headers Small.platform Small.verdicts mixedRequest).get
        "authorization" = none := habsent
    rw [hheader] at hpresent
    cases hpresent

theorem withheld_iff_mixed : ∃ j, Withheld Small.platform Small.verdicts mixedRequest j ↔
    TakesCredentials Small.platform mixedRequest j.admitted.route.policy := by
  have hrun := mixed_run
  cases hresult : handleRequest Small.platform (Small.gateway mixedRoute) Small.verdicts
      mixedRequest with
  | error stop =>
    rw [hresult] at hrun
    cases hrun
  | ok j => exact ⟨j, withheld_iff _ _ _ _ j hresult⟩

end

end Apim.DataPlane
