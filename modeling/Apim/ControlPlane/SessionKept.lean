import Apim.Lib.Trace
import Apim.ControlPlane.ClaimRefresh
import Apim.ControlPlane.Membership

/-!
# What ends a session

A session of the identity provider is to outlive every outage of the provider: no refresh revokes
it, no request of it is told to sign in again, and the refresh token of its row is the last one the
provider issued (`Kept`). The new token is in nobody's hands but the refresh's from the moment the
provider issues it until the row is written, and everything in between can fail: the answer of the
token endpoint may be lost, the keys may be out of reach, the claims may not be applicable. A run
keeps the session exactly when none of that happens (`kept_iff_delivered`); after it the next
refresh presents a token the provider has replaced, and that refresh revokes the session
(`revoked_after_outage`).
-/

namespace Apim.ClaimRefresh
open Guard Trace Groups

/-- The session is as an outage must leave it. While a refresh is under way the token of the row may
be the one before the last. -/
structure Kept (s : Portal) : Prop where
  alive : s.session.revokedAt = none
  served : ∀ answer ∈ s.answers, answer.2 ≠ 401
  stored : s.flight = none → s.session.refreshToken = some s.issued

/-- The provider never refuses the last token it issued, and never reports another subject. -/
def Cooperates (w : World) (s : Portal) : Event → Portal → Prop
  | .grant _ (.refused status _ _) _, _ =>
    400 ≤ status → status < 500 → ∀ row discovery, s.flight = some ⟨row, .granting discovery⟩ →
      row.refreshToken ≠ some s.issued
  | .keys _ _, _ =>
    ∀ row discovery tokens idToken startedAt,
      s.flight = some ⟨row, .verifying discovery tokens idToken startedAt⟩ →
        ∀ decoded, Jwt.decodeJwt w.rt idToken = some decoded →
          ∀ sub, filled (stringClaim decoded.claims "sub") = some sub →
            ∃ principal, s.principalBySubject sub = some (s.session.userId, principal)
  | _, _ => True

structure Acceptable (w : World) (s : Portal) (discovery : Discovery) (idToken : String)
    (startedAt : Nat) (answer : Option (List Jwt.JwkKey)) (decoded : Jwt.DecodedJwt) (sub : String) :
    Prop where
  decodes : Jwt.decodeJwt w.rt idToken = some decoded
  signed : Jwt.verifyJwtSignature w.rt decoded (some discovery.jwksUri) ID_TOKEN_ALGORITHMS s.jwks
    startedAt answer = true
  issuer : decoded.claims.member? "iss" = some (.str discovery.issuer)
  audience : w.oidc.clientId ∈ Jwt.audiencesOf decoded.claims
  inTime : Jwt.timeWindowOk decoded.claims startedAt CLOCK_SKEW_MS = true
  expires : (Jwt.claimMs decoded.claims "exp").isSome = true
  subject : filled (stringClaim decoded.claims "sub") = some sub

/-- A token that is issued reaches the row: the answer that carries it arrives, its `id_token` can be
checked, and the claims can be applied. -/
def Delivered (w : World) (s : Portal) : Event → Portal → Prop
  | .grant _ answer issued, _ => issued.isSome → ∃ tokens, answer = .answered tokens
  | .keys now answer, _ =>
    ∀ row discovery tokens idToken startedAt,
      s.flight = some ⟨row, .verifying discovery tokens idToken startedAt⟩ →
        ∃ decoded sub, Acceptable w s discovery idToken startedAt answer decoded sub ∧
          thrownByClaims w.F now s.directory s.session.userId
            (claimsToIdentity w.F decoded.claims w.oidc) = none
  | _, _ => True

/-! ### The check of a refreshed token -/

theorem ownNonce_of_exp {w : World} {idToken : String} {decoded : Jwt.DecodedJwt}
    (hdecoded : Jwt.decodeJwt w.rt idToken = some decoded)
    (hexpires : (Jwt.claimMs decoded.claims "exp").isSome = true) :
    ownNonce w.rt idToken = .ok (nonceOf decoded.claims) := by
  unfold ownNonce
  rw [hdecoded]
  have hobject : decoded.claims ≠ .null := by
    intro hnull
    rw [hnull] at hexpires
    cases hexpires
  exact if_neg hobject

theorem checked_eq_ok (w : World) (s : Portal) (discovery : Discovery) (idToken : String)
    (startedAt : Nat) (answer : Option (List Jwt.JwkKey)) (sub : String) (claims : Json) :
    checked w s discovery idToken startedAt answer = .ok (sub, claims) ↔
      ∃ decoded, decoded.claims = claims ∧
        Acceptable w s discovery idToken startedAt answer decoded sub := by
  simp only [checked, verifyIdToken, bind_eq_ok, demand_eq_ok, ensure_eq_ok, pure_eq_ok,
    Prod.mk.injEq, beq_iff_eq, List.contains_iff_mem]
  constructor
  · rintro ⟨nonce, hnonce, decoded, hdecoded, _, hsigned, _, hiss, _, haud, _, htime, _, hexp, _,
      -, _, hsub, rfl, rfl⟩
    exact ⟨decoded, rfl, hdecoded, hsigned, hiss, haud, htime, hexp, hsub⟩
  · rintro ⟨decoded, rfl, h⟩
    exact ⟨_, ownNonce_of_exp h.decodes h.expires, decoded, h.decodes, (), h.signed, (), h.issuer, (),
      h.audience, (), h.inTime, (), h.expires, (), rfl, sub, h.subject, rfl, rfl⟩

/-! ### What is kept along a run -/

def Phase.Holds (s : Portal) (row : Session) : Phase → Prop
  | .verifying _ tokens _ _ =>
    filled tokens.refreshToken = some s.issued ∧ s.session.refreshToken ≠ some s.issued
  | _ => row.refreshToken = some s.issued ∧ s.session.refreshToken = some s.issued

structure Sound (s : Portal) : Prop where
  alive : s.session.revokedAt = none
  served : ∀ answer ∈ s.answers, answer.2 ≠ 401
  stored : s.flight = none → s.session.refreshToken = some s.issued
  held : ∀ flight, s.flight = some flight →
    flight.row.userId = s.session.userId ∧ flight.phase.Holds s flight.row

theorem Sound.kept {s : Portal} (h : Sound s) : Kept s := ⟨h.alive, h.served, h.stored⟩

theorem sound_settle {s : Portal} {failure : Option HttpError} (halive : s.session.revokedAt = none)
    (hserved : ∀ answer ∈ s.answers, answer.2 ≠ 401)
    (hstored : s.session.refreshToken = some s.issued)
    (hfailure : ∀ error ∈ failure, error.status ≠ 401) : Sound (s.settle failure) where
  alive := halive
  served := by
    intro answer hanswer
    rcases List.mem_append.mp hanswer with hold | hnew
    · exact hserved answer hold
    · obtain ⟨id, -, rfl⟩ := List.mem_map.mp hnew
      cases failure with
      | none =>
        show s.session.status ≠ 401
        simp [Session.status, halive]
      | some error => exact hfailure error rfl
  stored := fun _ => hstored
  held := by
    intro flight hflight
    cases hflight

theorem not_kept_settle {s : Portal} {failure : Option HttpError}
    (h : s.session.refreshToken ≠ some s.issued) : ¬Kept (s.settle failure) :=
  fun hkept => h (hkept.stored rfl)

theorem revoked_refreshToken (row : Session) (now : Nat) :
    (row.revoked now).refreshToken = row.refreshToken := rfl

variable {failure : GrantFailure} {now : Nat} {answer : GrantAnswer} {row : Session}
  {tokens : TokenResponse} {discovery : Discovery}

section
variable {w : World} {s : Portal}

theorem firstPhase_cases (s : Portal) (now : Nat) :
    s.firstPhase now = .discovering ∨ ∃ discovery, s.firstPhase now = .granting discovery := by
  unfold Portal.firstPhase
  split
  · split
    · exact .inr ⟨_, rfl⟩
    · exact .inl rfl
  · exact .inl rfl

theorem sound_request {id : RequestId} (h : Sound s) : Sound (s.request w id now) := by
  unfold Portal.request
  split
  · refine ⟨h.alive, fun answer hanswer => ?_, h.stored, h.held⟩
    rcases List.mem_append.mp hanswer with hold | hnew
    · exact h.served answer hold
    · rw [List.mem_singleton.mp hnew]
      simp [Session.status, h.alive]
  · refine ⟨h.alive, h.served, fun hnone => ?_, fun flight hflight => ?_⟩
    · cases hflight : s.flight <;> rw [hflight] at hnone <;> cases hnone
    · cases hold : s.flight with
      | some old =>
        rw [hold] at hflight
        cases hflight
        exact h.held flight hold
      | none =>
        rw [hold] at hflight
        cases hflight
        have hstored := h.stored hold
        refine ⟨rfl, ?_⟩
        rcases firstPhase_cases s now with hphase | ⟨discovery, hphase⟩
        · show (s.firstPhase now).Holds _ _
          rw [hphase]
          exact ⟨hstored, hstored⟩
        · show (s.firstPhase now).Holds _ _
          rw [hphase]
          exact ⟨hstored, hstored⟩

theorem status_of_discover {oidc : OidcConfig} {answer : DiscoveryAnswer} {error : HttpError}
    (h : discover oidc answer = .error error) : error.status ≠ 401 := by
  cases answer with
  | answered doc =>
    simp only [discover, bind_eq_error, demand_eq_error, ensure_eq_error, pure_ne_error,
      and_false, exists_false, or_false] at h
    rcases h with ⟨-, rfl⟩ | ⟨_, -, ⟨-, rfl⟩ | ⟨_, -, ⟨-, rfl⟩ | ⟨_, -, ⟨-, rfl⟩ | ⟨_, -, ⟨-, rfl⟩ |
      ⟨_, -, -, rfl⟩⟩⟩⟩⟩ <;> simp [discover.missing, badGateway]
  | denied reason =>
    cases h
    simp [badGateway]
  | unreadable =>
    cases h
    simp [unhandled]
  | unreachable message =>
    cases h
    simp [serviceUnavailable]
  | refused status =>
    cases h
    simp [serviceUnavailable]

theorem sound_discovery {answer : DiscoveryAnswer} (h : Sound s)
    (hflight : s.flight = some ⟨row, .discovering⟩) : Sound (s.afterDiscovery w row now answer) := by
  obtain ⟨huser, hrow, hstored⟩ := h.held _ hflight
  unfold Portal.afterDiscovery
  split
  · refine ⟨h.alive, h.served, nofun, fun flight hnew => ?_⟩
    cases hnew
    exact ⟨huser, hrow, hstored⟩
  · rename_i error herror
    refine sound_settle h.alive h.served hstored fun error' heq => ?_
    cases heq
    exact status_of_discover herror

theorem answer_of_not_permanent (h : refreshGrant answer = .error failure)
    (hpermanent : failure.permanent = false) : failure.answer.status ≠ 401 := by
  cases answer with
  | denied reason =>
    cases h
    simp [GrantFailure.answer, badGateway]
  | unreachable message =>
    cases h
    simp [GrantFailure.answer, serviceUnavailable]
  | refused status code detail =>
    cases h
    have hnot : ¬(400 ≤ status ∧ status < 500) := by
      simpa [GrantFailure.permanent] using hpermanent
    simp [GrantFailure.answer, serviceUnavailable, hnot]
  | unreadable message =>
    cases h
    simp [GrantFailure.answer, serviceUnavailable]
  | answered tokens => cases h

theorem sound_store (halive : s.session.revokedAt = none)
    (hserved : ∀ answer ∈ s.answers, answer.2 ≠ 401)
    (htoken : filled tokens.refreshToken = some s.issued) :
    Sound ((s.store row tokens now).settle none) := by
  refine sound_settle halive hserved ?_ nofun
  show (filled tokens.refreshToken).or row.refreshToken = some s.issued
  rw [htoken, Option.some_or]

def Portal.issuedNow (s : Portal) (issued : Option String) : Portal :=
  { s with issued := issued.getD s.issued }

theorem refreshToken_of_failed (s : Portal) (row : Session) (discovery : Discovery) (now : Nat)
    (h : refreshGrant answer = .error failure) :
    (s.afterGrant row discovery now answer).flight = none ∧
      (s.afterGrant row discovery now answer).session.refreshToken = s.session.refreshToken ∧
      (s.afterGrant row discovery now answer).issued = s.issued := by
  unfold Portal.afterGrant
  rw [h]
  dsimp only
  split <;> exact ⟨rfl, rfl, rfl⟩

theorem refreshGrant_eq_ok : refreshGrant answer = .ok tokens ↔ answer = .answered tokens := by
  cases answer <;> simp [refreshGrant]

theorem permanent_of_refreshGrant (h : refreshGrant answer = .error failure)
    (hpermanent : failure.permanent = true) :
    ∃ status code detail, answer = .refused status code detail ∧ 400 ≤ status ∧ status < 500 := by
  cases answer with
  | refused status code detail =>
    cases h
    simp only [GrantFailure.permanent, Bool.and_eq_true, decide_eq_true_eq] at hpermanent
    exact ⟨status, code, detail, rfl, hpermanent⟩
  | denied reason =>
    cases h
    cases hpermanent
  | unreachable message =>
    cases h
    cases hpermanent
  | unreadable message =>
    cases h
    cases hpermanent
  | answered tokens => cases h

theorem sound_grant {issued : Option String} {next : Portal} (h : Sound s)
    (hflight : s.flight = some ⟨row, .granting discovery⟩) (hrotates : Rotates s answer issued)
    (hcooperates : Cooperates w s (.grant now answer issued) next)
    (hdelivered : issued.isSome → ∃ tokens, answer = .answered tokens) :
    Sound ((s.issuedNow issued).afterGrant row discovery now answer) := by
  obtain ⟨huser, hrow, hstored⟩ := h.held _ hflight
  cases hgrant : refreshGrant answer with
  | error failure =>
    -- nothing was issued, since what is issued is delivered
    have hnone : issued = none := by
      cases hissued : issued with
      | none => rfl
      | some token =>
        obtain ⟨tokens, rfl⟩ := hdelivered (by rw [hissued]; rfl)
        cases hgrant
    subst hnone
    have hpermanent : failure.permanent = false := by
      cases hfailure : failure.permanent with
      | false => rfl
      | true =>
        obtain ⟨status, code, detail, rfl, hlow, hhigh⟩ := permanent_of_refreshGrant hgrant hfailure
        exact absurd hrow (hcooperates hlow hhigh row discovery hflight)
    unfold Portal.afterGrant
    rw [hgrant]
    dsimp only
    rw [hpermanent, if_neg Bool.false_ne_true]
    refine sound_settle h.alive h.served hstored fun error heq => ?_
    cases heq
    exact answer_of_not_permanent hgrant hpermanent
  | ok tokens =>
    obtain rfl := refreshGrant_eq_ok.mp hgrant
    obtain ⟨hnew, htoken, hsome⟩ := hrotates
    obtain ⟨token, rfl⟩ := Option.isSome_iff_exists.mp hsome
    unfold Portal.afterGrant
    rw [hgrant]
    dsimp only
    split
    · exact sound_store h.alive h.served htoken.symm
    · refine ⟨h.alive, h.served, nofun, fun flight hheld => ?_⟩
      cases hheld
      refine ⟨huser, htoken.symm, ?_⟩
      show s.session.refreshToken ≠ some token
      rw [hstored]
      exact fun heq => (hnew token rfl).2 (Option.some.inj heq).symm

theorem delivered_of_kept_grant {issued : Option String} (h : Sound s)
    (hflight : s.flight = some ⟨row, .granting discovery⟩) (hrotates : Rotates s answer issued)
    (hkept : Kept ((s.issuedNow issued).afterGrant row discovery now answer))
    (hissued : issued.isSome) : ∃ tokens, answer = .answered tokens := by
  obtain ⟨-, -, hstored⟩ := h.held _ hflight
  obtain ⟨token, rfl⟩ := Option.isSome_iff_exists.mp hissued
  cases hgrant : refreshGrant answer with
  | ok tokens => exact ⟨tokens, refreshGrant_eq_ok.mp hgrant⟩
  | error failure =>
    obtain ⟨hnone, hsame, hlast⟩ :=
      refreshToken_of_failed (s.issuedNow (some token)) row discovery now hgrant
    have hbad := hkept.stored hnone
    rw [hsame, hlast] at hbad
    have hlost : s.session.refreshToken = some token := hbad
    rw [hstored] at hlost
    exact absurd (Option.some.inj hlost).symm (hrotates.1 token rfl).2

theorem afterVerified_of_applied (tokens : TokenResponse) {sub : String}
    {claims : Json} {principal : Principal}
    (hprincipal : s.principalBySubject sub = some (row.userId, principal))
    (hthrown : thrownByClaims w.F now s.directory row.userId (claimsToIdentity w.F claims w.oidc) =
      none) :
    ∃ directory, s.afterVerified w row tokens now sub claims =
      (({ s with directory := directory } : Portal).store row tokens now).settle none := by
  unfold Portal.afterVerified
  rw [hprincipal]
  dsimp only
  rw [if_pos rfl, hthrown]
  exact ⟨_, rfl⟩

theorem refreshToken_of_thrown (s : Portal) (tokens : TokenResponse)
    {sub : String} {claims : Json} (h : ∀ principal, s.principalBySubject sub = some (row.userId, principal) →
      thrownByClaims w.F now s.directory row.userId (claimsToIdentity w.F claims w.oidc) ≠ none) :
    (s.afterVerified w row tokens now sub claims).flight = none ∧
      (s.afterVerified w row tokens now sub claims).session.refreshToken = s.session.refreshToken ∧
      (s.afterVerified w row tokens now sub claims).issued = s.issued := by
  unfold Portal.afterVerified
  dsimp only
  split
  · exact ⟨rfl, rfl, rfl⟩
  · rename_i id principal hprincipal
    split
    · rename_i hid
      subst hid
      split
      · exact ⟨rfl, rfl, rfl⟩
      · rename_i hnone
        exact absurd hnone (h principal hprincipal)
    · exact ⟨rfl, rfl, rfl⟩

theorem sound_keys {idToken : String} {startedAt : Nat} {answer : Option (List Jwt.JwkKey)}
    (h : Sound s) (hflight : s.flight = some ⟨row, .verifying discovery tokens idToken startedAt⟩)
    (hcooperates : Cooperates w s (.keys now answer) s)
    (hdelivered : Delivered w s (.keys now answer) s) :
    Sound (s.afterKeys w row discovery tokens idToken startedAt now answer) := by
  obtain ⟨huser, htoken, -⟩ := h.held _ hflight
  obtain ⟨decoded, sub, haccepted, hthrown⟩ :=
    hdelivered row discovery tokens idToken startedAt hflight
  obtain ⟨principal, hprincipal⟩ := hcooperates row discovery tokens idToken startedAt hflight decoded
    haccepted.decodes sub haccepted.subject
  have hchecked := (checked_eq_ok w s discovery idToken startedAt answer sub decoded.claims).mpr
    ⟨decoded, rfl, haccepted⟩
  dsimp only at huser
  rw [← huser] at hprincipal hthrown
  unfold Portal.afterKeys
  rw [hchecked]
  dsimp only
  obtain ⟨directory, hafter⟩ := afterVerified_of_applied
    (s := { s with jwks := keysAfter w.rt idToken discovery s.jwks startedAt now answer }) tokens
    hprincipal hthrown
  rw [hafter]
  exact sound_store h.alive h.served htoken

theorem delivered_of_kept_keys {idToken : String} {startedAt : Nat}
    {answer : Option (List Jwt.JwkKey)} (h : Sound s)
    (hflight : s.flight = some ⟨row, .verifying discovery tokens idToken startedAt⟩)
    (hkept : Kept (s.afterKeys w row discovery tokens idToken startedAt now answer)) :
    ∃ decoded sub, Acceptable w s discovery idToken startedAt answer decoded sub ∧
      thrownByClaims w.F now s.directory s.session.userId
        (claimsToIdentity w.F decoded.claims w.oidc) = none := by
  obtain ⟨huser, -, hbehind⟩ := h.held _ hflight
  unfold Portal.afterKeys at hkept
  cases hchecked : checked w s discovery idToken startedAt answer with
  | error error =>
    rw [hchecked] at hkept
    exact absurd hkept (not_kept_settle hbehind)
  | ok verified =>
    obtain ⟨sub, claims⟩ := verified
    rw [hchecked] at hkept
    dsimp only at hkept huser
    obtain ⟨decoded, rfl, haccepted⟩ := (checked_eq_ok w s discovery idToken startedAt answer sub
      claims).mp hchecked
    refine ⟨decoded, sub, haccepted, ?_⟩
    rw [← huser]
    by_contra hthrown
    obtain ⟨hnone, hsame, hlast⟩ := refreshToken_of_thrown
      { s with jwks := keysAfter w.rt idToken discovery s.jwks startedAt now answer } tokens
      fun _ _ => hthrown
    have hbad := hkept.stored hnone
    rw [hsame, hlast] at hbad
    exact hbehind hbad

/-! ### Runs -/

theorem sound_step {event : Event} {next : Portal} (h : Sound s)
    (hcooperates : Cooperates w s event next) (hstep : step w s event = some next)
    (hdelivered : Delivered w s event next) : Sound next := by
  cases event with
  | request id now =>
    cases hstep
    exact sound_request h
  | discovery now answer =>
    unfold step at hstep
    dsimp only at hstep
    split at hstep
    · rename_i row hflight
      cases hstep
      exact sound_discovery h hflight
    · cases hstep
  | grant now answer issued =>
    unfold step at hstep
    dsimp only at hstep
    split at hstep
    · rename_i row discovery hflight
      split at hstep
      · rename_i hrotates
        cases hstep
        exact sound_grant h hflight hrotates hcooperates hdelivered
      · cases hstep
    · cases hstep
  | keys now answer =>
    unfold step at hstep
    dsimp only at hstep
    split at hstep
    · rename_i row discovery tokens idToken startedAt hflight
      cases hstep
      exact sound_keys h hflight hcooperates hdelivered
    · cases hstep
  | elsewhere directory jwks discovered =>
    cases hstep
    exact ⟨h.alive, h.served, h.stored, h.held⟩

theorem delivered_of_kept {event : Event} {next : Portal} (h : Sound s)
    (hstep : step w s event = some next) (hkept : Kept next) : Delivered w s event next := by
  cases event with
  | request id now => trivial
  | discovery now answer => trivial
  | grant now answer issued =>
    unfold step at hstep
    dsimp only at hstep
    split at hstep
    · rename_i row discovery hflight
      split at hstep
      · rename_i hrotates
        cases hstep
        exact delivered_of_kept_grant h hflight hrotates hkept
      · cases hstep
    · cases hstep
  | keys now answer =>
    unfold step at hstep
    dsimp only at hstep
    split at hstep
    · rename_i row discovery tokens idToken startedAt hflight
      cases hstep
      intro row' discovery' tokens' idToken' startedAt' hflight'
      rw [hflight] at hflight'
      cases hflight'
      exact delivered_of_kept_keys h hflight hkept
    · cases hstep
  | elsewhere directory jwks discovered => trivial

end

structure SignedIn (s : Portal) : Prop where
  alive : s.session.revokedAt = none
  stored : s.session.refreshToken = some s.issued
  idle : s.flight = none
  unanswered : s.answers = []

theorem kept_iff_delivered (w : World) (s : Portal) (events : List Event) (hs : SignedIn s)
    (hcooperates : EveryStep (step w) (Cooperates w) s events) :
    EveryStep (step w) (fun _ _ next => Kept next) s events ↔
      EveryStep (step w) (Delivered w) s events := by
  have hsound : Sound s := by
    refine ⟨hs.alive, ?_, fun _ => hs.stored, ?_⟩
    · rw [hs.unanswered]
      exact nofun
    · rw [hs.idle]
      exact nofun
  refine (everyStep_congr_of_guarded (P := Delivered w) (Q := fun _ _ next => Kept next)
    (G := Cooperates w) (I := Sound) ?_ ?_ hsound hcooperates).symm
  · exact fun _ _ _ h hc hstep hdelivered => sound_step h hc hstep hdelivered
  · intro _ _ _ h hc hstep
    exact ⟨fun hdelivered => (sound_step h hc hstep hdelivered).kept, delivered_of_kept h hstep⟩

/-! ### An outage of the key endpoint -/

def adaClaims : Json :=
  .obj [("iss", .str "https://idp"), ("aud", .str "portal"), ("exp", .num 5000), ("sub", .str "ada")]

def plainRuntime : Jwt.Runtime where
  decodeText := fun text => text
  base64UrlDecode := fun _ => []
  parseJson := fun text =>
    if text = "header" then some (.obj [("alg", .str "RS256"), ("kid", .str "k1")])
    else if text = "claims" then some adaClaims
    else none
  verifies := fun _ _ _ _ => true

def plainWorld : World where
  rt := plainRuntime
  F := CaseFolding.umlaut
  oidc := ⟨"https://idp", "portal", 300, "roles", "admin", "groups", fun _ => []⟩

def signedIn : Portal where
  session := ⟨"ada", .oidc, some "first", none, none⟩
  directory := newDirectory
  subjects := fun sub => if sub = "ada" then some "ada" else none
  discovered := none
  jwks := ⟨∅, ∅, 60000⟩
  flight := none
  waiting := []
  answers := []
  issued := "first"

theorem signedIn_signedIn : SignedIn signedIn := ⟨rfl, rfl, rfl, rfl⟩

def discoveryDoc : DiscoveryAnswer :=
  .answered ⟨some "https://idp", some "https://idp/auth", some "https://idp/token",
    some "https://idp/keys", []⟩

theorem kept_signedIn : EveryStep (step plainWorld) (fun _ _ next => Kept next) signedIn
    [.request 1 1000000, .discovery 1000100 discoveryDoc,
      .grant 1000200 (.answered ⟨none, some "second"⟩) (some "second")] := by
  refine (kept_iff_delivered plainWorld signedIn _ signedIn_signedIn ?_).mpr ?_
  · exact fun _ _ => ⟨trivial, fun _ _ => ⟨trivial, fun _ _ => ⟨trivial, trivial⟩⟩⟩
  · exact fun _ _ => ⟨trivial, fun _ _ => ⟨trivial, fun _ _ => ⟨fun _ => ⟨_, rfl⟩, trivial⟩⟩⟩

def cooperates (w : World) (s : Portal) : Event → Bool
  | .grant _ (.refused status _ _) _ =>
    !(400 ≤ status && status < 500) || match s.flight with
      | some ⟨row, .granting _⟩ => row.refreshToken != some s.issued
      | _ => true
  | .keys _ _ =>
    match s.flight with
    | some ⟨_, .verifying _ _ idToken _⟩ => (Jwt.decodeJwt w.rt idToken).all fun decoded =>
        (filled (stringClaim decoded.claims "sub")).all fun sub =>
          (s.principalBySubject sub).any (·.1 == s.session.userId)
    | _ => true
  | _ => true

theorem cooperates_sound (w : World) (s : Portal) (event : Event) (next : Portal)
    (h : cooperates w s event = true) : Cooperates w s event next := by
  cases event with
  | grant now answer issued =>
    cases answer with
    | refused status code detail =>
      intro hlow hhigh row discovery hflight
      simpa [cooperates, hlow, hhigh, hflight] using h
    | denied reason => trivial
    | unreachable message => trivial
    | unreadable message => trivial
    | answered tokens => trivial
  | keys now answer =>
    intro row discovery tokens idToken startedAt hflight decoded hdecoded sub hsub
    simp only [cooperates, hflight, hdecoded, hsub, Option.all_some, Option.any_eq_true,
      beq_iff_eq] at h
    obtain ⟨⟨id, principal⟩, hprincipal, hid⟩ := h
    dsimp only at hid
    exact ⟨principal, hid ▸ hprincipal⟩
  | request id now => trivial
  | discovery now answer => trivial
  | elsewhere directory jwks discovered => trivial

theorem revoked_after_outage : ¬∀ (w : World) (s : Portal) (events : List Event), SignedIn s →
    EveryStep (step w) (Cooperates w) s events →
      EveryStep (step w) (fun _ _ next => Kept next) s events := by
  intro hall
  have hrun := hall plainWorld signedIn
    ([.request 1 1000000, .discovery 1000100 discoveryDoc,
      .grant 1000200 (.answered ⟨some "header.claims.signature", some "second"⟩) (some "second"),
      .keys 1000300 none, .request 2 1100000] ++
        [.grant 1100100 (.refused 400 "invalid_grant" "Token is not active") none])
    signedIn_signedIn (everyStep_of_passes (cooperates plainWorld) (cooperates_sound plainWorld)
      (by decide +kernel))
  refine not_everyStep_of_observed (P := fun _ _ next => Kept next)
    (fun _ s => s.session.revokedAt.isSome) (fun _ s hrevoked hkept => ?_) (by decide +kernel) hrun
  rw [hkept.alive] at hrevoked
  cases hrevoked

end Apim.ClaimRefresh
