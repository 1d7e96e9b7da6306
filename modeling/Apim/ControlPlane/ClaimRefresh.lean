import Apim.Lib.Guard
import Apim.Shared.Jwt
import Apim.ControlPlane.Directory

/-!
# The claim re-read

The session of a user who signed in at the identity provider is refreshed on a bounded interval,
before the directory is read (`control-plane/src/auth-oidc.ts:82-426` and `634-725`,
`control-plane/src/router.ts:175-200`): the refresh token is exchanged for new tokens, the claims of
the `id_token` are applied to the account, and the row of the session is written. The provider
replaces the refresh token on every grant it honours.

A request that finds a refresh due waits for it, and the first one starts it. A refresh goes through
`discovering`, `granting` and `verifying`; each of the three ends when the provider answers, and
what follows an answer runs without being suspended. Between two answers anything else of the portal
may change the directory and the caches. Deadlines of a session are not here: only a revocation ends
one.
-/

namespace Apim.ClaimRefresh
open Guard Groups
open Overlay (Dict)

/-! ### What the portal is told -/

/-- `OidcConfig`, as far as a refresh reads it, with what `checkEgress` says of a URL. -/
structure OidcConfig where
  issuer : String
  clientId : String
  claimsRefreshSec : Nat
  roleClaim : String
  adminRole : String
  groupClaim : String
  checkEgress : String → List String

structure Discovery where
  issuer : String
  authorizationEndpoint : String
  tokenEndpoint : String
  jwksUri : String

structure DiscoveryDoc where
  issuer : Option String
  authorizationEndpoint : Option String
  tokenEndpoint : Option String
  jwksUri : Option String
  urls : List (String × String)

inductive DiscoveryAnswer where
  | denied (reason : String)
  | unreachable (message : String)
  | refused (status : Nat)
  | unreadable
  | answered (doc : DiscoveryDoc)

structure TokenResponse where
  idToken : Option String
  refreshToken : Option String

inductive GrantAnswer where
  | denied (reason : String)
  | unreachable (message : String)
  | refused (status : Nat) (code detail : String)
  | unreadable (message : String)
  | answered (tokens : TokenResponse)

/-- `HttpError`, with the member `code` of its problem document; another throw is answered as 500. -/
structure HttpError where
  status : Nat
  detail : String
  code : Option String
  deriving DecidableEq

def unauthorized (detail code : String) : HttpError := ⟨401, detail, some code⟩

def badGateway (detail : String) : HttpError := ⟨502, detail, none⟩

def serviceUnavailable (detail : String) : HttpError :=
  ⟨503, detail, some "auth_backend_unavailable"⟩

def unhandled (message : String) : HttpError := ⟨500, message, none⟩

def filled (value : Option String) : Option String := value.filter (· ≠ "")

/-! ### Discovery -/

def DISCOVERY_TTL_MS : Nat := 15 * 60000

/-- `discover` (`auth-oidc.ts:109-160`), when the cache does not answer. -/
def discover (oidc : OidcConfig) : DiscoveryAnswer → Except HttpError Discovery
  | .denied reason => .error (badGateway
      s!"the identity provider's discovery document is not reachable: {reason}")
  | .unreachable message => .error (serviceUnavailable
      s!"the identity provider did not answer at its discovery document ({message})")
  | .refused status => .error (serviceUnavailable
      s!"the identity provider's discovery document answered {status}")
  | .unreadable => .error (unhandled "the discovery document is no JSON")
  | .answered doc => do
    let issuer ← demand (filled doc.issuer) (missing "issuer")
    let authorizationEndpoint ←
      demand (filled doc.authorizationEndpoint) (missing "authorization_endpoint")
    let tokenEndpoint ← demand (filled doc.tokenEndpoint) (missing "token_endpoint")
    let jwksUri ← demand (filled doc.jwksUri) (missing "jwks_uri")
    ensure (issuer = oidc.issuer) (badGateway
      s!"the discovery document declares issuer \"{issuer}\", not the one it was fetched from")
    ensure (doc.urls.all fun url => (oidc.checkEgress url.2).isEmpty) (badGateway
      "an endpoint of the identity provider is not reachable")
    return ⟨issuer, authorizationEndpoint, tokenEndpoint, jwksUri⟩
where
  missing (field : String) : HttpError :=
    badGateway s!"the identity provider's discovery document has no \"{field}\""

/-! ### The grant -/

inductive GrantFailure where
  | grantError (status : Nat) (code detail : String)
  | http (error : HttpError)
  | other (message : String)

def GrantFailure.permanent : GrantFailure → Bool
  | .grantError status _ _ => 400 ≤ status && status < 500
  | _ => false

/-- `refreshGrant` (`auth-oidc.ts:244-308`). -/
def refreshGrant : GrantAnswer → Except GrantFailure TokenResponse
  | .denied reason => .error (.http (badGateway
      s!"the identity provider's token endpoint is not reachable: {reason}"))
  | .unreachable message => .error (.http (serviceUnavailable
      s!"the identity provider did not answer at its token endpoint ({message})"))
  | .refused status code detail => .error (.grantError status code detail)
  | .unreadable message => .error (.other message)
  | .answered tokens => .ok tokens

/-- What a failed grant is answered with (`auth-oidc.ts:679-691`). -/
def GrantFailure.answer : GrantFailure → HttpError
  | .grantError status code detail =>
    if 400 ≤ status ∧ status < 500 then
      unauthorized "your session with the identity provider has ended; sign in again"
        "session_expired"
    else serviceUnavailable
      s!"the identity provider could not be reached ({status} {code}: {detail})"
  | .http error => error
  | .other message =>
    serviceUnavailable s!"the identity provider could not be reached ({message})"

/-! ### The id token -/

def CLOCK_SKEW_MS : ℚ := 60000

def ID_TOKEN_ALGORITHMS : List String :=
  ["RS256", "RS384", "RS512", "PS256", "PS384", "PS512", "ES256", "ES384", "ES512"]

def stringClaim (claims : Json) (name : String) : Option String :=
  (claims.member? name).bind Json.asString?

def nonceOf (claims : Json) : String := (stringClaim claims "nonce").getD ""

def idTokenRejected : HttpError :=
  unauthorized "the identity provider's response was not accepted" "id_token_rejected"

/-- `verifyIdToken` (`auth-oidc.ts:351-389`) at `nowMs`; `answer` is what the key endpoint gives if
it is asked. -/
def verifyIdToken (rt : Jwt.Runtime) (idToken : String) (oidc : OidcConfig) (discovery : Discovery)
    (expectedNonce : String) (jwks : Jwt.JwksCache) (nowMs : Nat)
    (answer : Option (List Jwt.JwkKey)) : Except HttpError (String × Json) := do
  let decoded ← demand (Jwt.decodeJwt rt idToken) idTokenRejected
  ensure (Jwt.verifyJwtSignature rt decoded (some discovery.jwksUri) ID_TOKEN_ALGORITHMS jwks nowMs
    answer) idTokenRejected
  ensure (decoded.claims.member? "iss" == some (.str discovery.issuer)) idTokenRejected
  ensure ((Jwt.audiencesOf decoded.claims).contains oidc.clientId) idTokenRejected
  ensure (Jwt.timeWindowOk decoded.claims nowMs CLOCK_SKEW_MS) idTokenRejected
  ensure (Jwt.claimMs decoded.claims "exp").isSome idTokenRejected
  ensure (nonceOf decoded.claims == expectedNonce) idTokenRejected
  let sub ← demand (filled (stringClaim decoded.claims "sub")) idTokenRejected
  return (sub, decoded.claims)

def keysAfter (rt : Jwt.Runtime) (idToken : String) (discovery : Discovery) (jwks : Jwt.JwksCache)
    (nowMs fetchedAt : Nat) (answer : Option (List Jwt.JwkKey)) : Jwt.JwksCache :=
  match Jwt.decodeJwt rt idToken with
  | none => jwks
  | some decoded =>
    let alg := (decoded.headerString "alg").getD ""
    if (Jwt.ALG_TO_HASH alg).isSome ∧ ID_TOKEN_ALGORITHMS.contains alg ∧ discovery.jwksUri ≠ "" ∧
        jwks.asks discovery.jwksUri (decoded.headerString "kid") nowMs then
      jwks.refreshed discovery.jwksUri fetchedAt answer
    else jwks

/-! ### Claims -/

def claimAt (claims : Json) (path : String) : Option Json :=
  (path.toList.splitOn '.').foldl
    (fun current segment => current.bind (Json.member? (String.ofList segment))) (some claims)

def listOfStrings : Json → List String
  | .str text => ((text.toList.splitOnP Routing.isSpace).filter (· ≠ [])).map String.ofList
  | value => value.strings

/-- `ownedSubjectsAt` (`shared/jwt.ts:258-264`). -/
def ownedSubjectsAt (claims : Json) (path : String) : List String :=
  match claimAt claims path with
  | some (.obj members) => (members.flatMap fun entry => listOfStrings entry.2).foldl added []
  | some value => listOfStrings value
  | none => []

/-- `roleNamesAt` (`shared/jwt.ts:276-285`). -/
def roleNamesAt (claims : Json) (path : String) : List String :=
  match claimAt claims path with
  | some (.obj members) => (members.flatMap fun entry =>
      entry.1 :: (listOfStrings entry.2).map fun subject => subject ++ "." ++ entry.1).foldl added []
  | some value => listOfStrings value
  | none => []

/-- `claimsToIdentity` (`auth-oidc.ts:406-426`). -/
def claimsToIdentity (F : CaseFolding) (claims : Json) (oidc : OidcConfig) : ClaimIdentity :=
  let str := fun name => filled ((stringClaim claims name).map trimmed)
  let sub := (str "sub").getD ""
  let username := (str "preferred_username").getD sub
  let email := str "email"
  { username := username
    email := email
    displayName := (str "name").getD (((filled (some username)).or email).getD sub)
    isAdmin := (roleNamesAt claims oidc.roleClaim).any fun role =>
      F.toLowerCase role == F.toLowerCase oidc.adminRole
    groups := ownedSubjectsAt claims oidc.groupClaim }

def thrownByClaims (F : CaseFolding) (now : Nat) (d : Directory) (userId : String)
    (identity : ClaimIdentity) : Option String :=
  match mapGroups F (Mapping.start F d.applications) identity.groups with
  | (_, some error) => some error
  | (m, none) =>
    match syncIdpMemberships now userId m.applicationIds d.memberships with
    | .ok _ => none
    | .error error => some error

/-! ### The portal -/

inductive Provider where
  | oidc
  | locally
  | dev
  deriving DecidableEq

/-- A row of `session`; the refresh token is what `refresh_token_enc` decrypts to. -/
structure Session where
  userId : String
  provider : Provider
  refreshToken : Option String
  claimsRefreshedAt : Option Nat
  revokedAt : Option Nat

inductive Phase where
  | discovering
  | granting (discovery : Discovery)
  | verifying (discovery : Discovery) (tokens : TokenResponse) (idToken : String) (startedAt : Nat)

/-- An entry of `refreshInFlight`: the row as it was read, and how far the refresh is. -/
structure Flight where
  row : Session
  phase : Phase

abbrev RequestId := Nat

/-- One session, what its refresh reads and writes, and the last refresh token the provider issued
for it. -/
structure Portal where
  session : Session
  directory : Directory
  subjects : String → Option String
  discovered : Option (Discovery × Nat)
  jwks : Jwt.JwksCache
  flight : Option Flight
  waiting : List RequestId
  answers : List (RequestId × Nat)
  issued : String

structure World where
  rt : Jwt.Runtime
  F : CaseFolding
  oidc : OidcConfig

/-- `refreshDue` (`auth-oidc.ts:641-645`). -/
def Session.refreshDue (oidc : OidcConfig) (now : Nat) (row : Session) : Bool :=
  row.provider == .oidc && row.refreshToken.isSome &&
    row.claimsRefreshedAt.getD 0 + oidc.claimsRefreshSec * 1000 ≤ now

def Session.revoked (now : Nat) (row : Session) : Session :=
  { row with revokedAt := row.revokedAt.or (some now) }

/-- The status of a request whose claims are read: `sessionUser` has no user for a revoked session. -/
def Session.status (row : Session) : Nat := if row.revokedAt.isSome then 401 else 200

def Portal.principalBySubject (s : Portal) (sub : String) : Option (String × Principal) :=
  (s.subjects sub).bind fun id => (s.directory.principals id).map fun row => (id, row)

def Portal.settle (s : Portal) (failure : Option HttpError) : Portal :=
  { s with
    flight := none
    waiting := []
    answers := s.answers ++ s.waiting.map fun id =>
      (id, match failure with
        | none => s.session.status
        | some error => error.status) }

def Portal.revoke (s : Portal) (now : Nat) : Portal := { s with session := s.session.revoked now }

def Portal.store (s : Portal) (row : Session) (tokens : TokenResponse) (now : Nat) : Portal :=
  { s with
    session := { s.session with
      claimsRefreshedAt := some now
      refreshToken := (filled tokens.refreshToken).or row.refreshToken } }

def Portal.firstPhase (s : Portal) (now : Nat) : Phase :=
  match s.discovered with
  | some (discovery, fetchedAt) =>
    if now < fetchedAt + DISCOVERY_TTL_MS then .granting discovery else .discovering
  | none => .discovering

/-- `refreshClaimsIfDue` (`auth-oidc.ts:659-671`) for a request. -/
def Portal.request (w : World) (s : Portal) (id : RequestId) (now : Nat) : Portal :=
  if s.session.revokedAt.isSome ∨ s.session.refreshDue w.oidc now = false then
    { s with answers := s.answers ++ [(id, s.session.status)] }
  else
    { s with
      waiting := s.waiting ++ [id]
      flight := s.flight.or (some ⟨s.session, s.firstPhase now⟩) }

def Portal.afterDiscovery (w : World) (s : Portal) (row : Session) (now : Nat)
    (answer : DiscoveryAnswer) : Portal :=
  match discover w.oidc answer with
  | .ok discovery =>
    { s with discovered := some (discovery, now), flight := some ⟨row, .granting discovery⟩ }
  | .error error => s.settle (some error)

/-- `doRefresh`, from the answer of the token endpoint (`auth-oidc.ts:676-697` and `715-724`). -/
def Portal.afterGrant (s : Portal) (row : Session) (discovery : Discovery) (now : Nat)
    (answer : GrantAnswer) : Portal :=
  match refreshGrant answer with
  | .error failure =>
    if failure.permanent then (s.revoke now).settle (some failure.answer)
    else s.settle (some failure.answer)
  | .ok tokens =>
    match filled tokens.idToken with
    | none => (s.store row tokens now).settle none
    | some idToken => { s with flight := some ⟨row, .verifying discovery tokens idToken now⟩ }

/-- The nonce `doRefresh` expects; claims that are `null` have no members to read. -/
def ownNonce (rt : Jwt.Runtime) (idToken : String) : Except HttpError String :=
  match Jwt.decodeJwt rt idToken with
  | none => .ok ""
  | some decoded =>
    if decoded.claims = .null then .error (unhandled "null is not an object")
    else .ok (nonceOf decoded.claims)

def checked (w : World) (s : Portal) (discovery : Discovery) (idToken : String) (startedAt : Nat)
    (answer : Option (List Jwt.JwkKey)) : Except HttpError (String × Json) := do
  let nonce ← ownNonce w.rt idToken
  verifyIdToken w.rt idToken w.oidc discovery nonce s.jwks startedAt answer

/-- `doRefresh`, from where the claims are verified (`auth-oidc.ts:703-724`). -/
def Portal.afterVerified (w : World) (s : Portal) (row : Session) (tokens : TokenResponse)
    (now : Nat) (sub : String) (claims : Json) : Portal :=
  let other := (s.revoke now).settle (some (unauthorized
    "your session no longer matches the identity provider's account" "session_expired"))
  match s.principalBySubject sub with
  | none => other
  | some (id, principal) =>
    if id = row.userId then
      let identity := claimsToIdentity w.F claims w.oidc
      let applied := { s with directory := applyClaims w.F now s.directory id principal identity }
      match thrownByClaims w.F now s.directory id identity with
      | some error => applied.settle (some (unhandled error))
      | none => (applied.store row tokens now).settle none
    else other

def Portal.afterKeys (w : World) (s : Portal) (row : Session) (discovery : Discovery)
    (tokens : TokenResponse) (idToken : String) (startedAt now : Nat)
    (answer : Option (List Jwt.JwkKey)) : Portal :=
  let asked := { s with jwks := keysAfter w.rt idToken discovery s.jwks startedAt now answer }
  match checked w s discovery idToken startedAt answer with
  | .error error => asked.settle (some error)
  | .ok (sub, claims) => asked.afterVerified w row tokens now sub claims

/-! ### Steps -/

inductive Event where
  | request (id : RequestId) (now : Nat)
  | discovery (now : Nat) (answer : DiscoveryAnswer)
  /-- The token endpoint answers, or fails; `issued` is the token it issued for this grant. -/
  | grant (now : Nat) (answer : GrantAnswer) (issued : Option String)
  | keys (now : Nat) (answer : Option (List Jwt.JwkKey))
  | elsewhere (directory : Directory) (jwks : Jwt.JwksCache) (discovered : Option (Discovery × Nat))

def Rotates (s : Portal) (answer : GrantAnswer) (issued : Option String) : Prop :=
  (∀ token ∈ issued, token ≠ "" ∧ token ≠ s.issued) ∧
    match answer with
    | .answered tokens => issued = filled tokens.refreshToken ∧ issued.isSome
    | _ => True

instance (s : Portal) (issued : Option String) :
    (answer : GrantAnswer) → Decidable (Rotates s answer issued)
  | .answered _ => inferInstanceAs (Decidable (_ ∧ _ ∧ _))
  | .denied _ | .unreachable _ | .refused _ _ _ | .unreadable _ =>
    inferInstanceAs (Decidable (_ ∧ True))

def step (w : World) (s : Portal) : Event → Option Portal
  | .request id now => some (s.request w id now)
  | .discovery now answer =>
    match s.flight with
    | some ⟨row, .discovering⟩ => some (s.afterDiscovery w row now answer)
    | _ => none
  | .grant now answer issued =>
    match s.flight with
    | some ⟨row, .granting discovery⟩ =>
      if Rotates s answer issued then
        some ({ s with issued := issued.getD s.issued }.afterGrant row discovery now answer)
      else none
    | _ => none
  | .keys now answer =>
    match s.flight with
    | some ⟨row, .verifying discovery tokens idToken startedAt⟩ =>
      some (s.afterKeys w row discovery tokens idToken startedAt now answer)
    | _ => none
  | .elsewhere directory jwks discovered =>
    some { s with directory := directory, jwks := jwks, discovered := discovered }

end Apim.ClaimRefresh
