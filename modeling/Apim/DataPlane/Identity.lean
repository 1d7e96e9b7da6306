import Apim.DataPlane.Route
import Apim.Lib.Guard
import Apim.Shared.Jwt

/-!
# Who is calling

The authentication methods other than the subscription key (`data-plane/src/identity.ts`). Each gives
an identity or a refusal, and the exceptions it lets through are `threw`.
-/

namespace Apim.DataPlane

open Apim.Guard Apim.Overlay

inductive AuthMethod where
  | jwt
  | basic
  | introspection
  | mtls
  deriving DecidableEq, Repr

structure ClientCertificate where
  subject : String
  issuer : String
  cn : String
  sans : List String
  thumbprint : String
  verified : Bool
  deriving DecidableEq, Repr

structure Identity where
  method : AuthMethod
  subject : String
  scopes : List String
  claims : Json
  deriving DecidableEq

inductive Refusal where
  | refused (status : Nat) (detail : String)
  | threw
  deriving DecidableEq, Repr

abbrev AuthResult := Except Refusal Identity

/-! ### Scopes -/

def trimmed (text : String) : String := String.ofList (Routing.trim text.toList)

def words (text : String) : List String :=
  ((text.toList.splitOnP Routing.isSpace).filter (· ≠ [])).map String.ofList

def presentMember (value : Json) (name : String) : Option Json :=
  (value.member? name).filter (· ≠ .null)

/-- `scopesOf` (`data-plane/src/identity.ts:51-56`). -/
def scopesOf (claims : Json) : List String :=
  match (presentMember claims "scope").or
      ((presentMember claims "scp").or (presentMember claims "scopes")) with
  | some (.str raw) => words raw
  | some (.arr items) => (Json.arr items).strings
  | _ => []

def requireScopes (required : Option (List String)) (scopes : List String) : Except Refusal Unit :=
  each (required.getD []) fun scope =>
    ensure (scopes.contains scope) (.refused 403 s!"the token is missing the scope \"{scope}\"")

theorem requireScopes_eq_ok {required : Option (List String)} {scopes : List String} {u : Unit} :
    requireScopes required scopes = .ok u ↔ ∀ scope ∈ required.getD [], scope ∈ scopes := by
  simp [requireScopes]

def subjectOf (claims : Json) : String := ((claims.member? "sub").bind Json.asString?).getD ""

/-! ### Tokens -/

def GENERIC : String := "the token was not accepted"

def audienceFor (unit : JwtAuthUnit) (issuer : ConfigIssuer) : List String :=
  (unit.audience.or issuer.audienceDefault).getD []

def skewMs (unit : JwtAuthUnit) : Nat := unit.clockSkewSec.getD 60 * 1000

/-- `verifyJwt` (`data-plane/src/identity.ts:63-116`) at `nowMs`. The key set is asked at `askedAt`,
and `answer` is what its endpoint gives then. -/
def verifyJwt (rt : Jwt.Runtime) (token : String) (unit : JwtAuthUnit) (issuer : ConfigIssuer)
    (jwks : Jwt.JwksCache) (nowMs askedAt : Nat) (answer : Option (List Jwt.JwkKey)) : AuthResult := do
  let decoded ← demand (Jwt.decodeJwt rt token) (.refused 401 GENERIC)
  ensure (decoded.header ≠ .null) .threw
  ensure (Jwt.verifyJwtSignature rt decoded issuer.jwksUrl issuer.algorithms jwks askedAt answer)
    (.refused 401 GENERIC)
  ensure (decoded.claims ≠ .null) .threw
  ensure (Jwt.timeWindowOk decoded.claims nowMs (skewMs unit)) (.refused 401 GENERIC)
  ensure (decoded.claims.member? "iss" = some (.str issuer.issuer)) (.refused 401 GENERIC)
  ensure ((audienceFor unit issuer).isEmpty ||
    (Jwt.audiencesOf decoded.claims).any (audienceFor unit issuer).contains) (.refused 401 GENERIC)
  requireScopes unit.requiredScopes (scopesOf decoded.claims)
  pure ⟨.jwt, subjectOf decoded.claims, scopesOf decoded.claims, decoded.claims⟩

/-- `bearerToken` (`data-plane/src/identity.ts:396-403`). -/
def bearerToken (headers : Headers) (headerName scheme : String) : Option String :=
  match headers.get headerName with
  | none => none
  | some raw =>
    if raw = "" then none
    else if scheme = "" then some (trimmed raw)
    else
      let front := lowerCase scheme ++ " "
      if startsWith (lowerCase raw) front then
        some (trimmed (String.ofList (raw.toList.drop front.length)))
      else none

/-- `scopeMapMisses` (`data-plane/src/identity.ts:118-138`): the missing scopes of the first entry
there is, under the operation's id or under the method of the request and the template. -/
def scopeMapMisses (unit : JwtAuthUnit) (identity : Identity) (operationId : Option String)
    (method : String) (template : Option String) : List String :=
  match unit.scopeMap with
  | none => []
  | some map =>
    let candidates := operationId.toList ++
      ((template.filter (· ≠ "")).map fun template => upperCase method ++ " " ++ template).toList
    match candidates.findSome? (fun key => map.lookup key) with
    | some required => required.filter fun scope => !identity.scopes.contains scope
    | none => []

/-! ### Shared secrets -/

/-- `createHash("sha256")` in hexadecimal, and `Buffer.from(text, "base64").toString("utf8")`. -/
structure Crypto where
  sha256Hex : String → String
  decodeBase64 : String → String

def ConfigReferences.secretHash (references : ConfigReferences) (ref : String) : Option String :=
  (references.secretHashes.lookup ref).filter (· ≠ "")

/-- `verifyBasic` (`data-plane/src/identity.ts:156-187`). -/
def verifyBasic (crypto : Crypto) (header : Option String) (unit : BasicAuthUnit)
    (references : ConfigReferences) : AuthResult := do
  let header ← demand (header.filter fun header => startsWith (lowerCase header) "basic ")
    (.refused 401 "basic authentication is required")
  let expected ← demand (references.secretHash unit.credentialRef)
    (.refused 503 s!"the credential \"{unit.credentialRef}\" is not configured on this gateway")
  let decoded := crypto.decodeBase64 (trimmed (String.ofList (header.toList.drop 6)))
  ensure (crypto.sha256Hex decoded = expected) (.refused 401 "invalid credentials")
  pure ⟨.basic, String.ofList (decoded.toList.takeWhile (· ≠ ':')), [], .obj []⟩

def secretMatches (crypto : Crypto) (value ref : String) (references : ConfigReferences) : Bool :=
  references.secretHash ref == some (crypto.sha256Hex value)

/-! ### Introspection -/

structure IntrospectionEntry where
  active : Bool
  claims : Json
  deriving DecidableEq

/-- `IntrospectionCache.check` (`data-plane/src/identity.ts:225-286`) from the entry it has found,
`none` where the endpoint could not be asked. -/
def checkIntrospection (entry : Option IntrospectionEntry) (unit : IntrospectionAuthUnit)
    (issuer : ConfigIssuer) (nowMs : Nat) : AuthResult := do
  ensure ((issuer.introspectionUrl.getD "") ≠ "")
    (.refused 503 "this issuer has no introspection endpoint configured")
  let entry ← demand entry (.refused 401 "the token could not be introspected")
  ensure entry.active (.refused 401 "the token is not active")
  ensure (Jwt.timeWindowOk entry.claims nowMs 0) (.refused 401 "the token is not active")
  requireScopes unit.requiredScopes (scopesOf entry.claims)
  pure ⟨.introspection, subjectOf entry.claims, scopesOf entry.claims, entry.claims⟩

/-! ### Client certificates -/

structure CertificateHeaders where
  dn : String
  issuer : String
  verify : String
  fingerprint : String
  san : String
  deriving DecidableEq, Repr

/-- `readCertificate` (`data-plane/src/pipeline.ts:1974-1990`); `cnOf` is the first CN of a subject. -/
def readCertificate (cnOf : String → String) (headers : Headers) (names : CertificateHeaders) :
    Option ClientCertificate :=
  match headers.get names.dn with
  | none => none
  | some subject =>
    if subject = "" then none
    else
      let verify := upperCase ((headers.get names.verify).getD "")
      some
        { subject := subject
          issuer := (headers.get names.issuer).getD ""
          cn := cnOf subject
          sans := (((headers.get names.san).getD "").toList.splitOn ',').map (fun san =>
            trimmed (String.ofList san)) |>.filter (· ≠ "")
          thumbprint := (headers.get names.fingerprint).getD ""
          verified := verify = "SUCCESS" ∨ verify = "OK" ∨ verify = "TRUE" }

def allowedBy (allowed : Option (List String)) (values : List String) : Bool :=
  match allowed with
  | none => true
  | some allowed => allowed.isEmpty || values.any allowed.contains

/-- `verifyMtls` (`data-plane/src/identity.ts:355-394`). -/
def verifyMtls (certificate : Option ClientCertificate) (unit : MtlsAuthUnit) : AuthResult := do
  let certificate ← demand certificate (.refused 401 "a verified client certificate is required")
  ensure certificate.verified
    (.refused 401 "the client certificate was not verified by the proxy")
  ensure (allowedBy unit.allowedIssuers [certificate.issuer])
    (.refused 403 "the client certificate's issuer is not allowed here")
  ensure (allowedBy unit.allowedSubjectCns [certificate.cn])
    (.refused 403 "the client certificate's subject is not allowed here")
  ensure (allowedBy unit.allowedSans certificate.sans)
    (.refused 403 "the client certificate's SANs are not allowed here")
  pure ⟨.mtls, certificate.subject, [], .obj []⟩

end Apim.DataPlane
