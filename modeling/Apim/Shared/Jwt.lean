import Apim.Lib.Overlay
import Apim.Shared.Json
import Apim.Shared.Routing

/-!
# JSON web tokens

Decoding, key selection with its cache, the signature and the claims that every caller reads
(`shared/jwt.ts`). What belongs to the runtime is a parameter (`Runtime`): base64 and JSON, and the
signature check as a function of the scheme, the key, the message and the signature. How `verify`
of `node:crypto` is told the scheme is not a parameter: it is what the table of the source decides.
-/

namespace Apim.Jwt

abbrev Bytes := List UInt8

inductive Hash where
  | sha256
  | sha384
  | sha512
  deriving DecidableEq, Repr

inductive Scheme where
  | pkcs1 (hash : Hash)
  | pss (hash : Hash) (saltLength : Nat)
  | ecdsa (hash : Hash) (fixedLength : Bool)
  deriving DecidableEq, Repr

/-- `JwkKey`; `material` stands for the members that only the signature check reads. -/
structure JwkKey where
  kid : Option String
  kty : String
  crv : Option String
  use : Option String
  material : String
  deriving DecidableEq, Repr

structure Runtime where
  decodeText : String → String
  base64UrlDecode : String → Bytes
  parseJson : String → Option Json
  verifies : Scheme → JwkKey → String → Bytes → Bool

/-! ### Decoding -/

structure DecodedJwt where
  header : Json
  claims : Json
  signingInput : String
  signature : Bytes

def parts (token : String) : List String := (token.toList.splitOn '.').map String.ofList

/-- `decodeJwt` (`shared/jwt.ts:134-148`). -/
def decodeJwt (rt : Runtime) (token : String) : Option DecodedJwt :=
  match parts token with
  | [headerPart, payloadPart, signaturePart] => do
    let header ← rt.parseJson (rt.decodeText headerPart)
    let claims ← rt.parseJson (rt.decodeText payloadPart)
    some ⟨header, claims, headerPart ++ "." ++ payloadPart, rt.base64UrlDecode signaturePart⟩
  | _ => none

/-! ### Keys -/

abbrev KeyMap := List (String × JwkKey)

def setKey (map : KeyMap) (kid : String) (key : JwkKey) : KeyMap :=
  if map.any (·.1 == kid) then map.map fun row => if row.1 = kid then (kid, key) else row
  else map ++ [(kid, key)]

/-- What `refresh` makes of a key set (`shared/jwt.ts:102-107`). -/
def readKeys (keys : List JwkKey) : KeyMap :=
  (keys.filter fun key => key.use == none || key.use == some "" || key.use == some "sig").foldl
    (fun map key => setKey map (key.kid.getD "") key) []

def named (kid : Option String) : Option String := kid.filter (· != "")

/-- The key `keyFor` takes from a map: of the kid, and the first one without a kid. -/
def keyOf (map : KeyMap) (kid : Option String) : Option JwkKey :=
  match named kid with
  | some kid => map.lookup kid
  | none => map.head?.map (·.2)

structure JwksCache where
  keys : Overlay.Dict String KeyMap
  fetchedAtMs : Overlay.Dict String Nat
  minRefetchMs : Nat

/-- The key set `keyFor` decides on: the one it has when it has the key or may not ask again, and
otherwise the one it fetches; `answer` is what the endpoint gives, `none` for a failure. -/
def JwksCache.inForce (cache : JwksCache) (jwksUrl : String) (kid : Option String) (now : Nat)
    (answer : Option (List JwkKey)) : KeyMap :=
  let known := (cache.keys.lookup jwksUrl).getD []
  if (keyOf known kid).isSome then known
  else if now < (cache.fetchedAtMs.lookup jwksUrl).getD 0 + cache.minRefetchMs then known
  else match answer with
    | some keys => readKeys keys
    | none => known

/-- `keyFor` (`shared/jwt.ts:79-91`). -/
def JwksCache.keyFor (cache : JwksCache) (jwksUrl : String) (kid : Option String) (now : Nat)
    (answer : Option (List JwkKey)) : Option JwkKey :=
  let known := cache.keys.lookup jwksUrl
  match known.bind (keyOf · kid) with
  | some key => some key
  | none =>
    if now < (cache.fetchedAtMs.lookup jwksUrl).getD 0 + cache.minRefetchMs then none
    else
      match answer with
      | some keys => keyOf (readKeys keys) kid
      | none => known.bind (keyOf · kid)

/-- `keyFor` goes to the endpoint: the key is not among those it has, and it may ask again. -/
def JwksCache.asks (cache : JwksCache) (jwksUrl : String) (kid : Option String) (now : Nat) : Bool :=
  ((cache.keys.lookup jwksUrl).bind (keyOf · kid)).isNone &&
    (cache.fetchedAtMs.lookup jwksUrl).getD 0 + cache.minRefetchMs ≤ now

/-- `refresh` (`shared/jwt.ts:94-119`): a failure too counts as asked. -/
def JwksCache.refreshed (cache : JwksCache) (jwksUrl : String) (fetchedAt : Nat)
    (answer : Option (List JwkKey)) : JwksCache :=
  { cache with
    keys := match answer with
      | some keys => cache.keys.insert jwksUrl (readKeys keys)
      | none => cache.keys
    fetchedAtMs := cache.fetchedAtMs.insert jwksUrl fetchedAt }

theorem keyFor_eq (cache : JwksCache) (jwksUrl : String) (kid : Option String) (now : Nat)
    (answer : Option (List JwkKey)) :
    cache.keyFor jwksUrl kid now answer = keyOf (cache.inForce jwksUrl kid now answer) kid := by
  have hnil : keyOf [] kid = none := by
    unfold keyOf
    cases named kid <;> rfl
  have hknown : (cache.keys.lookup jwksUrl).bind (keyOf · kid) =
      keyOf ((cache.keys.lookup jwksUrl).getD []) kid := by
    cases cache.keys.lookup jwksUrl with
    | none => exact hnil.symm
    | some known => rfl
  simp only [JwksCache.keyFor, JwksCache.inForce, hknown]
  cases hkey : keyOf ((cache.keys.lookup jwksUrl).getD []) kid with
  | some key => simp [hkey]
  | none =>
    simp only [Option.isSome_none, Bool.false_eq_true, if_false]
    split
    · exact hkey.symm
    · cases answer with
      | some keys => rfl
      | none => exact hkey.symm

/-! ### The signature -/

/-- An entry of the table: the hash, and what is passed on of `padding` and `dsaEncoding`. -/
structure AlgSpec where
  hash : Hash
  padding : Option Nat
  ieeeP1363 : Bool
  deriving DecidableEq, Repr

/-- `ALG_TO_HASH` (`shared/jwt.ts:37-50`). -/
def ALG_TO_HASH : String → Option AlgSpec
  | "RS256" => some ⟨.sha256, none, false⟩
  | "RS384" => some ⟨.sha384, none, false⟩
  | "RS512" => some ⟨.sha512, none, false⟩
  | "PS256" => some ⟨.sha256, some 1, false⟩
  | "PS384" => some ⟨.sha384, some 1, false⟩
  | "PS512" => some ⟨.sha512, some 1, false⟩
  | "ES256" => some ⟨.sha256, none, true⟩
  | "ES384" => some ⟨.sha384, none, true⟩
  | "ES512" => some ⟨.sha512, none, true⟩
  | _ => none

def RSA_PKCS1_PADDING : Nat := 1
def RSA_PKCS1_PSS_PADDING : Nat := 6

def SALT_LENGTH : Nat := 32

/-- The scheme `crypto.verify` applies: the type of the key decides between RSA and ECDSA, the
padding between the two RSA schemes, and another combination throws. -/
def nodeScheme (spec : AlgSpec) (key : JwkKey) : Option Scheme :=
  match key.kty with
  | "RSA" =>
    let padding := spec.padding.getD RSA_PKCS1_PADDING
    if padding = RSA_PKCS1_PADDING then some (.pkcs1 spec.hash)
    else if padding = RSA_PKCS1_PSS_PADDING then some (.pss spec.hash SALT_LENGTH)
    else none
  | "EC" => some (.ecdsa spec.hash spec.ieeeP1363)
  | _ => none

def verifySignature (rt : Runtime) (spec : AlgSpec) (key : JwkKey) (decoded : DecodedJwt) : Bool :=
  match nodeScheme spec key with
  | some scheme => rt.verifies scheme key decoded.signingInput decoded.signature
  | none => false

def DecodedJwt.headerString (decoded : DecodedJwt) (name : String) : Option String :=
  (decoded.header.member? name).bind Json.asString?

/-- `verifyJwtSignature` (`shared/jwt.ts:157-188`), from where the header is read. -/
def verifyJwtSignature (rt : Runtime) (decoded : DecodedJwt) (jwksUrl : Option String)
    (allowedAlgorithms : List String) (jwks : JwksCache) (now : Nat)
    (answer : Option (List JwkKey)) : Bool :=
  let alg := (decoded.headerString "alg").getD ""
  match ALG_TO_HASH alg with
  | none => false
  | some spec =>
    if allowedAlgorithms.contains alg then
      match jwksUrl with
      | none => false
      | some jwksUrl =>
        if jwksUrl = "" then false
        else
          match jwks.keyFor jwksUrl (decoded.headerString "kid") now answer with
          | none => false
          | some key => verifySignature rt spec key decoded
    else false

/-! ### Claims -/

def claimMs (claims : Json) (name : String) : Option ℚ :=
  match claims.member? name with
  | some (.num seconds) => some (seconds * 1000)
  | _ => none

/-- `timeWindowOk` (`shared/jwt.ts:194-204`). -/
def timeWindowOk (claims : Json) (nowMs : Nat) (skewMs : ℚ) : Bool :=
  let expired := match claimMs claims "exp" with
    | some exp => decide (exp + skewMs < nowMs)
    | none => false
  let early := match claimMs claims "nbf" with
    | some nbf => decide (nowMs + skewMs < nbf)
    | none => false
  !expired && !early

def audiencesOf (claims : Json) : List String :=
  match claims.member? "aud" with
  | some (.arr items) => (Json.arr items).strings
  | some (.str aud) => [aud]
  | _ => []

/-! ### The schemes of JWA -/

structure Jwa where
  kty : String
  crv : Option String
  scheme : Scheme
  deriving DecidableEq, Repr

def jwa : String → Option Jwa
  | "RS256" => some ⟨"RSA", none, .pkcs1 .sha256⟩
  | "RS384" => some ⟨"RSA", none, .pkcs1 .sha384⟩
  | "RS512" => some ⟨"RSA", none, .pkcs1 .sha512⟩
  | "PS256" => some ⟨"RSA", none, .pss .sha256 32⟩
  | "PS384" => some ⟨"RSA", none, .pss .sha384 48⟩
  | "PS512" => some ⟨"RSA", none, .pss .sha512 64⟩
  | "ES256" => some ⟨"EC", some "P-256", .ecdsa .sha256 true⟩
  | "ES384" => some ⟨"EC", some "P-384", .ecdsa .sha384 true⟩
  | "ES512" => some ⟨"EC", some "P-521", .ecdsa .sha512 true⟩
  | _ => none

def Jwa.fits (a : Jwa) (key : JwkKey) : Bool :=
  key.kty == a.kty && (a.crv == none || key.crv == a.crv)

theorem jwa_isSome_iff (alg : String) : (jwa alg).isSome = true ↔ (ALG_TO_HASH alg).isSome = true := by
  unfold jwa ALG_TO_HASH
  split <;> simp

end Apim.Jwt
