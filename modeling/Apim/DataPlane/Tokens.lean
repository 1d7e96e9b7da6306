import Apim.DataPlane.Identity

/-!
# What a token has to be

The policy of a JWT unit in its own terms, with the scheme of every algorithm and its key as JWA has
them, and `verifyJwt` against it. The claims are read alike by both. The signature is not: the table
and the type of the key decide the scheme that is applied, and without a kid the first key of the
set is taken.
-/

namespace Apim.DataPlane

open Apim.Guard Apim.Jwt

/-! ### The policy -/

def issuerKeys (jwks : JwksCache) (issuer : ConfigIssuer) (askedAt : Nat)
    (answer : Option (List JwkKey)) (decoded : DecodedJwt) : KeyMap :=
  match issuer.jwksUrl with
  | none => []
  | some jwksUrl =>
    if jwksUrl = "" then []
    else jwks.inForce jwksUrl (decoded.headerString "kid") askedAt answer

def algOf (decoded : DecodedJwt) : String := (decoded.headerString "alg").getD ""

def candidate (keys : KeyMap) (kid : Option String) : Option JwkKey :=
  match named kid with
  | some kid => keys.lookup kid
  | none =>
    match keys with
    | [row] => some row.2
    | _ => none

structure WellFormed (rt : Runtime) (token : String) (decoded : DecodedJwt) : Prop where
  parts : ∃ header payload signature, parts token = [header, payload, signature] ∧
    rt.parseJson (rt.decodeText header) = some decoded.header ∧
    rt.parseJson (rt.decodeText payload) = some decoded.claims ∧
    decoded.signingInput = header ++ "." ++ payload ∧
    decoded.signature = rt.base64UrlDecode signature
  header : ∃ members, decoded.header = .obj members
  claims : ∃ members, decoded.claims = .obj members

structure Meets (rt : Runtime) (token : String) (unit : JwtAuthUnit) (issuer : ConfigIssuer)
    (nowMs : Nat) (decoded : DecodedJwt) : Prop where
  wellFormed : WellFormed rt token decoded
  algorithm : algOf decoded ∈ issuer.algorithms ∧ (jwa (algOf decoded)).isSome = true
  notExpired : ∀ exp, claimMs decoded.claims "exp" = some exp → (nowMs : ℚ) ≤ exp + skewMs unit
  notEarly : ∀ nbf, claimMs decoded.claims "nbf" = some nbf → nbf ≤ (nowMs : ℚ) + skewMs unit
  issued : decoded.claims.member? "iss" = some (.str issuer.issuer)
  audience : audienceFor unit issuer = [] ∨
    ∃ aud ∈ audiencesOf decoded.claims, aud ∈ audienceFor unit issuer
  scopes : ∀ scope ∈ unit.requiredScopes.getD [], scope ∈ scopesOf decoded.claims

/-- The signature verifies with the candidate key, under the scheme of the algorithm. -/
def JwaSigned (rt : Runtime) (keys : KeyMap) (decoded : DecodedJwt) : Prop :=
  ∃ key a, candidate keys (decoded.headerString "kid") = some key ∧
    jwa (algOf decoded) = some a ∧ a.fits key = true ∧
    rt.verifies a.scheme key decoded.signingInput decoded.signature = true

/-- The signature verifies with the key that is taken, under the scheme that is applied to it. -/
def NodeSigned (rt : Runtime) (keys : KeyMap) (decoded : DecodedJwt) : Prop :=
  ∃ key spec scheme, keyOf keys (decoded.headerString "kid") = some key ∧
    ALG_TO_HASH (algOf decoded) = some spec ∧ nodeScheme spec key = some scheme ∧
    rt.verifies scheme key decoded.signingInput decoded.signature = true

/-! ### What `verifyJwt` has passed -/

variable {rt : Runtime} {decoded : DecodedJwt}

theorem decodeJwt_eq_some {token : String} :
    decodeJwt rt token = some decoded ↔
      ∃ header payload signature, parts token = [header, payload, signature] ∧
        rt.parseJson (rt.decodeText header) = some decoded.header ∧
        rt.parseJson (rt.decodeText payload) = some decoded.claims ∧
        decoded.signingInput = header ++ "." ++ payload ∧
        decoded.signature = rt.base64UrlDecode signature := by
  obtain ⟨h, c, i, s⟩ := decoded
  unfold decodeJwt
  split
  · rename_i header payload signature hparts
    simp only [Option.bind_eq_bind, Option.bind_eq_some_iff, Option.some.injEq, DecodedJwt.mk.injEq,
      hparts, List.cons.injEq, and_true]
    constructor
    · rintro ⟨h', hh, c', hc, rfl, rfl, rfl, rfl⟩
      exact ⟨header, payload, signature, ⟨rfl, rfl, rfl⟩, hh, hc, rfl, rfl⟩
    · rintro ⟨_, _, _, ⟨rfl, rfl, rfl⟩, hh, hc, rfl, rfl⟩
      exact ⟨h, hh, c, hc, rfl, rfl, rfl, rfl⟩
  · rename_i hparts
    constructor
    · intro h
      cases h
    · rintro ⟨header, payload, signature, h, _⟩
      exact absurd h (hparts header payload signature)

theorem verifySignature_iff {spec : AlgSpec} {key : JwkKey} :
    verifySignature rt spec key decoded = true ↔
      ∃ scheme, nodeScheme spec key = some scheme ∧
        rt.verifies scheme key decoded.signingInput decoded.signature = true := by
  unfold verifySignature
  cases nodeScheme spec key <;> simp

variable {issuer : ConfigIssuer}

theorem verifyJwtSignature_iff {jwks : JwksCache} {askedAt : Nat} {answer : Option (List JwkKey)} :
    verifyJwtSignature rt decoded issuer.jwksUrl issuer.algorithms jwks askedAt answer = true ↔
      algOf decoded ∈ issuer.algorithms ∧
        NodeSigned rt (issuerKeys jwks issuer askedAt answer decoded) decoded := by
  have hnil : ∀ kid, keyOf [] kid = none := fun kid => by
    unfold keyOf
    cases named kid <;> rfl
  unfold verifyJwtSignature NodeSigned issuerKeys
  rw [show (decoded.headerString "alg").getD "" = algOf decoded from rfl]
  cases halg : ALG_TO_HASH (algOf decoded) with
  | none => simp [halg]
  | some spec =>
    by_cases hallowed : algOf decoded ∈ issuer.algorithms
    · cases hurl : issuer.jwksUrl with
      | none => simp [halg, hnil]
      | some url =>
        by_cases hempty : url = ""
        · simp [halg, hempty, hnil]
        · cases hkey : keyOf (jwks.inForce url (decoded.headerString "kid") askedAt answer)
              (decoded.headerString "kid") with
          | none => simp [halg, hallowed, hempty, keyFor_eq, hkey]
          | some key => simp [halg, hallowed, hempty, keyFor_eq, hkey, verifySignature_iff]
    · simp [halg, hallowed]

theorem timeWindowOk_iff {claims : Json} {nowMs : Nat} {skew : ℚ} :
    timeWindowOk claims nowMs skew = true ↔
      (∀ exp, claimMs claims "exp" = some exp → (nowMs : ℚ) ≤ exp + skew) ∧
        ∀ nbf, claimMs claims "nbf" = some nbf → nbf ≤ (nowMs : ℚ) + skew := by
  unfold timeWindowOk
  cases claimMs claims "exp" <;> cases claimMs claims "nbf" <;> simp [Rat.not_lt]

theorem obj_of_member? {value member : Json} {name : String} (h : value.member? name = some member) :
    ∃ members, value = .obj members := by
  cases value with
  | obj members => exact ⟨members, rfl⟩
  | null | bool | num | str | arr => cases h

theorem header_obj_of_algorithm (h : (jwa (algOf decoded)).isSome = true) :
    ∃ members, decoded.header = .obj members := by
  cases hmember : decoded.header.member? "alg" with
  | some member => exact obj_of_member? hmember
  | none =>
    have halg : algOf decoded = "" := by
      rw [algOf, DecodedJwt.headerString, hmember]
      rfl
    rw [halg] at h
    cases h

theorem verifyJwt_ok_iff {token : String} {unit : JwtAuthUnit} {jwks : JwksCache}
    {nowMs askedAt : Nat} {answer : Option (List JwkKey)} :
    (∃ identity, verifyJwt rt token unit issuer jwks nowMs askedAt answer = .ok identity) ↔
      ∃ decoded, Meets rt token unit issuer nowMs decoded ∧
        NodeSigned rt (issuerKeys jwks issuer askedAt answer decoded) decoded := by
  simp only [verifyJwt, bind_eq_ok, demand_eq_ok, ensure_eq_ok, pure_eq_ok, requireScopes_eq_ok,
    decide_eq_true_eq, verifyJwtSignature_iff, timeWindowOk_iff]
  constructor
  · rintro ⟨_, decoded, hdecoded, _, -, _, ⟨hallowed, hsigned⟩, _, -, _, ⟨hexp, hnbf⟩, _, hiss, _,
      haud, _, hscopes, -⟩
    have hjwa : (jwa (algOf decoded)).isSome = true := by
      obtain ⟨_, spec, _, _, halg, _⟩ := hsigned
      exact (jwa_isSome_iff _).mpr (by rw [halg]; rfl)
    refine ⟨decoded, ⟨⟨decodeJwt_eq_some.mp hdecoded, header_obj_of_algorithm hjwa,
      obj_of_member? hiss⟩, ⟨hallowed, hjwa⟩, hexp, hnbf, hiss, ?_, hscopes⟩, hsigned⟩
    simpa using haud
  · rintro ⟨decoded, hmeets, hsigned⟩
    obtain ⟨_, hheader⟩ := hmeets.wellFormed.header
    obtain ⟨_, hclaims⟩ := hmeets.wellFormed.claims
    refine ⟨_, decoded, decodeJwt_eq_some.mpr hmeets.wellFormed.parts, (), ?_, (),
      ⟨hmeets.algorithm.1, hsigned⟩, (), ?_, (), ⟨hmeets.notExpired, hmeets.notEarly⟩, (),
      hmeets.issued, (), ?_, (), hmeets.scopes, rfl⟩
    · simp [hheader]
    · simp [hclaims]
    · simpa using hmeets.audience

/-! ### Where the two signatures are one -/

def padded (alg : String) : Bool := ((ALG_TO_HASH alg).bind (·.padding)).isSome

/-- The key that is taken is the one the token names, its type and its curve are those of the
algorithm, and the algorithm has no padding of its own. -/
def ReadAsMeant (keys : KeyMap) (decoded : DecodedJwt) : Prop :=
  padded (algOf decoded) = false ∧
    ∀ key, keyOf keys (decoded.headerString "kid") = some key →
      candidate keys (decoded.headerString "kid") = some key ∧
        ∀ a, jwa (algOf decoded) = some a → a.fits key = true

theorem keyOf_of_candidate {keys : KeyMap} {kid : Option String} {key : JwkKey}
    (h : candidate keys kid = some key) : keyOf keys kid = some key := by
  unfold candidate at h
  unfold keyOf
  cases hkid : named kid with
  | some kid =>
    rw [hkid] at h
    exact h
  | none =>
    rw [hkid] at h
    match keys, h with
    | [row], h => exact h

theorem nodeScheme_of_fits {alg : String} {spec : AlgSpec} {a : Jwa} {key : JwkKey}
    (hspec : ALG_TO_HASH alg = some spec) (hjwa : jwa alg = some a) (hpad : padded alg = false)
    (hfits : a.fits key = true) : nodeScheme spec key = some a.scheme := by
  have hkty : key.kty = a.kty := by
    have h := (Bool.and_eq_true _ _ ▸ hfits).1
    exact eq_of_beq h
  unfold ALG_TO_HASH at hspec
  split at hspec <;> cases hspec <;> cases hjwa <;>
    first
      | (rw [nodeScheme, hkty]; rfl)
      | cases hpad

theorem nodeSigned_iff_of_readAsMeant {keys : KeyMap} (h : ReadAsMeant keys decoded) :
    NodeSigned rt keys decoded ↔ JwaSigned rt keys decoded := by
  obtain ⟨hpad, hkey⟩ := h
  constructor
  · rintro ⟨key, spec, scheme, htaken, hspec, hscheme, hverifies⟩
    obtain ⟨a, hjwa⟩ := Option.isSome_iff_exists.mp ((jwa_isSome_iff _).mpr (by rw [hspec]; rfl))
    obtain ⟨hcandidate, hfits⟩ := hkey key htaken
    rw [nodeScheme_of_fits hspec hjwa hpad (hfits a hjwa), Option.some.injEq] at hscheme
    exact ⟨key, a, hcandidate, hjwa, hfits a hjwa, hscheme ▸ hverifies⟩
  · rintro ⟨key, a, hcandidate, hjwa, hfits, hverifies⟩
    obtain ⟨spec, hspec⟩ := Option.isSome_iff_exists.mp ((jwa_isSome_iff _).mp (by rw [hjwa]; rfl))
    exact ⟨key, spec, a.scheme, keyOf_of_candidate hcandidate, hspec,
      nodeScheme_of_fits hspec hjwa hpad hfits, hverifies⟩

theorem decoded_unique {token : String} {unit : JwtAuthUnit} {nowMs : Nat} {d e : DecodedJwt}
    (hd : Meets rt token unit issuer nowMs d) (he : Meets rt token unit issuer nowMs e) : d = e := by
  have hd := decodeJwt_eq_some.mpr hd.wellFormed.parts
  have he := decodeJwt_eq_some.mpr he.wellFormed.parts
  exact Option.some.inj (hd.symm.trans he)

/-- A runtime that reads one token, whose signature verifies under PSS and nothing else. -/
def pssRuntime : Runtime where
  decodeText := fun part =>
    if part = "eyJhbGciOiJQUzI1NiIsImtpZCI6ImsxIn0" then "\x7b\"alg\":\"PS256\",\"kid\":\"k1\"\x7d"
    else if part = "eyJpc3MiOiJodHRwczovL2lkcCJ9" then "\x7b\"iss\":\"https://idp\"\x7d"
    else ""
  base64UrlDecode := fun _ => [1]
  parseJson := fun text =>
    if text = "\x7b\"alg\":\"PS256\",\"kid\":\"k1\"\x7d" then
      some (.obj [("alg", .str "PS256"), ("kid", .str "k1")])
    else if text = "\x7b\"iss\":\"https://idp\"\x7d" then some (.obj [("iss", .str "https://idp")])
    else none
  verifies := fun scheme key input signature =>
    scheme = .pss .sha256 32 ∧ key.kty = "RSA" ∧ signature = [1] ∧
      input = "eyJhbGciOiJQUzI1NiIsImtpZCI6ImsxIn0.eyJpc3MiOiJodHRwczovL2lkcCJ9"

def pssToken : String := "eyJhbGciOiJQUzI1NiIsImtpZCI6ImsxIn0.eyJpc3MiOiJodHRwczovL2lkcCJ9.AQ"

def pssUnit : JwtAuthUnit := { issuerRef := "idp" }

def pssIssuer : ConfigIssuer := ⟨"https://idp", some "https://idp/jwks", ["PS256"], none, none⟩

def pssAnswer : List JwkKey := [⟨some "k1", "RSA", none, some "sig", "n"⟩]

def pssDecoded : DecodedJwt :=
  ⟨.obj [("alg", .str "PS256"), ("kid", .str "k1")], .obj [("iss", .str "https://idp")],
    "eyJhbGciOiJQUzI1NiIsImtpZCI6ImsxIn0.eyJpc3MiOiJodHRwczovL2lkcCJ9", [1]⟩

theorem pss_meets : Meets pssRuntime pssToken pssUnit pssIssuer 0 pssDecoded where
  wellFormed :=
    { parts := ⟨"eyJhbGciOiJQUzI1NiIsImtpZCI6ImsxIn0", "eyJpc3MiOiJodHRwczovL2lkcCJ9", "AQ",
        by decide +kernel, by decide +kernel, by decide +kernel, by decide +kernel, rfl⟩
      header := ⟨_, rfl⟩
      claims := ⟨_, rfl⟩ }
  algorithm := by decide +kernel
  notExpired := fun exp hexp => by cases hexp
  notEarly := fun nbf hnbf => by cases hnbf
  issued := by decide +kernel
  audience := .inl rfl
  scopes := fun scope hscope => by cases hscope

end Apim.DataPlane
