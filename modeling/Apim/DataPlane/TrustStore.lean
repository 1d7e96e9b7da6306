import Apim.Lib.Trace
import Apim.Shared.Pem
import Apim.Shared.Routing
import Apim.DataPlane.BackendTls
import Apim.DataPlane.Identity

/-!
# Whose certificates verify a backend

The bundle of an environment's anchors (`data-plane/src/trust.ts:28-69`), the identity a route
presents (`control-plane/src/certificates.ts:120-138`), and the authorities that `tlsOptionsFor` hands to
the TLS layer. `tls.ca` is a text of certificates; where it is not set the runtime uses its own roots.
-/

namespace Apim.DataPlane
open Pem Trace ControlPlane

structure PemCertificate where
  text : String
  isBlock : IsBlock "CERTIFICATE" text

/-- What `node:tls` brings: `rootCertificates`, which is also the store of a connection without
`ca`. -/
structure TlsRuntime where
  rootCertificates : List PemCertificate
  rootCertificates_ne : rootCertificates ≠ []

/-- The texts of the certificates a connection with this `ca` verifies against. -/
def TlsRuntime.authorities (rt : TlsRuntime) (ca : Option String) : List String :=
  match ca with
  | some text => pemBlocks text "CERTIFICATE"
  | none => rt.rootCertificates.map (·.text)

/-! ### The bundle of an environment -/

/-- `ConfigTrustAnchor` (`shared/config-doc.ts`). -/
structure ConfigTrustAnchor where
  id : Nat
  name : String
  thumbprint : String
  notAfter : Nat
  pem : PemCertificate

structure TrustSet where
  anchors : List ConfigTrustAnchor
  systemRoots : Bool
  cached : Option String
  cachedUntil : Option Nat

def liveAnchors (anchors : List ConfigTrustAnchor) (now : Nat) : List ConfigTrustAnchor :=
  anchors.filter fun anchor => now < anchor.notAfter

/-- `compose` (`trust.ts:55-67`). -/
def TrustSet.compose (rt : TlsRuntime) (s : TrustSet) (now : Nat) : TrustSet :=
  let live := liveAnchors s.anchors now
  let roots := if s.systemRoots then rt.rootCertificates.map (·.text) else []
  { s with
    cached :=
      if live.isEmpty then none
      else some ("\n".intercalate (roots ++ live.map fun anchor => trimmed anchor.pem.text))
    cachedUntil := (live.map (·.notAfter)).min? }

/-- The constructor, at activation (`route-table.ts:81`). -/
def TrustSet.create (rt : TlsRuntime) (anchors : List ConfigTrustAnchor) (systemRoots : Bool)
    (now : Nat) : TrustSet :=
  TrustSet.compose rt ⟨anchors, systemRoots, none, some 0⟩ now

/-- `bundle` (`trust.ts:50-53`): the set afterwards holds what is answered. -/
def TrustSet.bundle (rt : TlsRuntime) (s : TrustSet) (now : Nat) : TrustSet :=
  if s.cachedUntil.any (· ≤ now) then s.compose rt now else s

/-! ### The identity of a route -/

structure ClientIdentity where
  cert : PemCertificate
  chain : List PemCertificate
  keyPem : String

def ClientIdentity.material (identity : ClientIdentity) : CertificateMaterial where
  certPem := identity.cert.text
  keyPem := identity.keyPem
  chainPem :=
    if identity.chain.isEmpty then none
    else some ("\n".intercalate (identity.chain.map (·.text)))

/-! ### A gateway that connects -/

/-- A gateway: its clock, and the trust set of the document it has activated. -/
structure TrustState where
  clock : Nat
  trust : TrustSet

inductive TrustEvent where
  | wait (milliseconds : Nat)
  | activate (anchors : List ConfigTrustAnchor)
  | connect (tls : BackendTls) (backendUrl : String) (identity : Option ClientIdentity)

structure TrustConfig where
  runtime : TlsRuntime
  systemRoots : Bool

def TrustState.started (config : TrustConfig) (anchors : List ConfigTrustAnchor) (now : Nat) :
    TrustState :=
  ⟨now, .create config.runtime anchors config.systemRoots now⟩

def TrustState.read (config : TrustConfig) (s : TrustState) (tls : BackendTls) : TrustSet :=
  if modeName tls s.clock = "insecure" then s.trust else s.trust.bundle config.runtime s.clock

def trustStep (config : TrustConfig) (s : TrustState) : TrustEvent → Option TrustState
  | .wait milliseconds => some { s with clock := s.clock + milliseconds }
  | .activate anchors =>
    some { s with trust := .create config.runtime anchors config.systemRoots s.clock }
  | .connect tls _ _ => some { s with trust := s.read config tls }

def TrustState.ca (config : TrustConfig) (s : TrustState) (tls : BackendTls) (backendUrl : String)
    (identity : Option ClientIdentity) : Option String :=
  (tlsOptionsFor tls backendUrl (identity.map (·.material)) (s.read config tls).cached s.clock).bind
    (·.ca)

def TrustState.authorities (config : TrustConfig) (s : TrustState) (tls : BackendTls)
    (backendUrl : String) (identity : Option ClientIdentity) : List String :=
  config.runtime.authorities (s.ca config tls backendUrl identity)

def TrustState.decided (config : TrustConfig) (s : TrustState) : List String :=
  (if config.systemRoots then config.runtime.rootCertificates.map (·.text) else []) ++
    (liveAnchors s.trust.anchors s.clock).map (·.pem.text)

def TrustState.live (s : TrustState) : List ConfigTrustAnchor :=
  liveAnchors s.trust.anchors s.clock

def Decided (config : TrustConfig) (s : TrustState) (tls : BackendTls) (backendUrl : String)
    (identity : Option ClientIdentity) : Prop :=
  ∀ text, text ∈ s.authorities config tls backendUrl identity ↔ text ∈ s.decided config

def chainOf (identity : Option ClientIdentity) : List PemCertificate :=
  (identity.map (·.chain)).getD []

def NothingPresented (config : TrustConfig) (s : TrustState) (identity : Option ClientIdentity) :
    Prop :=
  (∀ c ∈ chainOf identity, c.text ∈ s.decided config) ∧
    (s.live = [] → config.systemRoots = true ∧ (chainOf identity = [] ∨
      ∀ root ∈ config.runtime.rootCertificates, ∃ c ∈ chainOf identity, c.text = root.text))

/-! ### What the bundle holds -/

theorem trimmed_block (certificate : PemCertificate) :
    trimmed certificate.text = certificate.text := by
  obtain ⟨text, hblock⟩ := certificate
  obtain ⟨inside, body, -, -, htext⟩ := blockAt_eq_some_iff.mp hblock
  have htrim : Routing.trim text.toList = text.toList := by
    have hspace : Routing.isSpace '-' = false := by decide
    rw [htext]
    simp [Routing.trim, first, last, BEGIN, dashes, hspace]
  change trimmed text = text
  rw [trimmed, htrim, String.ofList_toList]

theorem liveAnchors_eq {anchors : List ConfigTrustAnchor} {before now : Nat} (hle : before ≤ now)
    (h : ∀ anchor ∈ liveAnchors anchors before, now < anchor.notAfter) :
    liveAnchors anchors before = liveAnchors anchors now := by
  refine List.filter_congr fun anchor hanchor => ?_
  by_cases hbefore : before < anchor.notAfter
  · have hlive : anchor ∈ liveAnchors anchors before :=
      List.mem_filter.mpr ⟨hanchor, decide_eq_true hbefore⟩
    have hnow : now < anchor.notAfter := h anchor hlive
    simp [hbefore, hnow]
  · have hnow : ¬now < anchor.notAfter := by omega
    simp [hbefore, hnow]

theorem bundle_eq {rt : TlsRuntime} {s : TrustSet} {before now : Nat} (hle : before ≤ now)
    (hcomposed : s = s.compose rt before) : s.bundle rt now = s.compose rt now := by
  unfold TrustSet.bundle
  by_cases hdue : s.cachedUntil.any (· ≤ now) = true
  · rw [if_pos hdue]
  · rw [if_neg hdue]
    have huntil : s.cachedUntil = ((liveAnchors s.anchors before).map (·.notAfter)).min? :=
      congrArg (·.cachedUntil) hcomposed
    have hlater : ∀ anchor ∈ liveAnchors s.anchors before, now < anchor.notAfter := by
      intro anchor hanchor
      have hmem : anchor.notAfter ∈ (liveAnchors s.anchors before).map (·.notAfter) :=
        List.mem_map_of_mem hanchor
      cases hmin : ((liveAnchors s.anchors before).map (·.notAfter)).min? with
      | none =>
        rw [List.min?_eq_none_iff.mp hmin] at hmem
        cases hmem
      | some earliest =>
        rw [huntil, hmin] at hdue
        have hnow : now < earliest := by simpa using hdue
        have hearliest := (List.min?_eq_some_iff.mp hmin).2 anchor.notAfter hmem
        omega
    rw [hcomposed, TrustSet.compose, TrustSet.compose]
    simp only [liveAnchors_eq hle hlater]

/-! ### What a connection is handed -/

def bundled (config : TrustConfig) (s : TrustState) : List String :=
  if s.live = [] then [] else s.decided config

variable {s : TrustState} {config : TrustConfig}

theorem isBlock_of_mem_decided {text : String} (h : text ∈ s.decided config) :
    IsBlock "CERTIFICATE" text := by
  rcases List.mem_append.mp h with hroot | hanchor
  · split at hroot
    · obtain ⟨root, -, rfl⟩ := List.mem_map.mp hroot
      exact root.isBlock
    · cases hroot
  · obtain ⟨anchor, -, rfl⟩ := List.mem_map.mp hanchor
    exact anchor.pem.isBlock

theorem joined_ne_empty {texts : List String} (h : ∀ text ∈ texts, IsBlock "CERTIFICATE" text)
    (hne : texts ≠ []) : "\n".intercalate texts ≠ "" := by
  intro hempty
  have hread := pemBlocks_joined texts h
  rw [hempty] at hread
  exact hne hread.symm

theorem cached_compose (config : TrustConfig) (s : TrustState)
    (hroots : s.trust.systemRoots = config.systemRoots) :
    (s.trust.compose config.runtime s.clock).cached =
      if bundled config s = [] then none else some ("\n".intercalate (bundled config s)) := by
  have htrimmed : ∀ anchors : List ConfigTrustAnchor,
      anchors.map (fun anchor => trimmed anchor.pem.text) = anchors.map (·.pem.text) :=
    fun anchors => List.map_congr_left fun anchor _ => trimmed_block anchor.pem
  by_cases hlive : s.live = []
  · have hnone : liveAnchors s.trust.anchors s.clock = [] := hlive
    simp [TrustSet.compose, bundled, hlive, hnone]
  · have hsome : liveAnchors s.trust.anchors s.clock ≠ [] := hlive
    have hdecided : s.decided config ≠ [] := by
      simp [TrustState.decided, hsome]
    simp only [TrustSet.compose, bundled, hlive, if_false, hdecided, List.isEmpty_iff, hsome,
      htrimmed, hroots]
    rfl

theorem caOf_joined {anchors chain : List String}
    (hanchors : ∀ text ∈ anchors, IsBlock "CERTIFICATE" text)
    (hchain : ∀ text ∈ chain, IsBlock "CERTIFICATE" text) :
    caOf (if anchors = [] then none else some ("\n".intercalate anchors))
        (if chain = [] then none else some ("\n".intercalate chain)) =
      if anchors ++ chain = [] then none else some ("\n".intercalate (anchors ++ chain)) := by
  have hne := joined_ne_empty hanchors
  have hne' := joined_ne_empty hchain
  by_cases h : anchors = []
  · by_cases h' : chain = []
    · simp [h, h', caOf]
    · simp [h, h', caOf, hne' h']
  · by_cases h' : chain = []
    · simp [h, h', caOf, hne h]
    · have hboth : "\n".intercalate ["\n".intercalate anchors, "\n".intercalate chain] =
          "\n".intercalate (anchors ++ chain) := by
        rw [String.intercalate_cons_cons, String.intercalate_singleton,
          String.intercalate_append_of_ne_nil h h']
      simp [h, h', caOf, hne h, hne' h', hboth]

variable {backendUrl : String}

theorem ca_tlsOptionsFor {tls : BackendTls} {material : Option CertificateMaterial}
    {bundle : Option String} {now : Nat} (hmode : modeName tls now ≠ "insecure") :
    (tlsOptionsFor tls backendUrl material bundle now).bind (·.ca) =
      caOf (bundle.filter (· ≠ "")) (material.bind (·.chainPem)) := by
  unfold tlsOptionsFor
  simp only [hmode, if_false]
  generalize (if modeName tls now = "pin" then pinOf tls else none) = pin
  by_cases hplain : modeName tls now = "verify" ∧ material = none ∧ bundle.filter (· ≠ "") = none
  · rw [if_pos hplain]
    obtain ⟨-, hmaterial, hanchors⟩ := hplain
    rw [hmaterial, hanchors]
    rfl
  · rw [if_neg hplain]
    by_cases hempty : optionsOf (modeName tls now) pin material (bundle.filter (· ≠ "")) =
        ⟨none, none, none, true, none⟩
    · rw [if_pos hempty]
      have hca := congrArg TlsOptions.ca hempty
      exact hca.symm
    · rw [if_neg hempty]
      rfl

theorem authorities_eq {tls : BackendTls} {identity : Option ClientIdentity}
    (hroots : s.trust.systemRoots = config.systemRoots) {before : Nat} (hle : before ≤ s.clock)
    (hcomposed : s.trust = s.trust.compose config.runtime before)
    (hmode : modeName tls s.clock ≠ "insecure") :
    s.authorities config tls backendUrl identity =
      if bundled config s ++ (chainOf identity).map (·.text) = [] then
        config.runtime.rootCertificates.map (·.text)
      else bundled config s ++ (chainOf identity).map (·.text) := by
  have hanchors : ∀ text ∈ bundled config s, IsBlock "CERTIFICATE" text := by
    intro text htext
    unfold bundled at htext
    split at htext
    · cases htext
    · exact isBlock_of_mem_decided htext
  have hchain : ∀ text ∈ (chainOf identity).map (·.text), IsBlock "CERTIFICATE" text := by
    intro text htext
    obtain ⟨c, -, rfl⟩ := List.mem_map.mp htext
    exact c.isBlock
  have hcached : (s.read config tls).cached =
      if bundled config s = [] then none else some ("\n".intercalate (bundled config s)) := by
    rw [TrustState.read, if_neg hmode, bundle_eq hle hcomposed]
    exact cached_compose config s hroots
  have hfilter : (s.read config tls).cached.filter (· ≠ "") = (s.read config tls).cached := by
    rw [hcached]
    split
    · rfl
    next hne => simp [joined_ne_empty hanchors hne]
  have hmaterial : (identity.map (·.material)).bind (·.chainPem) =
      if (chainOf identity).map (·.text) = [] then none
      else some ("\n".intercalate ((chainOf identity).map (·.text))) := by
    cases identity with
    | none => rfl
    | some identity =>
      simp [chainOf, ClientIdentity.material]
  have hca : s.ca config tls backendUrl identity =
      if bundled config s ++ (chainOf identity).map (·.text) = [] then none
      else some ("\n".intercalate (bundled config s ++ (chainOf identity).map (·.text))) := by
    rw [TrustState.ca, ca_tlsOptionsFor hmode, hfilter, hcached, hmaterial]
    exact caOf_joined hanchors hchain
  rw [TrustState.authorities, hca]
  split
  · rfl
  · refine pemBlocks_joined _ fun text htext => ?_
    rcases List.mem_append.mp htext with htext | htext
    · exact hanchors text htext
    · exact hchain text htext

theorem decided_iff {tls : BackendTls} {identity : Option ClientIdentity}
    (hroots : s.trust.systemRoots = config.systemRoots) {before : Nat} (hle : before ≤ s.clock)
    (hcomposed : s.trust = s.trust.compose config.runtime before)
    (hmode : modeName tls s.clock ≠ "insecure") :
    Decided config s tls backendUrl identity ↔ NothingPresented config s identity := by
  rw [Decided, authorities_eq hroots hle hcomposed hmode, NothingPresented]
  obtain ⟨root, hroot⟩ := List.exists_mem_of_ne_nil _ config.runtime.rootCertificates_ne
  by_cases hlive : s.live = []
  · have hbundled : bundled config s = [] := if_pos hlive
    have hanchors : liveAnchors s.trust.anchors s.clock = [] := hlive
    have hdecided : s.decided config =
        if config.systemRoots then config.runtime.rootCertificates.map (·.text) else [] := by
      rw [TrustState.decided, hanchors, List.map_nil, List.append_nil]
    rw [hbundled, List.nil_append, hdecided]
    by_cases hchain : chainOf identity = []
    · simp only [hchain, List.map_nil, if_true, List.not_mem_nil, false_implies, implies_true,
        true_and, hlive, true_or, and_true, forall_const]
      by_cases hon : config.systemRoots = true
      · simp [hon]
      · refine iff_of_false (fun hall => ?_) hon
        have hbad := (hall root.text).mp (List.mem_map_of_mem hroot)
        rw [if_neg hon] at hbad
        cases hbad
    · have hne : (chainOf identity).map (·.text) ≠ [] := by simpa using hchain
      obtain ⟨c, hc⟩ := List.exists_mem_of_ne_nil _ hchain
      rw [if_neg hne]
      by_cases hon : config.systemRoots = true
      · simp only [hon, if_true, hchain, false_or, hlive, true_and, forall_const]
        constructor
        · intro hall
          refine ⟨fun c hc => (hall c.text).mp (List.mem_map_of_mem hc), fun root hroot => ?_⟩
          exact List.mem_map.mp ((hall root.text).mpr (List.mem_map_of_mem hroot))
        · rintro ⟨hpresented, hall⟩ text
          constructor
          · intro htext
            obtain ⟨c, hc, rfl⟩ := List.mem_map.mp htext
            exact hpresented c hc
          · intro htext
            obtain ⟨root, hroot, rfl⟩ := List.mem_map.mp htext
            exact List.mem_map.mpr (hall root hroot)
      · refine iff_of_false (fun hall => ?_) fun hpresented => hon (hpresented.2 hlive).1
        have hbad := (hall c.text).mp (List.mem_map_of_mem hc)
        rw [if_neg hon] at hbad
        cases hbad
  · have hbundled : bundled config s = s.decided config := if_neg hlive
    have hanchors : liveAnchors s.trust.anchors s.clock ≠ [] := hlive
    have hne : s.decided config ++ (chainOf identity).map (·.text) ≠ [] := by
      simp [TrustState.decided, hanchors]
    rw [hbundled, if_neg hne]
    simp only [hlive, false_implies, and_true]
    constructor
    · intro hall c hc
      exact (hall c.text).mp (List.mem_append_right _ (List.mem_map_of_mem hc))
    · intro hpresented text
      rw [List.mem_append]
      constructor
      · rintro (htext | htext)
        · exact htext
        · obtain ⟨c, hc, rfl⟩ := List.mem_map.mp htext
          exact hpresented c hc
      · exact .inl

/-! ### Runs -/

structure Composed (config : TrustConfig) (s : TrustState) : Prop where
  roots : s.trust.systemRoots = config.systemRoots
  composed : ∃ before, before ≤ s.clock ∧ s.trust = s.trust.compose config.runtime before

theorem composed_create (config : TrustConfig) (anchors : List ConfigTrustAnchor) (now : Nat) :
    Composed config (.started config anchors now) :=
  ⟨rfl, now, Nat.le_refl now, rfl⟩

theorem composed_step {s' : TrustState} {e : TrustEvent} (hs : Composed config s)
    (h : trustStep config s e = some s') : Composed config s' := by
  obtain ⟨before, hle, hcomposed⟩ := hs.composed
  cases e with
  | wait milliseconds =>
    obtain rfl := Option.some.inj h
    exact ⟨hs.roots, before, Nat.le_add_right_of_le hle, hcomposed⟩
  | activate anchors =>
    obtain rfl := Option.some.inj h
    exact ⟨rfl, s.clock, Nat.le_refl _, rfl⟩
  | connect tls backendUrl identity =>
    obtain rfl := Option.some.inj h
    by_cases hmode : modeName tls s.clock = "insecure"
    · have hread : s.read config tls = s.trust := if_pos hmode
      rw [hread]
      exact hs
    · have hread : s.read config tls = s.trust.compose config.runtime s.clock := by
        rw [TrustState.read, if_neg hmode]
        exact bundle_eq hle hcomposed
      rw [hread]
      exact ⟨hs.roots, s.clock, Nat.le_refl _, rfl⟩

/-- The claim's step: a connection in a mode that verifies is verified as decided. -/
def ConnectsAsDecided (config : TrustConfig) (s : TrustState) (e : TrustEvent) (_ : TrustState) :
    Prop :=
  ∀ tls backendUrl identity, e = .connect tls backendUrl identity →
    modeName tls s.clock ≠ "insecure" → Decided config s tls backendUrl identity

def PresentsNothing (config : TrustConfig) (s : TrustState) (e : TrustEvent) (_ : TrustState) :
    Prop :=
  ∀ tls backendUrl identity, e = .connect tls backendUrl identity →
    modeName tls s.clock ≠ "insecure" → NothingPresented config s identity

theorem decided_along_runs (config : TrustConfig) (anchors : List ConfigTrustAnchor) (start : Nat)
    (events : List TrustEvent) :
    EveryStep (trustStep config) (ConnectsAsDecided config) (.started config anchors start) events ↔
      EveryStep (trustStep config) (PresentsNothing config) (.started config anchors start)
        events := by
  refine everyStep_congr_of_invariant (fun s e next hs h => composed_step hs h) ?_
    (composed_create config anchors start) events
  intro s e next hs _
  obtain ⟨before, hle, hcomposed⟩ := hs.composed
  constructor
  · intro hall tls backendUrl identity he hmode
    exact (decided_iff hs.roots hle hcomposed hmode).mp (hall tls backendUrl identity he hmode)
  · intro hall tls backendUrl identity he hmode
    exact (decided_iff hs.roots hle hcomposed hmode).mpr (hall tls backendUrl identity he hmode)

def rootCertificate : PemCertificate :=
  ⟨"-----BEGIN CERTIFICATE-----\nroot\n-----END CERTIFICATE-----", by decide +kernel⟩

def issuerCertificate : PemCertificate :=
  ⟨"-----BEGIN CERTIFICATE-----\nissuer\n-----END CERTIFICATE-----", by decide +kernel⟩

def leafCertificate : PemCertificate :=
  ⟨"-----BEGIN CERTIFICATE-----\nleaf\n-----END CERTIFICATE-----", by decide +kernel⟩

def oneRoot : TlsRuntime := ⟨[rootCertificate], List.cons_ne_nil _ _⟩

theorem connects_otherwise :
    ¬EveryStep (trustStep ⟨oneRoot, true⟩) (ConnectsAsDecided ⟨oneRoot, true⟩)
        (.started ⟨oneRoot, true⟩ [] 0)
        [.connect .verify "https://pets" (some ⟨leafCertificate, [issuerCertificate], "key"⟩)] ∧
      ¬EveryStep (trustStep ⟨oneRoot, false⟩) (ConnectsAsDecided ⟨oneRoot, false⟩)
        (.started ⟨oneRoot, false⟩ [⟨1, "internal", "ab", 10, issuerCertificate⟩] 0)
        [.wait 10, .connect .verify "https://pets" none] := by
  constructor
  · intro h
    have hconnect := (h _ rfl).1 _ _ _ rfl (by decide)
    have hroot := (hconnect rootCertificate.text).mpr (by decide +kernel)
    exact absurd hroot (by decide +kernel)
  · intro h
    have hconnect := ((h _ rfl).2 _ rfl).1 _ _ _ rfl (by decide)
    have hroot := (hconnect rootCertificate.text).mp (by decide +kernel)
    exact absurd hroot (by decide +kernel)

end Apim.DataPlane
