import Apim.ControlPlane.ValidateUnits
import Apim.DataPlane.Resolve

/-!
# The administrator's ceilings

`validateFor` (`control-plane/src/config-build.ts:104-173`) writes the `validate` unit of a route into
the configuration document with every default resolved and every limit clamped. What an operation
overrides travels as it was written and is laid over that unit on the request path
(`data-plane/src/pipeline.ts:972`, `:2067-2082`), one member at a time and not one field of a member
at a time. So the ceilings and the route's own values hold of an operation exactly as far as its
override keeps to them itself.
-/

namespace Apim.Validation

open Apim.Policy
open Apim.DataPlane (ValidationState ValidateAlways ConfigRoute ConfigOperation)

/-! ### The unit of a route -/

/-- `ConfigLimits["xml"]` (`shared/config-doc.ts:158-164`). -/
structure XmlLimits where
  maxPrefixBytes : Nat
  maxDepth : Nat
  maxElements : Nat
  maxBytes : Nat
  contentTypes : List String
  deriving DecidableEq, Repr

structure ValidationLimits where
  maxBodyBytes : Nat
  minSampleRate : ℚ
  maxConcurrent : Nat
  maxIncludeBodyExcerptBytes : Nat
  deriving DecidableEq

structure ConfigLimits where
  xml : XmlLimits
  validation : ValidationLimits
  deriving DecidableEq

/-- `RPC_KINDS` (`shared/types.ts`). -/
def RPC_KINDS : List ResourceKind := [.mcp, .a2a]

def attached (policy : Document) : ValidateUnit :=
  ((policy.lookup "validate").map ValidateUnit.ofJson).getD {}

def requestState (policy : Document) : ValidationState :=
  if field? policy "passthrough" "websocket" = some (.bool true) then .disabled
  else (attached policy).request.getD VALIDATE_DEFAULTS.request

def responseState (policy : Document) : ValidationState :=
  (attached policy).response.getD VALIDATE_DEFAULTS.response

def warns (policy : Document) : Bool :=
  requestState policy = .warning || responseState policy = .warning

def validateFor (kind : ResourceKind) (policy : Document) (ceilings : ValidationLimits)
    (instanceXml : XmlLimits) : ValidateUnit :=
  let own := attached policy
  let bodyCeiling :=
    if RPC_KINDS.contains kind then VALIDATE_DEFAULTS.rpcMaxBodyBytes
    else VALIDATE_DEFAULTS.maxBodyBytes
  let always := own.always.getD {}
  let defaultContentTypes :=
    if kind = .soap then instanceXml.contentTypes else ["application/json", "application/*+json"]
  let sample := own.sample.getD {}
  { request := some (requestState policy)
    response := some (responseState policy)
    headers := some (own.headers.getD VALIDATE_DEFAULTS.headers)
    body := some (own.body.getD VALIDATE_DEFAULTS.body)
    always := some
      { contentType := some (always.contentType.getD defaultContentTypes)
        maxBodyBytes := some (min (always.maxBodyBytes.getD bodyCeiling) ceilings.maxBodyBytes)
        maxDepth := some (min (always.maxDepth.getD VALIDATE_DEFAULTS.maxDepth)
          instanceXml.maxDepth)
        maxArrayLength := some (always.maxArrayLength.getD VALIDATE_DEFAULTS.maxArrayLength)
        duplicateKeys := some (always.duplicateKeys.getD VALIDATE_DEFAULTS.duplicateKeys)
        xmlMaxElements := some (min (always.xmlMaxElements.getD VALIDATE_DEFAULTS.maxElements)
          instanceXml.maxElements) }
    maxConcurrent := some
      (min (own.maxConcurrent.getD VALIDATE_DEFAULTS.maxConcurrent) ceilings.maxConcurrent)
    onSaturated := some .skip
    logEvents := some
      { includeBodyExcerptBytes := some
          (min ((own.logEvents.bind (·.includeBodyExcerptBytes)).getD 0)
            ceilings.maxIncludeBodyExcerptBytes) }
    downgradeReason := own.downgradeReason.filter (· ≠ "")
    -- The rate is clamped from below, so that a route cannot sample so rarely that it means nothing.
    sample :=
      if warns policy then some
        { alwaysUnderBytes :=
            some (sample.alwaysUnderBytes.getD VALIDATE_DEFAULTS.alwaysUnderBytes)
          rate := some (max (sample.rate.getD VALIDATE_DEFAULTS.sampleRate) ceilings.minSampleRate)
          coldStart := some (sample.coldStart.getD VALIDATE_DEFAULTS.coldStart)
          onFailureEscalateSec :=
            some (sample.onFailureEscalateSec.getD VALIDATE_DEFAULTS.onFailureEscalateSec)
          key := some (sample.key.getD [.operation, .subscription]) }
      else none }

/-! ### The unit of an operation -/

def overrideOf (policy : Document) (operationId : Option String) : Option ValidateUnit :=
  ((operationId.filter (· ≠ "")).bind fun operationId =>
    policy.lookup (operationUnitKey operationId "validate")).map ValidateUnit.ofJson

/-- `{ ...validate, ...(opPolicy.validate ?? {}) }`, with the unit that travels with the route. -/
def effectiveValidate (kind : ResourceKind) (limits : ConfigLimits) (policy : Document)
    (operationId : Option String) : ValidateUnit :=
  ((overrideOf policy operationId).getD {}).overlaid
    (validateFor kind policy limits.validation limits.xml)

/-- The rate the requests are sampled at (`data-plane/src/pipeline.ts:1107`, `:1146`). -/
def sampleRate (unit : ValidateUnit) : ℚ := (unit.sample.bind (·.rate)).getD (1 / 10)

/-! ### What the gateway's model reads of a unit -/

def ValidateSample.served (sample : ValidateSample) : DataPlane.ValidateSample where
  alwaysUnderBytes := sample.alwaysUnderBytes
  rate := sample.rate.getD (1 / 10)
  coldStart := sample.coldStart

def ValidateUnit.served (unit : ValidateUnit) : DataPlane.ValidateUnit where
  request := unit.request
  response := unit.response
  headers := unit.headers
  body := unit.body
  always := unit.always
  sample := unit.sample.map ValidateSample.served

/-! ### An override is accepted as one -/

theorem parseOperationUnitKey_eq {operationId unit : String} {parsed : String × String}
    (h : parseOperationUnitKey (operationUnitKey operationId unit) = some parsed) :
    parsed.2 = unit ∨ '"' ∈ parsed.2.toList := by
  have hkey : (operationUnitKey operationId unit).toList =
      "operations[\"".toList ++ (operationId.toList ++ ("\"].".toList ++ unit.toList)) := by
    simp [operationUnitKey]
  simp only [parseOperationUnitKey, Option.bind_eq_bind, Option.bind_eq_some_iff] at h
  obtain ⟨rest, hrest, suffix, hsuffix, hparsed⟩ := h
  rw [hkey, List.isPrefixOf?_eq_some_iff_append_eq, List.append_cancel_left_eq] at hrest
  subst hrest
  rw [List.isPrefixOf?_eq_some_iff_append_eq, List.dropWhile_append] at hsuffix
  have hunit : parsed.2.toList = suffix := by
    split at hparsed
    · cases hparsed
      simp
    · cases hparsed
  rw [hunit]
  split at hsuffix
  · have hquote : ("\"].".toList ++ unit.toList).dropWhile operationIdChar =
        "\"].".toList ++ unit.toList := List.dropWhile_cons_of_neg (by decide)
    rw [hquote, List.append_cancel_left_eq] at hsuffix
    left
    rw [← String.toList_inj, hunit, hsuffix]
  · -- An id with other characters in it: what is left of it is the start of the unit.
    rename_i hleft
    right
    match hdrop : operationId.toList.dropWhile operationIdChar with
    | [] => simp [hdrop] at hleft
    | [c] =>
      rw [hdrop] at hsuffix
      simp at hsuffix
    | [c, c'] =>
      rw [hdrop] at hsuffix
      simp at hsuffix
    | c :: c' :: c'' :: left =>
      rw [hdrop] at hsuffix
      obtain ⟨-, -, -, hrest⟩ : '"' = c ∧ ']' = c' ∧ '.' = c'' ∧
          suffix = left ++ ("\"].".toList ++ unit.toList) := by simpa using hsuffix
      simp [hrest]

theorem overridable_no_quote : ∀ unit ∈ OPERATION_OVERRIDABLE, '"' ∉ unit.toList := by decide

theorem known_no_bracket :
    ∀ unitKey ∈ "validate" :: DISABLED_KEY :: POLICY_UNITS, '[' ∉ unitKey.toList := by decide

theorem scoped_of_validateUnit {others : UnitKey → Json → List String} {operationId : String}
    {value : Json} (h : validateUnit others (operationUnitKey operationId "validate") value = []) :
    validateValidate true value = [] := by
  rw [validateUnit] at h
  cases hparse : parseOperationUnitKey (operationUnitKey operationId "validate") with
  | none =>
    rw [hparse] at h
    have hbracket : '[' ∈ (operationUnitKey operationId "validate").toList := by
      simp [operationUnitKey]
    have hunknown : operationUnitKey operationId "validate" ∉
        "validate" :: DISABLED_KEY :: POLICY_UNITS :=
      fun hin => known_no_bracket _ hin hbracket
    simp only [List.mem_cons, not_or] at hunknown
    obtain ⟨hvalidate, hdisabled, hunits⟩ := hunknown
    simp [hvalidate, hdisabled, hunits] at h
  | some parsed =>
    rw [hparse] at h
    by_cases hover : parsed.2 ∈ OPERATION_OVERRIDABLE
    · have hunit : parsed.2 = "validate" :=
        (parseOperationUnitKey_eq hparse).resolve_right (overridable_no_quote _ hover)
      have hcontains : OPERATION_OVERRIDABLE.contains "validate" = true := by decide
      simpa only [hunit, hcontains, Bool.not_true, Bool.false_eq_true, if_false, if_true] using h
    · simp [hover] at h

theorem overrideOf_accepted {others : UnitKey → Json → List String} {kind : ResourceKind}
    {doc : Document} (h : Valid (validateUnit others) kind doc) {operationId : Option String}
    {own : ValidateUnit} (hown : overrideOf (activeDocument doc) operationId = some own) :
    own.always = none ∧ ∀ sample, own.sample = some sample → sample.rate.isSome := by
  obtain ⟨value, hvalue, rfl⟩ := Option.map_eq_some_iff.mp hown
  obtain ⟨operationId, -, hlookup⟩ := Option.bind_eq_some_iff.mp hvalue
  have hunits := ((valid_iff_valid_active _ kind doc).mp h).2
  have haccepted := ((valid_iff _ kind _).mp hunits).1 _ _ hlookup
  exact ValidateUnit.ofJson_scoped (scoped_of_validateUnit haccepted)

/-! ### Within the ceilings -/

def AtMost (limit : Option Nat) (ceiling : Nat) : Prop := ∃ n, limit = some n ∧ n ≤ ceiling

section
variable (own base unit : ValidateUnit)

def Keeps {α : Type} (field : ValidateUnit → Option α) : Prop :=
  field own = none → field unit = field base

structure KeepsFields : Prop where
  request : Keeps own base unit (·.request)
  response : Keeps own base unit (·.response)
  downgradeReason : Keeps own base unit (·.downgradeReason)
  headers : Keeps own base unit (·.headers)
  body : Keeps own base unit (·.body)
  maxConcurrent : Keeps own base unit (·.maxConcurrent)
  onSaturated : Keeps own base unit (·.onSaturated)
  contentType : Keeps own base unit fun u => u.always.bind (·.contentType)
  maxBodyBytes : Keeps own base unit fun u => u.always.bind (·.maxBodyBytes)
  maxDepth : Keeps own base unit fun u => u.always.bind (·.maxDepth)
  maxArrayLength : Keeps own base unit fun u => u.always.bind (·.maxArrayLength)
  duplicateKeys : Keeps own base unit fun u => u.always.bind (·.duplicateKeys)
  maxElements : Keeps own base unit fun u => u.always.bind (·.xmlMaxElements)
  alwaysUnderBytes : Keeps own base unit fun u => u.sample.bind (·.alwaysUnderBytes)
  rate : Keeps own base unit fun u => u.sample.bind (·.rate)
  coldStart : Keeps own base unit fun u => u.sample.bind (·.coldStart)
  onFailureEscalateSec : Keeps own base unit fun u => u.sample.bind (·.onFailureEscalateSec)
  key : Keeps own base unit fun u => u.sample.bind (·.key)
  includeBodyExcerptBytes : Keeps own base unit fun u =>
    u.logEvents.bind (·.includeBodyExcerptBytes)

/-- The unit the pipeline works with is bounded by the administrator's limits, and by the route's own
values where the override leaves them open. -/
structure Bounded (limits : ConfigLimits) : Prop where
  maxBodyBytes : AtMost (unit.always.bind (·.maxBodyBytes)) limits.validation.maxBodyBytes
  maxDepth : AtMost (unit.always.bind (·.maxDepth)) limits.xml.maxDepth
  maxElements : AtMost (unit.always.bind (·.xmlMaxElements)) limits.xml.maxElements
  maxConcurrent : AtMost unit.maxConcurrent limits.validation.maxConcurrent
  includeBodyExcerptBytes : AtMost (unit.logEvents.bind (·.includeBodyExcerptBytes))
    limits.validation.maxIncludeBodyExcerptBytes
  sampling : unit.request = some .warning → limits.validation.minSampleRate ≤ sampleRate unit
  keeps : KeepsFields own base unit

end

def ValidateSample.Complete (sample : ValidateSample) : Prop :=
  sample.alwaysUnderBytes.isSome ∧ sample.coldStart.isSome ∧
    sample.onFailureEscalateSec.isSome ∧ sample.key.isSome

structure KeepsToCeilings (limits : ConfigLimits) (policy : Document) (own : ValidateUnit) :
    Prop where
  maxConcurrent : ∀ n, own.maxConcurrent = some n → n ≤ limits.validation.maxConcurrent
  logEvents : ∀ logEvents, own.logEvents = some logEvents →
    AtMost logEvents.includeBodyExcerptBytes limits.validation.maxIncludeBodyExcerptBytes
  complete : ∀ sample, own.sample = some sample → warns policy = true → sample.Complete
  rate : own.request.getD (requestState policy) = .warning →
    (∀ sample, own.sample = some sample →
      ∀ rate, sample.rate = some rate → limits.validation.minSampleRate ≤ rate) ∧
    (own.sample = none → warns policy = true ∨ limits.validation.minSampleRate ≤ 1 / 10)

theorem keeps_of_or {α : Type} {field : ValidateUnit → Option α} {own base : ValidateUnit}
    (h : field (own.overlaid base) = (field own).or (field base)) :
    Keeps own base (own.overlaid base) field := by
  intro hopen
  rw [h, hopen, Option.none_or]

theorem keeps_of_none {α β : Type} {block : ValidateUnit → Option β} {field : β → Option α}
    {own base : ValidateUnit} (h : block (own.overlaid base) = (block own).or (block base))
    (hown : block own = none) :
    Keeps own base (own.overlaid base) fun u => (block u).bind field := by
  intro _
  change (block (own.overlaid base)).bind field = _
  rw [h, hown, Option.none_or]

theorem keeps_iff_isSome {α β : Type} {block : ValidateUnit → Option β} {field : β → Option α}
    {own base : ValidateUnit} (h : block (own.overlaid base) = (block own).or (block base))
    {mine theirs : β} (hown : block own = some mine) (hbase : block base = some theirs)
    (htheirs : (field theirs).isSome) :
    (Keeps own base (own.overlaid base) fun u => (block u).bind field) ↔ (field mine).isSome := by
  simp only [Keeps, h, hown, hbase, Option.some_or, Option.bind_some]
  constructor
  · intro hkeeps
    by_contra hopen
    rw [Option.not_isSome_iff_eq_none] at hopen
    rw [← hkeeps hopen, hopen] at htheirs
    cases htheirs
  · intro hset hopen
    rw [hopen] at hset
    cases hset

theorem atMost_min (a c : Nat) : AtMost (some (min a c)) c := ⟨_, rfl, Nat.min_le_right a c⟩

theorem atMost_or_iff {own : Option Nat} {limit ceiling : Nat} (h : limit ≤ ceiling) :
    AtMost (own.or (some limit)) ceiling ↔ ∀ n, own = some n → n ≤ ceiling := by
  cases own with
  | none => exact ⟨nofun, fun _ => ⟨limit, rfl, h⟩⟩
  | some n =>
    constructor
    · rintro ⟨m, hm, hle⟩ k hk
      cases hm
      cases hk
      exact hle
    · exact fun hall => ⟨n, rfl, hall n rfl⟩

section
variable {kind : ResourceKind} {limits : ConfigLimits} {policy : Document} {own : ValidateUnit}

theorem sample_validateFor (kind : ResourceKind) (limits : ConfigLimits)
    (hwarns : warns policy = true) :
    ∃ sample, (validateFor kind policy limits.validation limits.xml).sample = some sample ∧
      sample.Complete ∧
        ∃ rate, sample.rate = some rate ∧ limits.validation.minSampleRate ≤ rate := by
  simp only [validateFor, hwarns, if_true]
  exact ⟨_, rfl, ⟨rfl, rfl, rfl, rfl⟩, _, rfl, le_max_right _ _⟩

theorem sample_validateFor_none (kind : ResourceKind) (limits : ConfigLimits)
    (hwarns : warns policy = false) :
    (validateFor kind policy limits.validation limits.xml).sample = none := by
  simp [validateFor, hwarns]

theorem request_over_iff :
    (own.overlaid (validateFor kind policy limits.validation limits.xml)).request = some .warning ↔
      own.request.getD (requestState policy) = .warning := by
  rw [ValidateUnit.overlaid]
  cases own.request with
  | none => simp [validateFor]
  | some state => simp

theorem sampling_iff (hrate : ∀ sample, own.sample = some sample → sample.rate.isSome) :
    limits.validation.minSampleRate ≤
        sampleRate (own.overlaid (validateFor kind policy limits.validation limits.xml)) ↔
      (∀ sample, own.sample = some sample →
        ∀ rate, sample.rate = some rate → limits.validation.minSampleRate ≤ rate) ∧
      (own.sample = none → warns policy = true ∨ limits.validation.minSampleRate ≤ 1 / 10) := by
  rw [sampleRate, ValidateUnit.overlaid]
  cases hsample : own.sample with
  | some sample =>
    obtain ⟨rate, hset⟩ := Option.isSome_iff_exists.mp (hrate sample hsample)
    simp [hset]
  | none =>
    cases hwarns : warns policy with
    | true =>
      obtain ⟨sample, hbase, -, rate, hset, hle⟩ :=
        sample_validateFor kind limits hwarns
      simp [hbase, hset, hle]
    | false => simp [sample_validateFor_none kind limits hwarns]

theorem keepsSample_iff {α : Type} {field : ValidateSample → Option α}
    (hcomplete : ∀ sample : ValidateSample, sample.Complete → sample.rate.isSome →
      (field sample).isSome) :
    (Keeps own (validateFor kind policy limits.validation limits.xml)
        (own.overlaid (validateFor kind policy limits.validation limits.xml))
        fun u => u.sample.bind field) ↔
      ∀ sample, own.sample = some sample → warns policy = true → (field sample).isSome := by
  cases hsample : own.sample with
  | none => exact ⟨fun _ => nofun, fun _ => keeps_of_none rfl hsample⟩
  | some mine =>
    cases hwarns : warns policy with
    | true =>
      obtain ⟨theirs, hbase, htheirs, rate, hset, -⟩ :=
        sample_validateFor kind limits hwarns
      have hfield := hcomplete theirs htheirs (by rw [hset]; rfl)
      rw [keeps_iff_isSome rfl hsample hbase hfield]
      simp
    | false =>
      refine ⟨fun _ _ _ => nofun, fun _ hopen => ?_⟩
      have hbase := sample_validateFor_none kind limits hwarns
      simp only [hsample, Option.bind_some] at hopen
      simp [ValidateUnit.overlaid, hsample, hbase, hopen]

theorem bounded_over_iff (halways : own.always = none)
    (hrate : ∀ sample, own.sample = some sample → sample.rate.isSome) :
    Bounded own (validateFor kind policy limits.validation limits.xml)
        (own.overlaid (validateFor kind policy limits.validation limits.xml)) limits ↔
      KeepsToCeilings limits policy own := by
  have hblock : (own.overlaid (validateFor kind policy limits.validation limits.xml)).always =
      (validateFor kind policy limits.validation limits.xml).always := by
    rw [ValidateUnit.overlaid, halways, Option.none_or]
  constructor
  · intro hbounded
    refine ⟨?_, ?_, ?_, ?_⟩
    · exact (atMost_or_iff (Nat.min_le_right _ _)).mp hbounded.maxConcurrent
    · intro logEvents hlog
      have hexcerpt := hbounded.includeBodyExcerptBytes
      rwa [ValidateUnit.overlaid, hlog, Option.some_or, Option.bind_some] at hexcerpt
    · intro sample hsample hwarns
      have hkeeps := hbounded.keeps
      exact ⟨(keepsSample_iff fun _ h _ => h.1).mp hkeeps.alwaysUnderBytes sample hsample hwarns,
        (keepsSample_iff fun _ h _ => h.2.1).mp hkeeps.coldStart sample hsample hwarns,
        (keepsSample_iff fun _ h _ => h.2.2.1).mp hkeeps.onFailureEscalateSec sample hsample hwarns,
        (keepsSample_iff fun _ h _ => h.2.2.2).mp hkeeps.key sample hsample hwarns⟩
    · intro hrequest
      exact (sampling_iff hrate).mp (hbounded.sampling (request_over_iff.mpr hrequest))
  · intro hwithin
    have hexcerpt : AtMost ((own.overlaid (validateFor kind policy limits.validation
        limits.xml)).logEvents.bind (·.includeBodyExcerptBytes))
        limits.validation.maxIncludeBodyExcerptBytes := by
      rw [ValidateUnit.overlaid]
      cases hlog : own.logEvents with
      | none => exact atMost_min _ _
      | some logEvents => exact hwithin.logEvents logEvents hlog
    have hsampleField : ∀ {α : Type} (field : ValidateSample → Option α),
        (∀ sample : ValidateSample, sample.Complete → sample.rate.isSome → (field sample).isSome) →
        Keeps own (validateFor kind policy limits.validation limits.xml)
          (own.overlaid (validateFor kind policy limits.validation limits.xml))
          fun u => u.sample.bind field := by
      intro α field hfield
      refine (keepsSample_iff hfield).mpr fun sample hsample hwarns => ?_
      exact hfield sample (hwithin.complete sample hsample hwarns) (hrate sample hsample)
    refine ⟨?_, ?_, ?_, ?_, hexcerpt, ?_, ?_⟩
    · rw [hblock]
      exact atMost_min _ _
    · rw [hblock]
      exact atMost_min _ _
    · rw [hblock]
      exact atMost_min _ _
    · exact (atMost_or_iff (Nat.min_le_right _ _)).mpr hwithin.maxConcurrent
    · intro hrequest
      exact (sampling_iff hrate).mpr (hwithin.rate (request_over_iff.mp hrequest))
    · exact {
        request := keeps_of_or rfl
        response := keeps_of_or rfl
        downgradeReason := keeps_of_or rfl
        headers := keeps_of_or rfl
        body := keeps_of_or rfl
        maxConcurrent := keeps_of_or rfl
        onSaturated := keeps_of_or rfl
        contentType := keeps_of_none rfl halways
        maxBodyBytes := keeps_of_none rfl halways
        maxDepth := keeps_of_none rfl halways
        maxArrayLength := keeps_of_none rfl halways
        duplicateKeys := keeps_of_none rfl halways
        maxElements := keeps_of_none rfl halways
        alwaysUnderBytes := hsampleField _ fun _ h _ => h.1
        rate := hsampleField _ fun _ _ h => h
        coldStart := hsampleField _ fun _ h _ => h.2.1
        onFailureEscalateSec := hsampleField _ fun _ h _ => h.2.2.1
        key := hsampleField _ fun _ h _ => h.2.2.2
        includeBodyExcerptBytes := by
          cases hlog : own.logEvents with
          | none => exact keeps_of_none rfl hlog
          | some logEvents =>
            obtain ⟨n, hset, -⟩ := hwithin.logEvents logEvents hlog
            exact (keeps_iff_isSome rfl hlog rfl rfl).mpr (by rw [hset]; rfl) }

end

theorem bounded_iff (others : UnitKey → Json → List String) (kind : ResourceKind)
    (limits : ConfigLimits) (doc : Document) (h : Valid (validateUnit others) kind doc)
    (operationId : Option String) :
    let policy := activeDocument doc
    let own := (overrideOf policy operationId).getD {}
    Bounded own (validateFor kind policy limits.validation limits.xml)
        (effectiveValidate kind limits policy operationId) limits ↔
      KeepsToCeilings limits policy own := by
  intro policy own
  have hown : own.always = none ∧ ∀ sample, own.sample = some sample → sample.rate.isSome := by
    cases hoverride : overrideOf policy operationId with
    | none =>
      have hempty : own = {} := by simp only [own, hoverride, Option.getD_none]
      rw [hempty]
      exact ⟨rfl, nofun⟩
    | some unit =>
      have hunit : own = unit := by simp only [own, hoverride, Option.getD_some]
      rw [hunit]
      exact overrideOf_accepted h hoverride
  exact bounded_over_iff hown.1 hown.2

/-- The limits of an estate that sets none (`control-plane/src/egress.ts:70-92`). -/
def defaultLimits : ConfigLimits where
  xml :=
    { maxPrefixBytes := 8192
      maxDepth := 32
      maxElements := 100000
      maxBytes := 8 * 1024 * 1024
      contentTypes := ["text/xml", "application/soap+xml"] }
  validation :=
    { maxBodyBytes := 8 * 1024 * 1024
      minSampleRate := 1 / 100
      maxConcurrent := 8
      maxIncludeBodyExcerptBytes := 0 }

def overriding (operationId : String) (override : Members) : Document :=
  (∅ : Document).insert (operationUnitKey operationId "validate") (.obj override)

theorem bounded_allowed_rate :
    let policy := activeDocument (overriding "getPet" [("request", .str "warning"),
      ("downgradeReason", .str "schema under review"), ("maxConcurrent", .num 4),
      ("sample", .obj [("rate", .num (1 / 100)), ("coldStart", .num 5),
        ("alwaysUnderBytes", .num 0), ("onFailureEscalateSec", .num 60),
        ("key", .arr [.str "operation"])])])
    let own := (overrideOf policy (some "getPet")).getD {}
    Bounded own (validateFor .rest policy defaultLimits.validation defaultLimits.xml)
        (effectiveValidate .rest defaultLimits policy (some "getPet")) defaultLimits ↔
      KeepsToCeilings defaultLimits policy own :=
  bounded_iff (fun _ _ => []) .rest defaultLimits _ (by decide +kernel) (some "getPet")

theorem override_escapes_the_ceilings :
    let doc := overriding "getPet" [("request", .str "warning"),
      ("downgradeReason", .str "schema under review"), ("maxConcurrent", .num 64),
      ("sample", .obj [("rate", .num (1 / 1000))])]
    let policy := activeDocument doc
    let own := (overrideOf policy (some "getPet")).getD {}
    let unit := effectiveValidate .rest defaultLimits policy (some "getPet")
    Valid (validateUnit fun _ _ => []) .rest doc ∧ unit.request = some .warning ∧
      sampleRate unit = 1 / 1000 ∧ unit.maxConcurrent = some 64 ∧
      ¬ Bounded own (validateFor .rest policy defaultLimits.validation defaultLimits.xml) unit
        defaultLimits := by
  intro doc policy own unit
  have hvalid : Valid (validateUnit fun _ _ => []) .rest doc := by decide +kernel
  have hrequest : unit.request = some .warning := by decide +kernel
  have hrate : sampleRate unit = 1 / 1000 := by decide +kernel
  have hmax : unit.maxConcurrent = some 64 := by decide +kernel
  refine ⟨hvalid, hrequest, hrate, hmax, fun hbounded => ?_⟩
  obtain ⟨n, hn, hle⟩ := hbounded.maxConcurrent
  rw [hmax] at hn
  cases hn
  exact absurd hle (by decide)

end Apim.Validation
