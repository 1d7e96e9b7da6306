import Apim.DataPlane.Route
import Apim.Shared.Routing
import Mathlib.Data.Rat.Cast.Order

/-!
# The `validate` unit as it is accepted

`validateValidate` (`shared/policy.ts:1054-1184`) over the value a policy write carries, with the
readers of a member it uses (`shared/policy.ts:531-621`), the unit such a value stands for, and the
dispatch of `validateUnit` by unit key (`shared/policy.ts:1515-1586`). The values of the other units
are left to a parameter.
-/

namespace Apim.Validation

open Apim.Policy
open Apim.DataPlane (ValidationState ValidateAlways DuplicateKeys)

/-! ### The unit -/

inductive SampleKey where
  | operation
  | subscription
  deriving DecidableEq, Repr

inductive OnSaturated where
  | skip
  deriving DecidableEq, Repr

structure ValidateSample where
  alwaysUnderBytes : Option Nat := none
  rate : Option ℚ := none
  coldStart : Option Nat := none
  onFailureEscalateSec : Option Nat := none
  key : Option (List SampleKey) := none
  deriving DecidableEq

structure LogEvents where
  includeBodyExcerptBytes : Option Nat := none
  deriving DecidableEq, Repr

structure ValidateUnit where
  request : Option ValidationState := none
  response : Option ValidationState := none
  downgradeReason : Option String := none
  headers : Option Bool := none
  body : Option Bool := none
  always : Option ValidateAlways := none
  sample : Option ValidateSample := none
  maxConcurrent : Option Nat := none
  onSaturated : Option OnSaturated := none
  logEvents : Option LogEvents := none
  deriving DecidableEq

/-! ### Defaults -/

/-- `VALIDATE_DEFAULTS` (`shared/policy.ts:473-489`). -/
structure ValidateDefaults where
  request : ValidationState := .blocking
  response : ValidationState := .disabled
  headers : Bool := true
  body : Bool := true
  maxBodyBytes : Nat := 1024 * 1024
  rpcMaxBodyBytes : Nat := 256 * 1024
  maxDepth : Nat := 32
  maxArrayLength : Nat := 10000
  duplicateKeys : DuplicateKeys := .reject
  maxElements : Nat := 100000
  maxConcurrent : Nat := 8
  sampleRate : ℚ := 1 / 10
  coldStart : Nat := 20
  onFailureEscalateSec : Nat := 300
  alwaysUnderBytes : Nat := 65536

def VALIDATE_DEFAULTS : ValidateDefaults := {}

/-! ### The members of a value -/

abbrev Members := List (String × Json)

def unknownKeys (value : Members) (allowed : List String) (place : String) : List String :=
  let names := ", ".intercalate allowed
  ((value.map (·.1)).filter fun k => !allowed.contains k).map fun k =>
    s!"{place}: unknown field \"{k}\" (allowed: {names})"

def isIntBetween (low high : Nat) : Json → Bool
  | .num n => n.den == 1 && decide ((low : ℚ) ≤ n) && decide (n ≤ high)
  | _ => false

def intField (value : Option Json) (place : String) (low high : Nat) : List String :=
  match value with
  | none => []
  | some value =>
    if isIntBetween low high value then []
    else [s!"{place}: expected an integer between {low} and {high}"]

def boolField (value : Option Json) (place : String) : List String :=
  match value with
  | none => []
  | some (.bool _) => []
  | some _ => [s!"{place}: expected a boolean"]

/-- `stringArrayField`: `each` is the message for an item that is a string. -/
def stringArrayField (value : Option Json) (place : String) (each : String → Option String) :
    List String :=
  match value with
  | none => []
  | some (.arr items) =>
    items.zipIdx.flatMap fun (item, index) =>
      match item with
      | .str text => ((each text).map fun message => s!"{place}[{index}]: {message}").toList
      | _ => [s!"{place}[{index}]: expected a string"]
  | some _ => [s!"{place}: expected an array of strings"]

def isMediaType (text : String) : Bool :=
  let plain (c : Char) : Bool := c.isAlphanum || c == '.' || c == '+' || c == '-'
  let type := text.toList.takeWhile plain
  match text.toList.dropWhile plain with
  | '/' :: subtype => type ≠ [] && subtype ≠ [] && subtype.all fun c => plain c || c == '*'
  | _ => false

/-! ### `validateValidate` -/

def STATES : List String := ["blocking", "warning", "disabled"]

def stateField (value : Members) (direction : String) : List String :=
  match value.lookup direction with
  | none => []
  | some (.str text) =>
    if STATES.contains text then []
    else [s!"validate.{direction}: expected blocking, warning or disabled"]
  | some _ => [s!"validate.{direction}: expected blocking, warning or disabled"]

def isBlocking (value : Members) (direction : String) (default : ValidationState) : Bool :=
  match value.lookup direction with
  | none => default == .blocking
  | some .null => default == .blocking
  | some state => state == .str "blocking"

def reasonErrors (value : Members) : List String :=
  let reason := value.lookup "downgradeReason"
  if isBlocking value "request" VALIDATE_DEFAULTS.request then
    if reason.isSome then
      ["validate.downgradeReason: only applies when request is not blocking"]
    else []
  else
    let given : Bool :=
      match reason with
      | some (.str text) => 8 ≤ Routing.utf16Length (Routing.trim text.toList)
      | _ => false
    if given then []
    else
      ["validate.downgradeReason: required whenever request is not blocking, and long enough to " ++
        "be a reason. It is recorded in the audit log and listed in the governance report."]

def jsonErrors : Json → List String
  | .obj json =>
    unknownKeys json ["maxArrayLength", "duplicateKeys"] "validate.always.json" ++
    intField (json.lookup "maxArrayLength") "validate.always.json.maxArrayLength" 1 10000000 ++
    (match json.lookup "duplicateKeys" with
    | none => []
    | some keys =>
      if keys = .str "reject" ∨ keys = .str "last-wins" then []
      else ["validate.always.json.duplicateKeys: expected \"reject\" or \"last-wins\""])
  | _ => ["validate.always.json: expected an object"]

def xmlErrors : Json → List String
  | .obj xml =>
    unknownKeys xml ["maxElements"] "validate.always.xml" ++
    intField (xml.lookup "maxElements") "validate.always.xml.maxElements" 1 10000000
  | _ => ["validate.always.xml: expected an object"]

def alwaysErrors : Json → List String
  | .obj always =>
    unknownKeys always ["contentType", "maxBodyBytes", "maxDepth", "json", "xml"]
      "validate.always" ++
    stringArrayField (always.lookup "contentType") "validate.always.contentType" (fun item =>
      if isMediaType item then none else some "expected a media type") ++
    intField (always.lookup "maxBodyBytes") "validate.always.maxBodyBytes" 1
      (1024 * 1024 * 1024) ++
    intField (always.lookup "maxDepth") "validate.always.maxDepth" 1 512 ++
    ((always.lookup "json").map jsonErrors).getD [] ++
    ((always.lookup "xml").map xmlErrors).getD []
  | _ => ["validate.always: expected an object"]

def isRate : Option Json → Bool
  | some (.num rate) => decide (0 < rate) && decide (rate ≤ 1)
  | _ => false

def sampleErrors : Json → List String
  | .obj sample =>
    unknownKeys sample ["alwaysUnderBytes", "rate", "coldStart", "onFailureEscalateSec", "key"]
      "validate.sample" ++
    (if isRate (sample.lookup "rate") then []
    else ["validate.sample.rate: expected a number greater than 0 and at most 1"]) ++
    intField (sample.lookup "alwaysUnderBytes") "validate.sample.alwaysUnderBytes" 0
      (16 * 1024 * 1024) ++
    intField (sample.lookup "coldStart") "validate.sample.coldStart" 0 10000 ++
    intField (sample.lookup "onFailureEscalateSec") "validate.sample.onFailureEscalateSec" 0
      86400 ++
    stringArrayField (sample.lookup "key") "validate.sample.key" (fun item =>
      if item = "operation" ∨ item = "subscription" then none
      else some "expected \"operation\" or \"subscription\"")
  | _ => ["validate.sample: expected an object"]

def logEventsErrors : Json → List String
  | .obj logEvents =>
    unknownKeys logEvents ["includeBodyExcerptBytes"] "validate.logEvents" ++
    intField (logEvents.lookup "includeBodyExcerptBytes")
      "validate.logEvents.includeBodyExcerptBytes" 0 4096
  | _ => ["validate.logEvents: expected an object"]

def validateValidate (operationScoped : Bool) : Json → List String
  | .obj value =>
    unknownKeys value ["request", "response", "downgradeReason", "headers", "body", "always",
      "sample", "maxConcurrent", "onSaturated", "logEvents"] "validate" ++
    stateField value "request" ++ stateField value "response" ++
    boolField (value.lookup "headers") "validate.headers" ++
    boolField (value.lookup "body") "validate.body" ++
    reasonErrors value ++
    (match value.lookup "always" with
    | none => []
    | some always =>
      (if operationScoped then
        ["validate.always: is route-level only. It is enforced at pipeline step 3, before the " ++
          "operation is known at step 11, so a per-operation value could not be applied [R2-02]."]
      else []) ++ alwaysErrors always) ++
    (match value.lookup "sample" with
    | none => []
    | some sample =>
      (if isBlocking value "request" VALIDATE_DEFAULTS.request &&
          isBlocking value "response" VALIDATE_DEFAULTS.response then
        ["validate.sample: sampling exists only in warning mode. Sampling plus rejecting would " ++
          "make the same payload succeed or fail depending on where a counter landed."]
      else []) ++ sampleErrors sample) ++
    intField (value.lookup "maxConcurrent") "validate.maxConcurrent" 1 64 ++
    (match value.lookup "onSaturated" with
    | none => []
    | some onSaturated =>
      if onSaturated = .str "skip" then []
      else ["validate.onSaturated: only \"skip\" is implemented — the pool never queues without " ++
        "bound"]) ++
    ((value.lookup "logEvents").map logEventsErrors).getD []
  | _ => ["validate: expected an object"]

/-! ### `validateUnit` -/

/-- `OPERATION_OVERRIDABLE` (`shared/policy.ts:77-83`). -/
def OPERATION_OVERRIDABLE : List String := ["validate", "rateLimit", "quota", "timeoutMs", "cache"]

/-- `operationUnitKey` (`shared/policy.ts:96-98`). -/
def operationUnitKey (operationId unit : String) : UnitKey :=
  "operations[\"" ++ operationId ++ "\"]." ++ unit

section
variable (others : UnitKey → Json → List String)

def validateUnit (unitKey : UnitKey) (value : Json) : List String :=
  let overridable := ", ".intercalate OPERATION_OVERRIDABLE
  let known := ", ".intercalate POLICY_UNITS
  let units := "|".intercalate OPERATION_OVERRIDABLE
  match parseOperationUnitKey unitKey with
  | some (_, unit) =>
    if !OPERATION_OVERRIDABLE.contains unit then
      [s!"{unitKey}: only {overridable} may be overridden per operation. " ++
        "Route authentication has already run by the time the operation is known (pipeline step " ++
        "11), so an auth override could only re-authenticate or loosen the route; per-operation " ++
        "authorization is auth.jwt.scopeMap."]
    else if unit = "validate" then validateValidate true value
    else others unit value
  | none =>
    if unitKey = "validate" then validateValidate false value
    else if POLICY_UNITS.contains unitKey || unitKey == DISABLED_KEY then others unitKey value
    else
      [s!"unknown policy unit \"{unitKey}\" (the vocabulary is closed; known units: {known}, " ++
        "and operations[\"<id>\"].\x7b" ++ units ++ "\x7d)"]

end

/-! ### The unit a value stands for -/

def state? : Json → Option ValidationState
  | .str "blocking" => some .blocking
  | .str "warning" => some .warning
  | .str "disabled" => some .disabled
  | _ => none

def bool? : Json → Option Bool
  | .bool b => some b
  | _ => none

def rate? : Json → Option ℚ
  | .num n => some n
  | _ => none

def nat? : Json → Option Nat
  | .num n => if n.den = 1 ∧ 0 ≤ n then some n.num.toNat else none
  | _ => none

def duplicateKeys? : Json → Option DuplicateKeys
  | .str "reject" => some .reject
  | .str "last-wins" => some .lastWins
  | _ => none

def sampleKey? : String → Option SampleKey
  | "operation" => some .operation
  | "subscription" => some .subscription
  | _ => none

def ValidateAlways.ofJson (always : Json) : ValidateAlways where
  contentType := (always.member? "contentType").map Json.strings
  maxBodyBytes := (always.member? "maxBodyBytes").bind nat?
  maxDepth := (always.member? "maxDepth").bind nat?
  maxArrayLength := ((always.member? "json").bind (Json.member? "maxArrayLength")).bind nat?
  duplicateKeys := ((always.member? "json").bind (Json.member? "duplicateKeys")).bind duplicateKeys?
  xmlMaxElements := ((always.member? "xml").bind (Json.member? "maxElements")).bind nat?

def ValidateSample.ofJson (sample : Json) : ValidateSample where
  alwaysUnderBytes := (sample.member? "alwaysUnderBytes").bind nat?
  rate := (sample.member? "rate").bind rate?
  coldStart := (sample.member? "coldStart").bind nat?
  onFailureEscalateSec := (sample.member? "onFailureEscalateSec").bind nat?
  key := (sample.member? "key").map fun key => key.strings.filterMap sampleKey?

def LogEvents.ofJson (logEvents : Json) : LogEvents where
  includeBodyExcerptBytes := (logEvents.member? "includeBodyExcerptBytes").bind nat?

def ValidateUnit.ofJson (value : Json) : ValidateUnit where
  request := (value.member? "request").bind state?
  response := (value.member? "response").bind state?
  downgradeReason := (value.member? "downgradeReason").bind Json.asString?
  headers := (value.member? "headers").bind bool?
  body := (value.member? "body").bind bool?
  always := (value.member? "always").map ValidateAlways.ofJson
  sample := (value.member? "sample").map ValidateSample.ofJson
  maxConcurrent := (value.member? "maxConcurrent").bind nat?
  onSaturated := (value.member? "onSaturated").map fun _ => .skip
  logEvents := (value.member? "logEvents").map LogEvents.ofJson

def ValidateUnit.overlaid (own base : ValidateUnit) : ValidateUnit where
  request := own.request.or base.request
  response := own.response.or base.response
  downgradeReason := own.downgradeReason.or base.downgradeReason
  headers := own.headers.or base.headers
  body := own.body.or base.body
  always := own.always.or base.always
  sample := own.sample.or base.sample
  maxConcurrent := own.maxConcurrent.or base.maxConcurrent
  onSaturated := own.onSaturated.or base.onSaturated
  logEvents := own.logEvents.or base.logEvents

/-! ### What an accepted value is -/

theorem rate_of_sampleErrors {sample : Json} (h : sampleErrors sample = []) :
    ∃ rate, (ValidateSample.ofJson sample).rate = some rate ∧ 0 < rate ∧ rate ≤ 1 := by
  cases sample with
  | obj sample =>
    simp only [sampleErrors, List.append_eq_nil_iff] at h
    have hrate : isRate (sample.lookup "rate") = true := by
      by_contra hnot
      have := h.1.1.1.1.2
      rw [if_neg hnot] at this
      cases this
    simp only [ValidateSample.ofJson, Json.member?]
    cases hlookup : sample.lookup "rate" with
    | none =>
      rw [hlookup] at hrate
      cases hrate
    | some value =>
      rw [hlookup] at hrate
      cases value with
      | num n =>
        simp only [isRate, Bool.and_eq_true, decide_eq_true_eq] at hrate
        exact ⟨n, rfl, hrate⟩
      | _ => cases hrate
  | _ => cases h

theorem ValidateUnit.ofJson_scoped {value : Json} (h : validateValidate true value = []) :
    (ofJson value).always = none ∧
      ∀ sample, (ofJson value).sample = some sample → sample.rate.isSome := by
  cases value with
  | obj value =>
    simp only [validateValidate, List.append_eq_nil_iff] at h
    obtain ⟨⟨⟨⟨⟨-, halways⟩, hsample⟩, -⟩, -⟩, -⟩ := h
    constructor
    · cases hlookup : value.lookup "always" with
      | none => simp [ofJson, Json.member?, hlookup]
      | some always =>
        rw [hlookup] at halways
        cases halways
    · intro sample heq
      cases hlookup : value.lookup "sample" with
      | none => simp [ofJson, Json.member?, hlookup] at heq
      | some json =>
        rw [hlookup] at hsample
        obtain ⟨rate, hrate, -⟩ := rate_of_sampleErrors (List.append_eq_nil_iff.mp hsample).2
        have hread : sample = .ofJson json := by
          simpa [ofJson, Json.member?, hlookup] using heq.symm
        rw [hread, hrate]
        rfl
  | _ => cases h

def spread (own base : Members) : Members :=
  own ++ base.filter fun member => (own.lookup member.1).isNone

theorem lookup_filter_key (members : Members) (keep : String → Bool) (name : String) :
    (members.filter fun member => keep member.1).lookup name =
      if keep name then members.lookup name else none := by
  induction members with
  | nil => simp
  | cons member members ih =>
    obtain ⟨key, value⟩ := member
    by_cases hkeep : keep key = true
    · rw [List.filter_cons, if_pos hkeep]
      by_cases hname : name = key
      · subst hname
        simp [hkeep]
      · have hne : (name == key) = false := by simpa using hname
        rw [List.lookup_cons, List.lookup_cons, hne, ih]
    · rw [List.filter_cons, if_neg hkeep, ih]
      by_cases hname : name = key
      · subst hname
        simp [hkeep]
      · have hne : (name == key) = false := by simpa using hname
        rw [List.lookup_cons, hne]

theorem lookup_spread (own base : Members) (name : String) :
    (spread own base).lookup name = (own.lookup name).or (base.lookup name) := by
  rw [spread, List.lookup_append, lookup_filter_key base fun key => (own.lookup key).isNone]
  cases own.lookup name <;> simp

end Apim.Validation
