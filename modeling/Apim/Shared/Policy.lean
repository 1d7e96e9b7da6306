import Apim.Lib.Overlay
import Apim.Shared.Json

/-!
# Policy documents

A policy document is a dictionary of units, keyed as the source keys them. This module has the
part of `shared/policy.ts` that looks at a document as a whole: which units may be attached to an
environment's global tier (lines 56-106), which units a document switches off and what is left of
it (lines 108-145), and the rules that hold across units (`validateDocument`, lines 1638-1741).
What one unit's own value must look like is the function `validateUnit` of the same file; it is a
parameter here, so every result holds whatever the vocabulary of a single unit is. A refusal keeps
its case and its data, not its sentence.
-/

namespace Apim
open Overlay

abbrev UnitKey := String

abbrev Document := Dict UnitKey Json

/-- `RESOURCE_KINDS` (`shared/types.ts:9`). -/
inductive ResourceKind where
  | rest
  | soap
  | mcp
  | a2a
  deriving DecidableEq, Repr

namespace Policy

/-- `POLICY_UNITS` (`shared/policy.ts:19-44`). -/
def POLICY_UNITS : List UnitKey :=
  ["auth.subscriptionKey", "auth.basic", "auth.jwt", "auth.introspection", "auth.mtls", "ipAllow",
    "cors", "preconditions", "validate", "rewrite", "headers.request", "headers.response",
    "transform", "kafkaProduce", "cache", "rateLimit", "quota", "timeoutMs", "retries",
    "circuitBreaker", "concurrency", "backendAuth", "passthrough", "errorFormat"]

/-- `GLOBAL_UNITS` (`shared/policy.ts:56-74`). -/
def GLOBAL_UNITS : List UnitKey :=
  ["auth.subscriptionKey", "auth.basic", "auth.jwt", "auth.introspection", "auth.mtls", "ipAllow",
    "cors", "preconditions", "validate", "headers.request", "headers.response", "rateLimit",
    "quota", "timeoutMs", "retries", "circuitBreaker", "concurrency"]

/-- `DISABLED_KEY` (`shared/policy.ts:122`). -/
def DISABLED_KEY : UnitKey := "disabled"

/-! ### Unit keys -/

/-- The characters of an operation id in a scoped key: `[A-Za-z0-9._:/{}-]`. -/
def operationIdChar (c : Char) : Bool :=
  c.isAlphanum || c == '.' || c == '_' || c == ':' || c == '/' || c == '-' ||
    c.toNat == 0x7b || c.toNat == 0x7d

def lineTerminator (c : Char) : Bool :=
  c.toNat == 0x0a || c.toNat == 0x0d || c.toNat == 0x2028 || c.toNat == 0x2029

/-- `operations["getPet"].rateLimit` gives `("getPet", "rateLimit")` (`shared/policy.ts:87-93`). -/
def parseOperationUnitKey (unitKey : UnitKey) : Option (String × String) := do
  let rest ← "operations[\"".toList.isPrefixOf? unitKey.toList
  let operationId := rest.takeWhile operationIdChar
  let unit ← "\"].".toList.isPrefixOf? (rest.dropWhile operationIdChar)
  if 1 ≤ operationId.length ∧ operationId.length ≤ 120 ∧ unit ≠ [] ∧
      unit.all (fun c => !lineTerminator c) then
    some (String.ofList operationId, String.ofList unit)
  else none

/-- `isGloballyAttachable` (`shared/policy.ts:99-104`). -/
def isGloballyAttachable (unitKey : UnitKey) : Bool :=
  if (parseOperationUnitKey unitKey).isSome then false
  else GLOBAL_UNITS.contains unitKey || unitKey == DISABLED_KEY

/-! ### The document as the gateway sees it -/

/-- The unit keys a document switches off, ignoring anything it does not carry
(`shared/policy.ts:124-129`). -/
def disabledUnits (doc : Document) : List UnitKey :=
  match doc.lookup DISABLED_KEY with
  | some raw => raw.strings.filter fun key => (doc.lookup key).isSome
  | none => []

/-- The document without the reserved key and without the units it names. The early return of the
source is the case in which there is nothing to take away (`shared/policy.ts:136-143`). -/
def activeDocument (doc : Document) : Document :=
  select (fun key _ => key != DISABLED_KEY && !(disabledUnits doc).contains key) doc

theorem lookup_activeDocument (doc : Document) (key : UnitKey) :
    (activeDocument doc).lookup key =
      if key = DISABLED_KEY ∨ key ∈ disabledUnits doc then none else doc.lookup key := by
  rw [activeDocument, lookup_select]
  by_cases hkey : key = DISABLED_KEY
  · cases doc.lookup key <;> simp [Option.filter, hkey]
  · by_cases hoff : key ∈ disabledUnits doc
    · cases doc.lookup key <;> simp [Option.filter, hoff]
    · cases doc.lookup key <;> simp [Option.filter, hoff, hkey]

theorem mem_disabledUnits (doc : Document) (key : UnitKey) :
    key ∈ disabledUnits doc ↔
      (∃ raw, doc.lookup DISABLED_KEY = some raw ∧ key ∈ raw.strings) ∧
        (doc.lookup key).isSome := by
  rw [disabledUnits]
  cases h : doc.lookup DISABLED_KEY with
  | none => simp
  | some raw => simp [List.mem_filter]

/-! ### Rules across units -/

inductive DocumentError where
  | unit (key : UnitKey) (detail : String)
  | countedWithoutKey (units : List UnitKey)
  | soapFaultOn (kind : ResourceKind)
  | jsonrpcOn (kind : ResourceKind)
  | websocketValidate (request : Json)
  | websocketTransformRequest
  | websocketTransformResponse
  | websocketCache
  | sseValidateResponse
  | sseTransformResponse
  | sseCache
  | soapToJsonOn (kind : ResourceKind)
  | kafkaProduceWith (other : UnitKey)
  | kafkaProduceOn (kind : ResourceKind)
  | operationCountedWithoutKey (key : UnitKey)

def truthy : Json → Bool
  | .null => false
  | .bool b => b
  | .num n => n != 0
  | .str s => s != ""
  | _ => true

def field? (doc : Document) (unit : UnitKey) (name : String) : Option Json :=
  (doc.lookup unit).bind (Json.member? name)

def transforms (value : Option Json) : Bool :=
  match value with
  | none => false
  | some .null => false
  | some v => v != .str "none"

def validates (value : Option Json) : Bool :=
  match value with
  | none => false
  | some v => v != .str "disabled"

def check (condition : Bool) (error : DocumentError) : List DocumentError :=
  if condition then [error] else []

/-- The rules of `validateDocument` that read the document as it runs
(`shared/policy.ts:1652-1738`). -/
def crossUnitErrors (kind : ResourceKind) (doc : Document) : List DocumentError :=
  let counted := ["rateLimit", "quota"].filter fun unit => (doc.lookup unit).isSome
  let keyed := (doc.lookup "auth.subscriptionKey").isSome
  let shape := field? doc "errorFormat" "shape"
  let websocket := (field? doc "passthrough" "websocket").any truthy
  let sse := (field? doc "passthrough" "sse").any truthy
  let cached := (doc.lookup "cache").isSome
  check (!counted.isEmpty && !keyed) (.countedWithoutKey counted) ++
  check (shape == some (.str "soap-fault") && kind != .soap) (.soapFaultOn kind) ++
  check (shape == some (.str "jsonrpc") && kind != .mcp && kind != .a2a) (.jsonrpcOn kind) ++
  check (websocket && validates (field? doc "validate" "request"))
    (.websocketValidate ((field? doc "validate" "request").getD .null)) ++
  check (websocket && transforms (field? doc "transform" "request")) .websocketTransformRequest ++
  check (websocket && transforms (field? doc "transform" "response"))
    .websocketTransformResponse ++
  check (websocket && cached) .websocketCache ++
  check (sse && validates (field? doc "validate" "response")) .sseValidateResponse ++
  check (sse && transforms (field? doc "transform" "response")) .sseTransformResponse ++
  check (sse && cached) .sseCache ++
  check (field? doc "transform" "response" == some (.str "soap-to-json") && kind != .soap)
    (.soapToJsonOn kind) ++
  (if (doc.lookup "kafkaProduce").isSome then
    (["rewrite", "transform"].filter fun other => (doc.lookup other).isSome).map
      .kafkaProduceWith ++ check (kind != .rest) (.kafkaProduceOn kind)
  else []) ++
  (doc.keys.filter fun key =>
    match parseOperationUnitKey key with
    | some (_, unit) => (unit == "rateLimit" || unit == "quota") && !keyed
    | none => false).map .operationCountedWithoutKey

section
variable (validateUnit : UnitKey → Json → List String)

def unitErrors (stored : Document) : List DocumentError :=
  stored.entries.flatMap fun entry => (validateUnit entry.1 entry.2).map (.unit entry.1)

/-- `validateDocument` (`shared/policy.ts:1638-1741`), as every caller in the control plane calls
it: for a resource, with its kind. -/
def validateDocument (kind : ResourceKind) (stored : Document) : List DocumentError :=
  unitErrors validateUnit stored ++ crossUnitErrors kind (activeDocument stored)

/-- The document is accepted: `validateDocument` has nothing to report. -/
def Valid (kind : ResourceKind) (stored : Document) : Prop :=
  validateDocument validateUnit kind stored = []

instance (kind : ResourceKind) (stored : Document) : Decidable (Valid validateUnit kind stored) :=
  decidable_of_iff ((validateDocument validateUnit kind stored).isEmpty = true)
    List.isEmpty_iff

def UnitsValid (stored : Document) : Prop :=
  ∀ key value, stored.lookup key = some value → validateUnit key value = []

theorem unitErrors_eq_nil_iff (stored : Document) :
    unitErrors validateUnit stored = [] ↔ UnitsValid validateUnit stored := by
  rw [unitErrors, List.flatMap_eq_nil_iff]
  constructor
  · intro h key value hlookup
    exact List.map_eq_nil_iff.mp (h ⟨key, value⟩ ((lookup_eq_some_iff stored key value).mp hlookup))
  · intro h entry hentry
    have hlookup : stored.lookup entry.1 = some entry.2 :=
      (lookup_eq_some_iff stored entry.1 entry.2).mpr hentry
    rw [h entry.1 entry.2 hlookup]
    rfl

theorem valid_iff (kind : ResourceKind) (stored : Document) :
    Valid validateUnit kind stored ↔
      UnitsValid validateUnit stored ∧ crossUnitErrors kind (activeDocument stored) = [] := by
  rw [Valid, validateDocument, List.append_eq_nil_iff, unitErrors_eq_nil_iff]

end

/-! ### Documents that answer alike -/

def Alike (a b : Document) : Prop := ∀ key, a.lookup key = b.lookup key

theorem disabledUnits_congr {a b : Document} (h : Alike a b) :
    disabledUnits a = disabledUnits b := by
  simp only [disabledUnits, h _]

theorem activeDocument_congr {a b : Document} (h : Alike a b) :
    Alike (activeDocument a) (activeDocument b) := by
  intro key
  rw [lookup_activeDocument, lookup_activeDocument, disabledUnits_congr h, h key]

theorem mem_keys_congr {a b : Document} (h : Alike a b) (key : UnitKey) :
    key ∈ a.keys ↔ key ∈ b.keys := by
  rw [← AList.mem_keys, ← AList.mem_keys, ← AList.lookup_isSome, ← AList.lookup_isSome, h key]

theorem crossUnitErrors_congr (kind : ResourceKind) {a b : Document} (h : Alike a b) :
    crossUnitErrors kind a = [] ↔ crossUnitErrors kind b = [] := by
  simp only [crossUnitErrors, field?, h _, List.append_eq_nil_iff, List.map_eq_nil_iff,
    List.filter_eq_nil_iff, mem_keys_congr h]

theorem activeDocument_idem (doc : Document) :
    Alike (activeDocument (activeDocument doc)) (activeDocument doc) := by
  intro key
  have hnone : disabledUnits (activeDocument doc) = [] := by
    rw [disabledUnits, lookup_activeDocument]
    simp
  rw [lookup_activeDocument, hnone]
  by_cases hkey : key = DISABLED_KEY
  · rw [lookup_activeDocument]
    simp [hkey]
  · simp [hkey]

theorem valid_iff_valid_active (validateUnit : UnitKey → Json → List String)
    (kind : ResourceKind) (doc : Document) :
    Valid validateUnit kind doc ↔
      UnitsValid validateUnit doc ∧ Valid validateUnit kind (activeDocument doc) := by
  rw [valid_iff, valid_iff, crossUnitErrors_congr kind (activeDocument_idem doc)]
  constructor
  · rintro ⟨hunits, hcross⟩
    refine ⟨hunits, fun key value hlookup => ?_, hcross⟩
    rw [lookup_activeDocument] at hlookup
    split at hlookup
    · cases hlookup
    · exact hunits key value hlookup
  · rintro ⟨hunits, -, hcross⟩
    exact ⟨hunits, hcross⟩

end Policy

end Apim
