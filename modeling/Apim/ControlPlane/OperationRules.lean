import Apim.ControlPlane.Ceilings

/-!
# The rules across units, for an operation

`validateDocument` states its rules across units on the keys of a route (`shared/policy.ts:1638-1741`);
the gateway lays an operation's own units over them on the request path
(`data-plane/src/pipeline.ts:2067-2082`). `applied` is what an operation runs under.
-/

namespace Apim.Validation
open Apim.Policy Overlay

def operationPolicy (policy : Document) (operationId : Option String) : Document :=
  match operationId.filter (· ≠ "") with
  | none => ∅
  | some operationId =>
    OPERATION_OVERRIDABLE.foldl (fun out unit =>
      match policy.lookup (operationUnitKey operationId unit) with
      | some value => out.insert unit value
      | none => out) ∅

def members : Json → Members
  | .obj members => members
  | _ => []

def appliedValidate (own base : Option Json) : Option Json :=
  match own, base with
  | none, base => base
  | some own, base => some (.obj (spread (members own) ((base.map members).getD [])))

def applied (policy : Document) (operationId : Option String) : Document :=
  let own := operationPolicy policy operationId
  match appliedValidate (own.lookup "validate") (policy.lookup "validate") with
  | some validate => (overlaid own policy).insert "validate" validate
  | none => overlaid own policy

def ownUnit (policy : Document) (operationId : Option String) (unit : String) : Option Json :=
  (operationId.filter (· ≠ "")).bind fun operationId => policy.lookup (operationUnitKey operationId unit)

theorem lookup_operationPolicy (policy : Document) (operationId : Option String) (unit : UnitKey) :
    (operationPolicy policy operationId).lookup unit =
      if unit ∈ OPERATION_OVERRIDABLE then ownUnit policy operationId unit else none := by
  unfold operationPolicy ownUnit
  cases operationId.filter (· ≠ "") with
  | none => simp
  | some operationId =>
    simp only [Option.bind_some]
    generalize hwrite : (fun (out : Document) unit =>
      match policy.lookup (operationUnitKey operationId unit) with
      | some value => out.insert unit value
      | none => out) = write
    have hown : ∀ (d : Document) (row k : UnitKey), k ≠ id row → (write d row).lookup k = d.lookup k := by
      intro d row k hne
      rw [← hwrite]
      simp only
      split
      · exact AList.lookup_insert_ne hne
      · rfl
    by_cases hmem : unit ∈ OPERATION_OVERRIDABLE
    · rw [if_pos hmem]
      obtain ⟨d, hd, hwritten⟩ := lookup_foldl_of_mem hown ∅ (by decide) hmem
      simp only [id] at hd hwritten
      rw [hwritten, ← hwrite]
      simp only
      cases hvalue : policy.lookup (operationUnitKey operationId unit) with
      | some value => exact AList.lookup_insert d
      | none => exact hd
    · rw [if_neg hmem, lookup_foldl_of_notMem hown ∅ (by simpa using hmem)]
      rfl

theorem lookup_applied_validate (policy : Document) (operationId : Option String) :
    (applied policy operationId).lookup "validate" =
      appliedValidate (ownUnit policy operationId "validate") (policy.lookup "validate") := by
  have hlookup := lookup_operationPolicy policy operationId "validate"
  rw [if_pos (by decide)] at hlookup
  unfold applied
  simp only [hlookup]
  cases hvalidate : appliedValidate (ownUnit policy operationId "validate")
      (policy.lookup "validate") with
  | some validate => exact AList.lookup_insert _
  | none =>
    simp only [lookup_over, hlookup]
    cases hown : ownUnit policy operationId "validate" with
    | none =>
      rw [hown] at hvalidate
      rw [Option.none_or]
      exact hvalidate
    | some own =>
      rw [hown] at hvalidate
      cases hvalidate

theorem lookup_applied (policy : Document) (operationId : Option String) {unit : UnitKey}
    (hunit : unit ≠ "validate") :
    (applied policy operationId).lookup unit =
      if unit ∈ OPERATION_OVERRIDABLE then (ownUnit policy operationId unit).or (policy.lookup unit)
      else policy.lookup unit := by
  have hover : (overlaid (operationPolicy policy operationId) policy).lookup unit =
      if unit ∈ OPERATION_OVERRIDABLE then (ownUnit policy operationId unit).or (policy.lookup unit)
      else policy.lookup unit := by
    rw [lookup_over, lookup_operationPolicy]
    split
    · rfl
    · exact Option.none_or
  unfold applied
  simp only
  split
  · rw [AList.lookup_insert_ne hunit]
    exact hover
  · exact hover

/-! ### An operation that counts has its key in the document -/

theorem parsed_of_validateUnit {others : UnitKey → Json → List String} {operationId unit : String}
    {value : Json} (h : validateUnit others (operationUnitKey operationId unit) value = []) :
    ∃ parsed, parseOperationUnitKey (operationUnitKey operationId unit) = some parsed ∧
      parsed.2 = unit := by
  rw [validateUnit] at h
  cases hparse : parseOperationUnitKey (operationUnitKey operationId unit) with
  | none =>
    rw [hparse] at h
    have hbracket : '[' ∈ (operationUnitKey operationId unit).toList := by
      simp [operationUnitKey]
    have hunknown : operationUnitKey operationId unit ∉ "validate" :: DISABLED_KEY :: POLICY_UNITS :=
      fun hin => known_no_bracket _ hin hbracket
    simp only [List.mem_cons, not_or] at hunknown
    obtain ⟨hvalidate, hdisabled, hunits⟩ := hunknown
    simp [hvalidate, hdisabled, hunits] at h
  | some parsed =>
    rw [hparse] at h
    by_cases hover : parsed.2 ∈ OPERATION_OVERRIDABLE
    · exact ⟨parsed, rfl, (parseOperationUnitKey_eq hparse).resolve_right (overridable_no_quote _ hover)⟩
    · simp [hover] at h

theorem check_eq_nil {condition : Bool} {error : DocumentError} :
    check condition error = [] ↔ condition = false := by
  cases condition <;> simp [check]

/-! ### The rules, one by one -/

structure Rules (kind : ResourceKind) (doc : Document) : Prop where
  counted : (doc.lookup "rateLimit").isSome ∨ (doc.lookup "quota").isSome →
    (doc.lookup "auth.subscriptionKey").isSome
  soapFault : field? doc "errorFormat" "shape" = some (.str "soap-fault") → kind = .soap
  jsonrpc : field? doc "errorFormat" "shape" = some (.str "jsonrpc") → kind = .mcp ∨ kind = .a2a
  websocket : (field? doc "passthrough" "websocket").any truthy = true →
    validates (field? doc "validate" "request") = false ∧
    transforms (field? doc "transform" "request") = false ∧
    transforms (field? doc "transform" "response") = false ∧ doc.lookup "cache" = none
  sse : (field? doc "passthrough" "sse").any truthy = true →
    validates (field? doc "validate" "response") = false ∧
    transforms (field? doc "transform" "response") = false ∧ doc.lookup "cache" = none
  soapToJson : field? doc "transform" "response" = some (.str "soap-to-json") → kind = .soap
  kafkaProduce : (doc.lookup "kafkaProduce").isSome →
    doc.lookup "rewrite" = none ∧ doc.lookup "transform" = none ∧ kind = .rest
  operations : ∀ key ∈ doc, ∀ operationId unit, parseOperationUnitKey key = some (operationId, unit) →
    unit = "rateLimit" ∨ unit = "quota" → (doc.lookup "auth.subscriptionKey").isSome

theorem crossUnitErrors_eq_nil_iff {kind : ResourceKind} {doc : Document} :
    crossUnitErrors kind doc = [] ↔ Rules kind doc := by
  have hcounted : (["rateLimit", "quota"].filter fun unit => (doc.lookup unit).isSome).isEmpty = false ↔
      (doc.lookup "rateLimit").isSome ∨ (doc.lookup "quota").isSome := by
    cases hrate : doc.lookup "rateLimit" <;> cases hquota : doc.lookup "quota" <;>
      simp [List.filter, hrate, hquota]
  have hbeside : (["rewrite", "transform"].filter fun other => (doc.lookup other).isSome) = [] ↔
      doc.lookup "rewrite" = none ∧ doc.lookup "transform" = none := by
    cases hrewrite : doc.lookup "rewrite" <;> cases htransform : doc.lookup "transform" <;>
      simp [List.filter, hrewrite, htransform]
  simp only [crossUnitErrors, List.append_eq_nil_iff, check_eq_nil, List.map_eq_nil_iff,
    List.filter_eq_nil_iff]
  constructor
  · intro h
    obtain ⟨⟨⟨⟨⟨⟨⟨⟨⟨⟨⟨⟨hcount, hfault⟩, hrpc⟩, hwsValidate⟩, hwsRequest⟩, hwsResponse⟩, hwsCache⟩,
      hsseValidate⟩, hsseResponse⟩, hsseCache⟩, hsoap⟩, hkafka⟩, hoperations⟩ := h
    refine ⟨?counted, ?soapFault, ?jsonrpc, ?websocket, ?sse, ?soapToJson, ?kafkaProduce, ?operations⟩
    case counted =>
      intro hcounts
      simpa [hcounted.mpr hcounts] using hcount
    case soapFault =>
      intro hshape
      simpa [hshape] using hfault
    case jsonrpc =>
      intro hshape
      rw [hshape] at hrpc
      cases kind <;> simp_all
    case websocket =>
      intro hwebsocket
      simp only [hwebsocket, Bool.true_and] at hwsValidate hwsRequest hwsResponse hwsCache
      exact ⟨hwsValidate, hwsRequest, hwsResponse, by simpa using hwsCache⟩
    case sse =>
      intro hsse
      simp only [hsse, Bool.true_and] at hsseValidate hsseResponse hsseCache
      exact ⟨hsseValidate, hsseResponse, by simpa using hsseCache⟩
    case soapToJson =>
      intro hresponse
      simpa [hresponse] using hsoap
    case kafkaProduce =>
      intro hproduce
      rw [if_pos hproduce, List.append_eq_nil_iff, List.map_eq_nil_iff, hbeside, check_eq_nil] at hkafka
      exact ⟨hkafka.1.1, hkafka.1.2, by simpa using hkafka.2⟩
    case operations =>
      intro key hkey operationId unit hparse hcounts
      have hnone := hoperations key (AList.mem_keys.mp hkey)
      rw [hparse] at hnone
      simp only [Bool.and_eq_true, Bool.or_eq_true, beq_iff_eq, Bool.not_eq_true', not_and] at hnone
      exact Bool.of_not_eq_false (hnone hcounts)
  · intro rules
    refine ⟨⟨⟨⟨⟨⟨⟨⟨⟨⟨⟨⟨?count, ?fault⟩, ?shapeRpc⟩, ?wsValidate⟩, ?wsRequest⟩, ?wsResponse⟩, ?wsCache⟩,
      ?sseValidate⟩, ?sseResponse⟩, ?sseCache⟩, ?toJson⟩, ?produce⟩, ?perOperation⟩
    case count =>
      by_cases hcounts : (doc.lookup "rateLimit").isSome ∨ (doc.lookup "quota").isSome
      · rw [rules.counted hcounts]
        simp
      · have hempty := mt hcounted.mp hcounts
        simp only [Bool.not_eq_false] at hempty
        rw [hempty]
        rfl
    case fault =>
      by_cases hshape : field? doc "errorFormat" "shape" = some (.str "soap-fault")
      · simp [rules.soapFault hshape]
      · simp [hshape]
    case shapeRpc =>
      by_cases hshape : field? doc "errorFormat" "shape" = some (.str "jsonrpc")
      · cases rules.jsonrpc hshape with
        | inl hmcp => simp [hmcp]
        | inr ha2a => simp [ha2a]
      · simp [hshape]
    case wsValidate =>
      by_cases hwebsocket : (field? doc "passthrough" "websocket").any truthy = true
      · simp [(rules.websocket hwebsocket).1]
      · simp [hwebsocket]
    case wsRequest =>
      by_cases hwebsocket : (field? doc "passthrough" "websocket").any truthy = true
      · simp [(rules.websocket hwebsocket).2.1]
      · simp [hwebsocket]
    case wsResponse =>
      by_cases hwebsocket : (field? doc "passthrough" "websocket").any truthy = true
      · simp [(rules.websocket hwebsocket).2.2.1]
      · simp [hwebsocket]
    case wsCache =>
      by_cases hwebsocket : (field? doc "passthrough" "websocket").any truthy = true
      · simp [(rules.websocket hwebsocket).2.2.2]
      · simp [hwebsocket]
    case sseValidate =>
      by_cases hsse : (field? doc "passthrough" "sse").any truthy = true
      · simp [(rules.sse hsse).1]
      · simp [hsse]
    case sseResponse =>
      by_cases hsse : (field? doc "passthrough" "sse").any truthy = true
      · simp [(rules.sse hsse).2.1]
      · simp [hsse]
    case sseCache =>
      by_cases hsse : (field? doc "passthrough" "sse").any truthy = true
      · simp [(rules.sse hsse).2.2]
      · simp [hsse]
    case toJson =>
      by_cases hresponse : field? doc "transform" "response" = some (.str "soap-to-json")
      · simp [rules.soapToJson hresponse]
      · simp [hresponse]
    case produce =>
      split
      · rename_i hproduce
        obtain ⟨hrewrite, htransform, hrest⟩ := rules.kafkaProduce hproduce
        rw [List.append_eq_nil_iff, List.map_eq_nil_iff, hbeside, check_eq_nil]
        exact ⟨⟨hrewrite, htransform⟩, by simp [hrest]⟩
      · rfl
    case perOperation =>
      intro key hkey
      cases hparse : parseOperationUnitKey key with
      | none => simp
      | some parsed =>
        have hkeyed := rules.operations key (AList.mem_keys.mpr hkey) parsed.1 parsed.2 hparse
        simp only [Bool.and_eq_true, Bool.or_eq_true, beq_iff_eq, Bool.not_eq_true', not_and]
        intro hcounts
        simp [hkeyed hcounts]

section
variable {others : UnitKey → Json → List String} {kind : ResourceKind} {policy : Document}
  {operationId : Option String}

theorem Rules.keyed_of_ownUnit (hrules : Rules kind policy)
    (hunits : UnitsValid (validateUnit others) policy) {unit : String}
    (hcounts : unit = "rateLimit" ∨ unit = "quota")
    (hown : (ownUnit policy operationId unit).isSome) :
    (policy.lookup "auth.subscriptionKey").isSome := by
  obtain ⟨value, hvalue⟩ := Option.isSome_iff_exists.mp hown
  obtain ⟨operationId, -, hlookup⟩ := Option.bind_eq_some_iff.mp hvalue
  obtain ⟨⟨id, parsed⟩, hparsed, rfl⟩ := parsed_of_validateUnit (hunits _ _ hlookup)
  have hkey : operationUnitKey operationId parsed ∈ policy := by
    rw [← AList.lookup_isSome, hlookup]
    rfl
  exact hrules.operations _ hkey id parsed hparsed hcounts

end

/-! ### The rules, for an operation -/

def turnsOn (policy : Document) (operationId : Option String) (direction : String) : Bool :=
  validates ((ownUnit policy operationId "validate").bind (Json.member? direction))

/-- The overrides that the exclusion table has no place for: on a WebSocket route a request validation
or a cache, on an SSE route a response validation or a cache. -/
structure Clear (policy : Document) (operationId : Option String) : Prop where
  websocket : (field? policy "passthrough" "websocket").any truthy = true →
    turnsOn policy operationId "request" = false ∧ ownUnit policy operationId "cache" = none
  sse : (field? policy "passthrough" "sse").any truthy = true →
    turnsOn policy operationId "response" = false ∧ ownUnit policy operationId "cache" = none

section
variable {others : UnitKey → Json → List String} {kind : ResourceKind} {policy : Document}
  {operationId : Option String}

theorem field_applied {unit : UnitKey} (hunit : unit ∉ OPERATION_OVERRIDABLE) (name : String) :
    field? (applied policy operationId) unit name = field? policy unit name := by
  have hne : unit ≠ "validate" := fun heq => hunit (heq ▸ by decide)
  unfold field?
  rw [lookup_applied policy operationId hne, if_neg hunit]

theorem field_applied_validate (hunits : UnitsValid (validateUnit others) policy) (direction : String) :
    field? (applied policy operationId) "validate" direction =
      ((ownUnit policy operationId "validate").bind (Json.member? direction)).or
        (field? policy "validate" direction) := by
  unfold field?
  rw [lookup_applied_validate]
  cases hown : ownUnit policy operationId "validate" with
  | none => rfl
  | some own =>
    obtain ⟨operationId, -, hlookup⟩ := Option.bind_eq_some_iff.mp hown
    have haccepted := scoped_of_validateUnit (hunits _ _ hlookup)
    cases own with
    | obj own =>
      simp only [appliedValidate, members, Option.bind_some, Json.member?, lookup_spread]
      cases hbase : policy.lookup "validate" with
      | none => rfl
      | some base => cases base <;> rfl
    | _ => cases haccepted

theorem validates_or {own base : Option Json} (hbase : validates base = false) :
    validates (own.or base) = validates own := by
  cases own with
  | none => exact hbase
  | some own => rfl

theorem mem_applied {key : UnitKey} (hkey : key ∈ applied policy operationId) :
    key ∈ policy ∨ key ∈ OPERATION_OVERRIDABLE := by
  rw [← AList.lookup_isSome] at hkey
  by_cases hover : key ∈ OPERATION_OVERRIDABLE
  · exact .inr hover
  · have hne : key ≠ "validate" := fun heq => hover (heq ▸ by decide)
    rw [lookup_applied policy operationId hne, if_neg hover] at hkey
    exact .inl (AList.lookup_isSome.mp hkey)

theorem rules_applied_iff (hunits : UnitsValid (validateUnit others) policy) (hrules : Rules kind policy) :
    Rules kind (applied policy operationId) ↔ Clear policy operationId := by
  have hpassthrough (name : String) : field? (applied policy operationId) "passthrough" name =
      field? policy "passthrough" name := field_applied (by decide) name
  have htransform (name : String) : field? (applied policy operationId) "transform" name =
      field? policy "transform" name := field_applied (by decide) name
  have hcache : (applied policy operationId).lookup "cache" =
      (ownUnit policy operationId "cache").or (policy.lookup "cache") := by
    rw [lookup_applied policy operationId (by decide), if_pos (by decide)]
  constructor
  · intro h
    constructor
    · intro hwebsocket
      obtain ⟨hvalidate, -, -, hnone⟩ := h.websocket (by rw [hpassthrough]; exact hwebsocket)
      obtain ⟨hbase, -, -, -⟩ := hrules.websocket hwebsocket
      rw [field_applied_validate hunits, validates_or hbase] at hvalidate
      rw [hcache, Option.or_eq_none_iff] at hnone
      exact ⟨hvalidate, hnone.1⟩
    · intro hsse
      obtain ⟨hvalidate, -, hnone⟩ := h.sse (by rw [hpassthrough]; exact hsse)
      obtain ⟨hbase, -, -⟩ := hrules.sse hsse
      rw [field_applied_validate hunits, validates_or hbase] at hvalidate
      rw [hcache, Option.or_eq_none_iff] at hnone
      exact ⟨hvalidate, hnone.1⟩
  · intro hclear
    have hkeyed : (applied policy operationId).lookup "auth.subscriptionKey" =
        policy.lookup "auth.subscriptionKey" := by
      rw [lookup_applied policy operationId (by decide), if_neg (by decide)]
    have hcounts {unit : UnitKey} (hunit : unit = "rateLimit" ∨ unit = "quota")
        (hhas : ((applied policy operationId).lookup unit).isSome) :
        (policy.lookup "auth.subscriptionKey").isSome := by
      have hover : unit ∈ OPERATION_OVERRIDABLE := by
        cases hunit with
        | inl heq => rw [heq]; decide
        | inr heq => rw [heq]; decide
      have hne : unit ≠ "validate" := by
        cases hunit with
        | inl heq => rw [heq]; decide
        | inr heq => rw [heq]; decide
      rw [lookup_applied policy operationId hne, if_pos hover, Option.isSome_or, Bool.or_eq_true] at hhas
      cases hhas with
      | inl hown => exact hrules.keyed_of_ownUnit hunits hunit hown
      | inr hroute =>
        cases hunit with
        | inl heq => exact hrules.counted (.inl (heq ▸ hroute))
        | inr heq => exact hrules.counted (.inr (heq ▸ hroute))
    have hother {unit : UnitKey} (hover : unit ∉ OPERATION_OVERRIDABLE) :
        (applied policy operationId).lookup unit = policy.lookup unit := by
      have hne : unit ≠ "validate" := fun heq => hover (heq ▸ by decide)
      rw [lookup_applied policy operationId hne, if_neg hover]
    constructor
    case counted =>
      intro h
      rw [hkeyed]
      exact h.elim (hcounts (.inl rfl)) (hcounts (.inr rfl))
    case soapFault =>
      rw [field_applied (by decide)]
      exact hrules.soapFault
    case jsonrpc =>
      rw [field_applied (by decide)]
      exact hrules.jsonrpc
    case websocket =>
      rw [hpassthrough, htransform, htransform, hcache, field_applied_validate hunits]
      intro hwebsocket
      obtain ⟨hbase, hrequest, hresponse, hnone⟩ := hrules.websocket hwebsocket
      obtain ⟨hown, hownCache⟩ := hclear.websocket hwebsocket
      rw [validates_or hbase, hnone, hownCache]
      exact ⟨hown, hrequest, hresponse, rfl⟩
    case sse =>
      rw [hpassthrough, htransform, hcache, field_applied_validate hunits]
      intro hsse
      obtain ⟨hbase, hresponse, hnone⟩ := hrules.sse hsse
      obtain ⟨hown, hownCache⟩ := hclear.sse hsse
      rw [validates_or hbase, hnone, hownCache]
      exact ⟨hown, hresponse, rfl⟩
    case soapToJson =>
      rw [field_applied (by decide)]
      exact hrules.soapToJson
    case kafkaProduce =>
      rw [hother (by decide), hother (by decide), hother (by decide)]
      exact hrules.kafkaProduce
    case operations =>
      intro key hkey id unit hparse hunit
      rw [hkeyed]
      cases mem_applied hkey with
      | inl hin => exact hrules.operations key hin id unit hparse hunit
      | inr hover =>
        -- A plain unit key is not an operation's key.
        have hplain : ∀ k ∈ OPERATION_OVERRIDABLE, parseOperationUnitKey k = none := by decide +kernel
        rw [hplain key hover] at hparse
        cases hparse

/-! ### The states that the gateway is served with -/

def askedState (policy : Document) (operationId : Option String) (direction : String) :
    Option DataPlane.ValidationState :=
  (field? (applied policy operationId) "validate" direction).bind state?

end

/-! ### The units of a stream and of a cache -/

def isHeaderName (text : String) : Bool :=
  text ≠ "" && text.toList.all fun c =>
    c.isAlphanum || "!#$%&'*+.^_|~-".toList.contains c || c.toNat == 96

/-- `validatePassthrough` (`shared/policy.ts:1466-1496`). -/
def validatePassthrough : Json → List String
  | .obj value =>
    unknownKeys value ["websocket", "sse", "streamIdleTimeoutSec", "maxConnectionSec",
      "maxConcurrentConnections", "maxBytesPerConnection"] "passthrough" ++
    boolField (value.lookup "websocket") "passthrough.websocket" ++
    boolField (value.lookup "sse") "passthrough.sse" ++
    intField (value.lookup "streamIdleTimeoutSec") "passthrough.streamIdleTimeoutSec" 1 86400 ++
    intField (value.lookup "maxConnectionSec") "passthrough.maxConnectionSec" 1 86400 ++
    intField (value.lookup "maxConcurrentConnections") "passthrough.maxConcurrentConnections" 1
      100000 ++
    intField (value.lookup "maxBytesPerConnection") "passthrough.maxBytesPerConnection" 0
      (1024 ^ 4) ++
    if value.lookup "websocket" ≠ some (.bool true) ∧ value.lookup "sse" ≠ some (.bool true) then
      ["passthrough: expected websocket or sse to be true — an attached unit that enables neither " ++
        "changes nothing and reads as if it did"]
    else []
  | _ => ["passthrough: expected an object"]

/-- `validateCache` (`shared/policy.ts:1263-1289`). -/
def validateCache : Json → List String
  | .obj value =>
    unknownKeys value ["ttlSec", "vary", "varyBySubscription", "mustRevalidate", "downstream",
      "maxBodyBytes"] "cache" ++
    (if (value.lookup "ttlSec").any (isIntBetween 1 86400) then []
    else ["cache.ttlSec: expected an integer between 1 and 86400"]) ++
    stringArrayField (value.lookup "vary") "cache.vary" (fun item =>
      if isHeaderName item then none else some "expected a valid header name") ++
    boolField (value.lookup "varyBySubscription") "cache.varyBySubscription" ++
    boolField (value.lookup "mustRevalidate") "cache.mustRevalidate" ++
    (if (value.lookup "downstream").all [Json.str "public", .str "private", .str "none"].contains then []
    else ["cache.downstream: expected \"public\", \"private\" or \"none\""]) ++
    intField (value.lookup "maxBodyBytes") "cache.maxBodyBytes" 1 (32 * 1024 * 1024)
  | _ => ["cache: expected an object"]

def streamUnitErrors (unit : UnitKey) (value : Json) : List String :=
  if unit = "passthrough" then validatePassthrough value
  else if unit = "cache" then validateCache value
  else []

/-! ### Accepted documents -/

theorem rules_under_operation_iff (others : UnitKey → Json → List String) (kind : ResourceKind)
    (doc : Document) (h : Valid (validateUnit others) kind doc) (operationId : Option String) :
    crossUnitErrors kind (applied (activeDocument doc) operationId) = [] ↔
      Clear (activeDocument doc) operationId := by
  obtain ⟨hunits, hcross⟩ := (valid_iff _ kind _).mp ((valid_iff_valid_active _ kind doc).mp h).2
  rw [crossUnitErrors_congr kind (activeDocument_idem doc)] at hcross
  rw [crossUnitErrors_eq_nil_iff]
  exact rules_applied_iff hunits (crossUnitErrors_eq_nil_iff.mp hcross)

/-- A route for server-sent events, with one operation that says how it is validated and cached. -/
def streaming (override : Members) (cached : Bool) : Document :=
  let document := (overriding "getPet" override).insert "passthrough" (.obj [("sse", .bool true)])
  if cached then document.insert (operationUnitKey "getPet" "cache") (.obj [("ttlSec", .num 60)])
  else document

theorem rules_under_operation_kept :
    let policy := activeDocument (streaming [("request", .str "warning"),
      ("downgradeReason", .str "schema under review")] false)
    crossUnitErrors .rest (applied policy (some "getPet")) = [] ↔ Clear policy (some "getPet") :=
  rules_under_operation_iff streamUnitErrors .rest _ (by decide +kernel) (some "getPet")

theorem override_beside_the_table :
    let doc := streaming [("response", .str "blocking")] true
    let policy := activeDocument doc
    Valid (validateUnit streamUnitErrors) .rest doc ∧
      (effectiveValidate .rest defaultLimits policy (some "getPet")).response = some .blocking ∧
      crossUnitErrors .rest (applied policy (some "getPet")) ≠ [] := by
  intro doc policy
  have hvalid : Valid (validateUnit streamUnitErrors) .rest doc := by decide +kernel
  have hresponse : (effectiveValidate .rest defaultLimits policy (some "getPet")).response =
      some .blocking := by decide +kernel
  have hcached : (applied policy (some "getPet")).lookup "cache" ≠ none := by decide +kernel
  refine ⟨hvalid, hresponse, fun hrules => ?_⟩
  exact hcached ((crossUnitErrors_eq_nil_iff.mp hrules).sse (by decide +kernel)).2.2

end Apim.Validation
