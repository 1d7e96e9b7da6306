import Apim.ControlPlane.Normalize
import Apim.DataPlane.Resolve

/-!
# MCP manifests and agent cards into the model

The operations of an MCP server and of an A2A agent (`shared/mcp.ts:36-183`, `shared/a2a.ts:27-181`),
and the readers that a manifest and a card go through (`control-plane/src/normalize-mcp.ts:71-176`,
`normalize-a2a.ts:48-134`). An operation is chosen by the method of a call, or by the tool it names.
-/

namespace Apim.Normalize
open JsonSchema Guard DataPlane

/-! ### Fixed schemas -/

def typed (type : String) : Json := .obj [("type", .str type)]

def texts (values : List String) : Json := .arr (values.map .str)

def shortText (maxLength : Nat) : Json := .obj [("type", .str "string"), ("maxLength", .num maxLength)]

def objectOf (properties : Members) : Json :=
  .obj [("type", .str "object"), ("properties", .obj properties)]

def objectWith (required : List String) (properties : Members) : Json :=
  .obj [("type", .str "object"), ("required", texts required), ("properties", .obj properties)]

def rpcEnvelopeSchema (method : String) (params : Json) : Json :=
  objectWith ["jsonrpc", "method"]
    [("jsonrpc", .obj [("const", .str "2.0")]),
      ("id", .obj [("type", texts ["string", "number", "null"])]),
      ("method", .obj [("const", .str method)]), ("params", params)]

/-- A protocol method; `capability` is the one that a server must declare for it. -/
structure MethodSpec where
  method : String
  summary : String
  params : Json
  capability : Option String := none

def rpcOperation (selector summary : String) (schema : Json) : ApiOperation where
  operationId := selector
  method := "POST"
  path := "/"
  selector := some selector
  summary := some summary
  requestBody := some ⟨true, [("application/json", schema)]⟩

def MethodSpec.operation (spec : MethodSpec) : ApiOperation :=
  rpcOperation spec.method spec.summary (rpcEnvelopeSchema spec.method spec.params)

def sortById (R : Runtime) (operations : List ApiOperation) : List ApiOperation :=
  operations.mergeSort fun a b => (R.localeCompare a.operationId b.operationId).isLE

/-! ### MCP -/

def MCP_PROTOCOL_VERSION : String := "2025-06-18"

def cursorParams : Json := objectOf [("cursor", shortText 512)]

def MCP_METHODS : List MethodSpec :=
  [{ method := "initialize"
     summary := "Negotiate the protocol version and exchange capabilities"
     params := objectWith ["protocolVersion", "capabilities"]
      [("protocolVersion", shortText 64), ("capabilities", typed "object"),
        ("clientInfo", objectOf [("name", typed "string"), ("version", typed "string")])] },
   { method := "ping", summary := "Liveness check", params := typed "object" },
   { method := "tools/list"
     summary := "List the tools this server offers"
     capability := some "tools"
     params := cursorParams },
   { method := "resources/list"
     summary := "List the resources this server offers"
     capability := some "resources"
     params := cursorParams },
   { method := "resources/templates/list"
     summary := "List the resource templates this server offers"
     capability := some "resources"
     params := cursorParams },
   { method := "resources/read"
     summary := "Read one resource"
     capability := some "resources"
     params := objectWith ["uri"] [("uri", shortText 2048)] },
   { method := "prompts/list"
     summary := "List the prompts this server offers"
     capability := some "prompts"
     params := cursorParams },
   { method := "prompts/get"
     summary := "Render one prompt"
     capability := some "prompts"
     params := objectWith ["name"] [("name", shortText 256), ("arguments", typed "object")] }]

structure McpTool where
  name : String
  title : Option String
  description : Option String
  inputSchema : Option Json
  outputSchema : Option Json
  deriving DecidableEq

/-- `McpManifest`, with the resources and the prompts as the catalog shows them. -/
structure McpManifest where
  protocolVersion : String
  serverName : String
  serverVersion : Option String
  capabilities : Members
  tools : List McpTool
  resources : List Json
  prompts : List Json
  originUrl : Option String

def objectAt (members : Members) (name : String) : Option Json :=
  match members.lookup name with
  | some (.obj value) => some (.obj value)
  | _ => none

def keepTexts (members : Members) (names : List String) : Members :=
  names.filterMap fun name => (stringAt members name).map fun text => (name, .str text)

def readTool (entry : Members) : Option McpTool :=
  ((stringAt entry "name").filter (· ≠ "")).map fun name =>
    ⟨name, stringAt entry "title", stringAt entry "description", objectAt entry "inputSchema",
      objectAt entry "outputSchema"⟩

/-- The entries that have a text under `key`, with that and other texts of theirs. -/
def readEntries (doc : Members) (list key : String) (others : List String) : List Json :=
  (((arrayAt doc list).map asRecord).filter fun entry => (stringAt entry key).isSome).map
    fun entry => .obj (keepTexts entry (key :: others))

def readManifest (doc : Members) : Except String McpManifest := do
  let serverInfo := recordAt doc "serverInfo"
  let name ← demand ((stringAt serverInfo "name").filter (· ≠ ""))
    "the MCP manifest has no serverInfo.name, so there is nothing to publish it as"
  return {
    protocolVersion := (stringAt doc "protocolVersion").getD MCP_PROTOCOL_VERSION
    serverName := name
    serverVersion := stringAt serverInfo "version"
    capabilities := recordAt doc "capabilities"
    tools := (arrayAt doc "tools").filterMap fun entry => readTool (asRecord entry)
    resources := readEntries doc "resources" "uri" ["name", "description", "mimeType"]
    prompts := readEntries doc "prompts" "name" ["description"]
    originUrl := stringAt doc "originUrl" }

def toolCallSchema (tool : McpTool) : Json :=
  rpcEnvelopeSchema "tools/call" (objectWith ["name"]
    (("name", .obj [("const", .str tool.name)]) ::
      (tool.inputSchema.map fun schema => ("arguments", schema)).toList))

def McpTool.operation (tool : McpTool) : ApiOperation :=
  rpcOperation (toolSelector tool.name)
    ((tool.description.or tool.title).getD s!"Call the {tool.name} tool") (toolCallSchema tool)

def mcpMethods (capabilities : Members) : List MethodSpec :=
  MCP_METHODS.filter fun spec =>
    spec.capability.all fun capability => (capabilities.lookup capability).any Policy.truthy

def operationsFromManifest (R : Runtime) (manifest : McpManifest) : List ApiOperation :=
  sortById R ((mcpMethods manifest.capabilities).map MethodSpec.operation ++
    manifest.tools.map McpTool.operation)

def McpTool.json (tool : McpTool) : Json :=
  .obj (("name", .str tool.name) ::
    ((tool.title.map fun text => ("title", .str text)).toList ++
      (tool.description.map fun text => ("description", .str text)).toList ++
      (tool.inputSchema.map fun schema => ("inputSchema", schema)).toList ++
      (tool.outputSchema.map fun schema => ("outputSchema", schema)).toList))

def McpManifest.binding (manifest : McpManifest) : Json :=
  .obj [("protocolVersion", .str manifest.protocolVersion),
    ("serverInfo", .obj (("name", .str manifest.serverName) ::
      (manifest.serverVersion.map fun text => ("version", .str text)).toList)),
    ("capabilities", .obj manifest.capabilities), ("tools", .arr (manifest.tools.map McpTool.json)),
    ("resources", .arr manifest.resources), ("prompts", .arr manifest.prompts)]

def counted (n : Nat) (word : String) : List String := if 0 < n then [s!"{n} {word}"] else []

def McpManifest.description (manifest : McpManifest) : String :=
  let n := manifest.tools.length
  let plural := if n = 1 then "" else "s"
  let counts := ", ".intercalate ([s!"{n} tool{plural}"] ++
    counted manifest.resources.length "resources" ++ counted manifest.prompts.length "prompts")
  s!"MCP server speaking protocol {manifest.protocolVersion}, offering {counts}."

def normalizeMcp (R : Runtime) (doc : Members) : Except String NormalizeResult := do
  let manifest ← readManifest doc
  return ⟨{
    title := manifest.serverName
    version := manifest.serverVersion.getD manifest.protocolVersion
    description := some manifest.description
    servers := (manifest.originUrl.filter (· ≠ "")).toList
    operations := operationsFromManifest R manifest
    mcp := some manifest.binding
    schemaDialect := some .draft2020 }, .mcpManifest⟩

/-! ### A2A -/

def A2A_PROTOCOL_VERSION : String := "0.3.0"

def MESSAGE_PART : Json :=
  objectWith ["kind"]
    [("kind", .obj [("enum", texts ["text", "file", "data"])]), ("text", typed "string"),
      ("data", typed "object"),
      ("file", objectOf [("name", typed "string"), ("mimeType", typed "string"),
        ("uri", typed "string"), ("bytes", typed "string")])]

def MESSAGE : Json :=
  objectWith ["role", "parts"]
    [("role", .obj [("enum", texts ["user", "agent"])]), ("messageId", shortText 256),
      ("taskId", shortText 256), ("contextId", shortText 256),
      ("kind", .obj [("const", .str "message")]),
      ("parts", .obj [("type", .str "array"), ("minItems", .num 1), ("maxItems", .num 100),
        ("items", MESSAGE_PART)]),
      ("metadata", typed "object")]

def historyLength : Json := .obj [("type", .str "integer"), ("minimum", .num 0)]

def SEND_PARAMS : Json :=
  objectWith ["message"]
    [("message", MESSAGE),
      ("configuration", objectOf
        [("acceptedOutputModes", .obj [("type", .str "array"), ("items", typed "string")]),
          ("blocking", typed "boolean"), ("historyLength", historyLength)]),
      ("metadata", typed "object")]

def TASK_ID_PARAMS : Json :=
  objectWith ["id"]
    [("id", shortText 256), ("historyLength", historyLength), ("metadata", typed "object")]

def PUSH_PARAMS : Json :=
  objectWith ["taskId", "pushNotificationConfig"]
    [("taskId", shortText 256),
      ("pushNotificationConfig", objectWith ["url"]
        [("id", typed "string"), ("url", shortText 2048), ("token", typed "string")])]

def A2A_METHODS : List MethodSpec :=
  [{ method := "message/send"
     summary := "Send a message and wait for the result"
     params := SEND_PARAMS },
   { method := "message/stream"
     summary := "Send a message and stream updates as they happen"
     params := SEND_PARAMS
     capability := some "streaming" },
   { method := "tasks/get", summary := "Read a task's current state", params := TASK_ID_PARAMS },
   { method := "tasks/cancel", summary := "Cancel a task", params := TASK_ID_PARAMS },
   { method := "tasks/resubscribe"
     summary := "Re-attach to a task's update stream"
     params := TASK_ID_PARAMS
     capability := some "streaming" },
   { method := "tasks/pushNotificationConfig/set"
     summary := "Register a push-notification target for a task"
     params := PUSH_PARAMS
     capability := some "pushNotifications" },
   { method := "tasks/pushNotificationConfig/get"
     summary := "Read a task's push-notification target"
     params := TASK_ID_PARAMS
     capability := some "pushNotifications" },
   { method := "agent/getAuthenticatedExtendedCard"
     summary := "Read the extended agent card available to authenticated callers"
     params := typed "object" }]

structure A2aBinding where
  name : String
  version : String
  description : Option String
  originUrl : String
  capabilities : List String
  card : Members

def stringsOf (value : Option Json) (fallback : List String) : List String :=
  match value with
  | some (.arr items) =>
    let found := items.filterMap Json.asString?
    if found = [] then fallback else found
  | _ => fallback

def arrayTexts (entry : Members) (name : String) : Members :=
  match entry.lookup name with
  | some (.arr items) => [(name, texts (items.filterMap Json.asString?))]
  | _ => []

/-- `readSkill`: a skill without an id is dropped, and one without a name has its id. -/
def readSkill (entry : Members) : Option Json :=
  ((stringAt entry "id").filter (· ≠ "")).bind fun id =>
    (some ((stringAt entry "name").getD id)).filter (· ≠ "") |>.map fun name =>
      .obj ([("id", .str id), ("name", .str name)] ++ keepTexts entry ["description"] ++
        [("tags", texts (stringsOf (entry.lookup "tags") []))] ++ arrayTexts entry "examples" ++
        arrayTexts entry "inputModes" ++ arrayTexts entry "outputModes")

def A2A_CAPABILITIES : List String := ["streaming", "pushNotifications", "stateTransitionHistory"]

def readCard (doc : Members) : Except String A2aBinding := do
  let name ← demand ((stringAt doc "name").filter (· ≠ ""))
    "the agent card has no name, so there is nothing to publish it as"
  return {
    name := name
    version := (stringAt doc "version").getD "0.0.0"
    description := stringAt doc "description"
    originUrl := (stringAt doc "url").getD ""
    capabilities := A2A_CAPABILITIES.filter (trueAt (recordAt doc "capabilities"))
    card :=
      [("protocolVersion", .str ((stringAt doc "protocolVersion").getD A2A_PROTOCOL_VERSION))] ++
      keepTexts doc ["preferredTransport"] ++
      [("defaultInputModes", texts (stringsOf (doc.lookup "defaultInputModes") ["text/plain"])),
        ("defaultOutputModes", texts (stringsOf (doc.lookup "defaultOutputModes") ["text/plain"])),
        ("skills", .arr ((arrayAt doc "skills").filterMap fun entry => readSkill (asRecord entry)))] ++
      ((objectAt doc "securitySchemes").map fun value => ("securitySchemes", value)).toList ++
      keepTexts doc ["documentationUrl"] ++
      ((objectAt doc "provider").map fun value =>
        ("provider", .obj (keepTexts (asRecord value) ["organization", "url"]))).toList }

def a2aMethods (capabilities : List String) : List MethodSpec :=
  A2A_METHODS.filter fun spec => spec.capability.all capabilities.contains

def operationsFromCard (R : Runtime) (binding : A2aBinding) : List ApiOperation :=
  sortById R ((a2aMethods binding.capabilities).map MethodSpec.operation)

def A2aBinding.json (binding : A2aBinding) : Json :=
  .obj ([("name", .str binding.name), ("version", .str binding.version),
    ("originUrl", .str binding.originUrl),
    ("capabilities", .obj (binding.capabilities.map fun name => (name, .bool true)))] ++
    (binding.description.map fun text => ("description", .str text)).toList ++ binding.card)

def normalizeA2a (R : Runtime) (doc : Members) : Except String NormalizeResult := do
  let binding ← readCard doc
  return ⟨{
    title := binding.name
    version := binding.version
    description := binding.description.filter (· ≠ "")
    servers := [binding.originUrl].filter (· ≠ "")
    operations := operationsFromCard R binding
    a2a := some binding.json
    schemaDialect := some .draft2020 }, .a2aAgentCard⟩

theorem normalizeMcp_ok {R : Runtime} {doc : Members} {result : NormalizeResult}
    (h : normalizeMcp R doc = .ok result) :
    ∃ manifest, readManifest doc = .ok manifest ∧ result.model.soap = none ∧
      result.model.operations.Perm ((mcpMethods manifest.capabilities).map MethodSpec.operation ++
        manifest.tools.map McpTool.operation) := by
  simp only [normalizeMcp, bind_eq_ok, pure_eq_ok] at h
  obtain ⟨manifest, hmanifest, rfl⟩ := h
  exact ⟨manifest, hmanifest, rfl, List.mergeSort_perm _ _⟩

theorem normalizeA2a_ok {R : Runtime} {doc : Members} {result : NormalizeResult}
    (h : normalizeA2a R doc = .ok result) :
    ∃ binding, readCard doc = .ok binding ∧ result.model.soap = none ∧
      result.model.operations.Perm ((a2aMethods binding.capabilities).map MethodSpec.operation) := by
  simp only [normalizeA2a, bind_eq_ok, pure_eq_ok] at h
  obtain ⟨binding, hbinding, rfl⟩ := h
  exact ⟨binding, hbinding, rfl, List.mergeSort_perm _ _⟩

end Apim.Normalize
