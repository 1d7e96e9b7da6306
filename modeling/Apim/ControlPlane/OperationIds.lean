import Apim.ControlPlane.Artifacts
import Apim.ControlPlane.NormalizeRpc
import Apim.ControlPlane.NormalizeWsdl
import Apim.DataPlane.Gates

/-!
# One operation for an id

Every table behind a definition is keyed by the ids of its operations: the compiled schemas, the index,
the overrides of a policy, scopes and quotas; and an operation of a SOAP or RPC contract is chosen by
its body element or its selector. No normaliser compares these with each other. So what a request is
checked against is of one declared operation exactly as far as the definition tells its operations
apart by itself (`oneOperation_iff`).
-/

namespace Apim.Normalize
open JsonSchema Guard Overlay Xml DataPlane
open ControlPlane (CompileResult Compiled IndexedOperation Toolkit buildOperationIndex compileArtifact
  compileEach compileJsonArtifact compileXsdArtifact compileXsdOperation indexed)

/-! ### Definitions -/

inductive Definition where
  | openApi (doc : Members)
  | wsdl (limits : Limits) (raw : Text)
  | mcp (doc : Members)
  | a2a (doc : Members)

def normalize (R : Runtime) (W : WsdlTools) : Definition → Except String NormalizeResult
  | .openApi doc => normalizeSpec R doc
  | .wsdl limits raw => normalizeWsdl R W limits raw
  | .mcp doc => normalizeMcp R doc
  | .a2a doc => normalizeA2a R doc

/-! ### The route of a model -/

/-- `soapIndexFor` (`control-plane/src/config-build.ts:175-186`). -/
def soapIndexFor (R : Runtime) (model : ApiModel) : Option ConfigSoap :=
  model.soap.map fun soap =>
    { version := if soap.version = "1.2" then .v12 else .v11
      operations := (model.operations.filterMap fun op => op.inputElement.map fun element =>
        (⟨op.operationId, element, op.soapAction.getD ""⟩ : ConfigSoapOperation)).mergeSort fun a b =>
          (R.localeCompare a.element b.element).isLE }

structure Published (R : Runtime) (T : Toolkit) (model : ApiModel) (route : ConfigRoute)
    (operations : Dict String ControlPlane.CompiledOperation) : Prop where
  compiled : ∃ bundle notes, compileArtifact T model = .ok ⟨bundle, notes⟩ ∧
    operations = (bundle.map (·.operations)).getD ∅
  index : ∃ index, buildOperationIndex model operations = .ok index ∧
    route.operations = index.map IndexedOperation.operation
  soap : route.soap = soapIndexFor R model

def EntryOf (T : Toolkit) (model : ApiModel) (op : ApiOperation)
    (entry : ControlPlane.CompiledOperation) : Prop :=
  if model.soap.isSome then entry = (compileXsdOperation (model.soap.bind (·.schema)) op).1
  else ∃ compiler, match ControlPlane.compileOperation T (T.options model) op compiler with
    | (.ok compiled, _) => entry = compiled
    | (.error error, _) => entry = { state := .unsupportedSchema, reason := some error.message }

inductive Addresses (P : Platform) (gw : Gateway) (req : Request) (route : ConfigRoute)
    (op : ApiOperation) : Prop
  | element {stream rest : Stream} {start : Bytes} {ceiling : Nat} {child : String}
      (hbody : req.capped (routeMaxBody gw route) = .streamed stream)
      (hstart : stream.takePrefix gw.maxPrefixBytes = some (start, rest))
      (hchild : P.scanEnvelope start ceiling = .ok (some child))
      (helement : op.inputElement = some child)
  | selector {bytes : Bytes} {json : Json} {request : RpcRequest}
      (hread : P.validators.readJson (jsonLimitsOf route.validate) bytes = .ok json)
      (hparsed : parseRpc json = .ok request)
      (hselector : op.selector = some (rpcSelector route.kind request))
  | path {operation : ConfigOperation} (hmethod : operation.method = op.method)
      (htemplate : operation.template = op.path) (hserves : OperationServes req route operation)

/-- The operations of the model have ids, elements and selectors of their own, and what a request is
resolved to, the entry it is validated with, and what is set for the operation by its id are of the one
operation that it addresses. -/
structure OneOperation (R : Runtime) (T : Toolkit) (model : ApiModel) : Prop where
  ids : (model.operations.map (·.operationId)).Nodup
  elements : (model.operations.filterMap (·.inputElement)).Nodup
  selectors : (model.operations.filterMap (·.selector)).Nodup
  served : ∀ route operations, Published R T model route operations →
    ∀ P gw req resolved operation, resolve P gw req route = .ok resolved →
      resolved.operation = some operation →
        ∃ op ∈ model.operations, Addresses P gw req route op ∧
          operation = (indexed operations op).operation ∧
          (∀ op' ∈ model.operations, op'.operationId = operation.id → op' = op) ∧
          ∀ entry, operations.lookup operation.id = some entry → EntryOf T model op entry

/-! ### What tells operations apart -/

def DeclaredOperation.ownId (d : DeclaredOperation) : Option String :=
  (stringAt d.op "operationId").filter (· ≠ "")

def DeclaredOperation.madeId (d : DeclaredOperation) : String :=
  d.method ++ String.ofList (underscored d.path.toList)

/-- Two operations of an OpenAPI document get the same id: by being given it, by having the same method
and paths that differ in nothing but what stands for what is no letter and no digit, or by one being
given what is made for the other. -/
def DeclaredOperation.Clash (d d' : DeclaredOperation) : Prop :=
  match d.ownId, d'.ownId with
  | some id, some id' => id = id'
  | none, none => d.method = d'.method ∧ underscored d.path.toList = underscored d'.path.toList
  | some id, none => id = d'.madeId
  | none, some id' => d.madeId = id'

def toolNames (doc : Members) : List String :=
  (arrayAt doc "tools").filterMap fun entry => (stringAt (asRecord entry) "name").filter (· ≠ "")

def bindingOf (root : XmlNode) (targetNamespace : String) : Option XmlNode :=
  ((root.childrenNamed WSDL_NS "service").head?.bind choosePort).bind fun chosen =>
    (attr chosen.port "binding").bind fun bindingName =>
      (root.childrenNamed WSDL_NS "binding").find? fun node =>
        (attr node "name").any fun name =>
          componentQName root targetNamespace name = chosen.port.resolveQName bindingName

def tableOf {α : Type} (key : String → String) (value : XmlNode → α) (nodes : List XmlNode) :
    Dict String α :=
  nodes.foldl (fun table node =>
    match attr node "name" with
    | some name => table.insert (key name) (value node)
    | none => table) ∅

def messageTable (root : XmlNode) (targetNamespace : String) : Dict String (Option String) :=
  tableOf (componentQName root targetNamespace)
    (fun message => ((message.childrenNamed WSDL_NS "part").head?).bind fun part =>
      qnameAttr part "element")
    (root.childrenNamed WSDL_NS "message")

def operationTable (portType : XmlNode) : Dict String PortOperation :=
  tableOf id (fun operation => ⟨messageOf operation "input", messageOf operation "output"⟩)
    (portType.childrenNamed WSDL_NS "operation")

def portTypeTable (root : XmlNode) (targetNamespace : String) :
    Dict String (Dict String PortOperation) :=
  tableOf (componentQName root targetNamespace) operationTable
    (root.childrenNamed WSDL_NS "portType")

def inputElementOf (root : XmlNode) (targetNamespace : String) (binding operation : XmlNode) :
    Option String := do
  let name ← attr operation "name"
  let typeName ← attr binding "type"
  let portType ← (portTypeTable root targetNamespace).lookup (binding.resolveQName typeName)
  let declared ← portType.lookup name
  let message ← declared.input
  let element ← (messageTable root targetNamespace).lookup message
  element

def TellsApartWsdl (root : XmlNode) : Prop :=
  ∀ targetNamespace binding, attr root "targetNamespace" = some targetNamespace →
    bindingOf root targetNamespace = some binding →
      ((binding.childrenNamed WSDL_NS "operation").map fun node => attr node "name").Nodup ∧
      ((binding.childrenNamed WSDL_NS "operation").map
        (inputElementOf root targetNamespace binding)).Nodup

def Definition.TellsApart (W : WsdlTools) : Definition → Prop
  | .openApi doc => (declaredOperations doc).Pairwise fun d d' => ¬ d.Clash d'
  | .wsdl limits raw => ∀ root, parseDocument W.charCode limits raw = .ok root → TellsApartWsdl root
  | .mcp doc => (toolNames doc).Nodup
  | .a2a _ => True

/-! ### Ids of an OpenAPI document -/

variable {doc : Members}

theorem declared_method {d : DeclaredOperation} (h : d ∈ declaredOperations doc) :
    d.method ∈ METHODS := by
  obtain ⟨⟨path, rawItem⟩, -, hd⟩ := List.mem_flatMap.mp h
  obtain ⟨method, hmethod, heq⟩ := List.mem_filterMap.mp hd
  obtain ⟨op, -, rfl⟩ := Option.map_eq_some_iff.mp heq
  exact hmethod

theorem methods_prefixFree : ∀ a ∈ METHODS, ∀ b ∈ METHODS, a.toList <+: b.toList → a = b := by
  decide

theorem madeId_inj {d d' : DeclaredOperation} (hd : d.method ∈ METHODS)
    (hd' : d'.method ∈ METHODS) :
    d.madeId = d'.madeId ↔
      d.method = d'.method ∧ underscored d.path.toList = underscored d'.path.toList := by
  constructor
  · intro h
    have hlist : d.method.toList ++ underscored d.path.toList =
        d'.method.toList ++ underscored d'.path.toList := by
      simpa [DeclaredOperation.madeId] using congrArg String.toList h
    have hmethod : d.method = d'.method := by
      rcases List.prefix_or_prefix_of_prefix (List.prefix_append _ _)
        (hlist ▸ List.prefix_append _ _) with hpre | hpre
      · exact (methods_prefixFree _ hd' _ hd hpre).symm
      · exact methods_prefixFree _ hd _ hd' hpre
    rw [hmethod] at hlist
    exact ⟨hmethod, List.append_cancel_left hlist⟩
  · rintro ⟨hmethod, hpath⟩
    rw [DeclaredOperation.madeId, DeclaredOperation.madeId, hmethod, hpath]

theorem operationIdOf_eq (d : DeclaredOperation) :
    operationIdOf d.op d.method d.path = d.ownId.getD d.madeId := by
  unfold operationIdOf DeclaredOperation.ownId
  cases (stringAt d.op "operationId").filter (· ≠ "") <;> rfl

theorem clash_iff {d d' : DeclaredOperation} (hd : d.method ∈ METHODS) (hd' : d'.method ∈ METHODS) :
    d.Clash d' ↔ operationIdOf d.op d.method d.path = operationIdOf d'.op d'.method d'.path := by
  rw [operationIdOf_eq, operationIdOf_eq, DeclaredOperation.Clash]
  cases d.ownId with
  | none =>
    cases d'.ownId with
    | none => exact (madeId_inj hd hd').symm
    | some id' => rfl
  | some id =>
    cases d'.ownId with
    | none => rfl
    | some id' => rfl

theorem nodup_declaredIds_iff (doc : Members) :
    ((declaredOperations doc).map fun d => operationIdOf d.op d.method d.path).Nodup ↔
      (declaredOperations doc).Pairwise fun d d' => ¬ d.Clash d' := by
  rw [List.Nodup, List.pairwise_map]
  refine List.Pairwise.iff_of_mem fun {d d'} hd hd' => ?_
  rw [clash_iff (declared_method hd) (declared_method hd')]

/-! ### Selectors -/

variable {operations : List ApiOperation}

theorem rpc_operations
    (h : ∀ op ∈ operations, op.inputElement = none ∧ op.selector = some op.operationId) :
    operations.filterMap (·.inputElement) = [] ∧
      operations.filterMap (·.selector) = operations.map (·.operationId) := by
  constructor
  · exact List.filterMap_eq_nil_iff.mpr fun op hop => (h op hop).1
  · rw [← List.filterMap_eq_map]
    exact List.filterMap_congr fun op hop => (h op hop).2

theorem mcp_not_tool : ∀ spec ∈ MCP_METHODS, ¬ "tools/call:".toList <+: spec.method.toList := by
  decide

theorem toolSelector_injective {a b : String} (h : toolSelector a = toolSelector b) : a = b := by
  have hlist := congrArg String.toList h
  rw [toolSelector, toolSelector, String.toList_append, String.toList_append] at hlist
  exact String.toList_inj.mp (List.append_cancel_left hlist)

theorem nodup_mcpIds_iff (capabilities : Members) (tools : List McpTool) :
    (((mcpMethods capabilities).map MethodSpec.operation ++
        tools.map McpTool.operation).map (·.operationId)).Nodup ↔
      (tools.map (·.name)).Nodup := by
  have hids : ((mcpMethods capabilities).map MethodSpec.operation ++
      tools.map McpTool.operation).map (·.operationId) =
      (mcpMethods capabilities).map (·.method) ++ (tools.map (·.name)).map toolSelector := by
    simp only [List.map_append, List.map_map]
    rfl
  rw [hids, List.nodup_append]
  constructor
  · rintro ⟨-, htools, -⟩
    exact htools.of_map toolSelector
  · intro htools
    have hfixed : (MCP_METHODS.map (·.method)).Nodup := by decide
    refine ⟨hfixed.sublist (List.Sublist.map _ List.filter_sublist),
      htools.map fun a b => toolSelector_injective, fun a ha b hb hab => ?_⟩
    subst hab
    obtain ⟨spec, hspec, rfl⟩ := List.mem_map.mp ha
    obtain ⟨name, -, hname⟩ := List.mem_map.mp hb
    refine mcp_not_tool spec (List.mem_filter.mp hspec).1 ?_
    rw [← hname, toolSelector, String.toList_append]
    exact List.prefix_append _ _

theorem names_of_readManifest {manifest : McpManifest} (h : readManifest doc = .ok manifest) :
    manifest.tools.map (·.name) = toolNames doc := by
  simp only [readManifest, bind_eq_ok, pure_eq_ok] at h
  obtain ⟨name, -, rfl⟩ := h
  rw [toolNames, List.map_filterMap]
  refine List.filterMap_congr fun entry _ => ?_
  rw [readTool, Option.map_map]
  exact Option.map_id'

/-! ### Operations of a WSDL -/

theorem foldl_of_foldlM {α : Type} {key : String → String} {value : XmlNode → α}
    {read : Dict String α → XmlNode → Except String (Dict String α)}
    (hread : ∀ table node table', read table node = .ok table' →
      ∃ name, attr node "name" = some name ∧ table' = table.insert (key name) (value node))
    {nodes : List XmlNode} {table table' : Dict String α}
    (h : nodes.foldlM read table = .ok table') :
    table' = nodes.foldl (fun table node =>
      match attr node "name" with
      | some name => table.insert (key name) (value node)
      | none => table) table := by
  induction nodes generalizing table with
  | nil => exact (pure_eq_ok.mp h).symm
  | cons node nodes ih =>
    rw [List.foldlM_cons, bind_eq_ok] at h
    obtain ⟨next, hnext, hrest⟩ := h
    obtain ⟨name, hname, rfl⟩ := hread _ _ _ hnext
    rw [ih hrest, List.foldl_cons, hname]

theorem required_eq_ok {node : XmlNode} {name place value : String} :
    required node name place = .ok value ↔ attr node name = some value := by
  rw [required, demand_eq_ok]

variable {root : XmlNode} {targetNamespace : String}

theorem messages_of_fold {messages : Dict String (Option String)}
    (h : (root.childrenNamed WSDL_NS "message").foldlM (readMessage root targetNamespace) ∅ =
      .ok messages) : messages = messageTable root targetNamespace := by
  refine foldl_of_foldlM (fun table node table' hread => ?_) h
  simp only [readMessage, bind_eq_ok, required_eq_ok, pure_eq_ok] at hread
  obtain ⟨name, hname, rfl⟩ := hread
  exact ⟨name, hname, rfl⟩

theorem portTypes_of_fold {portTypes : Dict String (Dict String PortOperation)}
    (h : (root.childrenNamed WSDL_NS "portType").foldlM (readPortType root targetNamespace) ∅ =
      .ok portTypes) : portTypes = portTypeTable root targetNamespace := by
  refine foldl_of_foldlM (fun table node table' hread => ?_) h
  simp only [readPortType, bind_eq_ok, required_eq_ok, pure_eq_ok] at hread
  obtain ⟨name, hname, operations, hoperations, rfl⟩ := hread
  have htable : operations = operationTable node := by
    refine foldl_of_foldlM (fun table node table' hread => ?_) hoperations
    simp only [readPortOperation, bind_eq_ok, required_eq_ok, pure_eq_ok] at hread
    obtain ⟨name, hname, rfl⟩ := hread
    exact ⟨name, hname, rfl⟩
  exact ⟨name, hname, by rw [htable]⟩

theorem find?_of_findBinding {qname : String} {nodes : List XmlNode} {found : Option XmlNode}
    (h : findBinding root targetNamespace qname nodes = .ok found) :
    nodes.find? (fun node => (attr node "name").any fun name =>
      componentQName root targetNamespace name = qname) = found := by
  induction nodes with
  | nil => exact Except.ok.inj h
  | cons node nodes ih =>
    simp only [findBinding, bind_eq_ok, required_eq_ok] at h
    obtain ⟨name, hname, h⟩ := h
    split at h
    · rename_i hmatch
      rw [← pure_eq_ok.mp h, List.find?_cons_of_pos]
      simp [hname, hmatch]
    · rename_i hother
      rw [List.find?_cons_of_neg, ih h]
      simp [hname, hother]

theorem messageNamed_eq_ok {messages : Dict String (Option String)} {qname : Option String}
    {operation role element : String}
    (h : messageNamed messages qname operation role = .ok (some element)) :
    ∃ message, qname = some message ∧ messages.lookup message = some (some element) := by
  unfold messageNamed at h
  split at h
  · cases h
  · rename_i message hmessage
    split at h
    · rename_i found hfound
      obtain rfl := Except.ok.inj h
      exact ⟨message, (Option.filter_eq_some_iff.mp hmessage).1, hfound⟩
    · cases h

variable {op : ApiOperation}

theorem readOperation_ok {ctx : BindingContext} {node : XmlNode}
    (h : readOperation ctx node = .ok op) :
    attr node "name" = some op.operationId ∧ op.selector = none ∧
      ∃ declared message element, ctx.declared.lookup op.operationId = some declared ∧
        declared.input = some message ∧ ctx.messages.lookup message = some (some element) ∧
        op.inputElement = some element := by
  simp only [readOperation, bind_eq_ok, required_eq_ok, ensure_eq_ok, demand_eq_ok,
    pure_eq_ok] at h
  obtain ⟨name, hname, -, -, declared, hdeclared, input, hinput, output, -, element, helement, -, -,
    -, -, -, -, rfl⟩ := h
  obtain ⟨rfl, -⟩ := Option.filter_eq_some_iff.mp helement
  obtain ⟨message, hmessage, hlookup⟩ := messageNamed_eq_ok hinput
  exact ⟨hname, rfl, declared, message, element, hdeclared, hmessage, hlookup, rfl⟩

theorem readWsdl_ok {W : WsdlTools} {contract : WsdlContract} (h : readWsdl W root = .ok contract) :
    ∃ targetNamespace binding, attr root "targetNamespace" = some targetNamespace ∧
      bindingOf root targetNamespace = some binding ∧
      List.Forall₂ (fun node (op : ApiOperation) => attr node "name" = some op.operationId ∧
        inputElementOf root targetNamespace binding node = op.inputElement ∧
        op.inputElement.isSome ∧ op.selector = none)
        (binding.childrenNamed WSDL_NS "operation") contract.operations := by
  simp only [readWsdl, bind_eq_ok, required_eq_ok, ensure_eq_ok, demand_eq_ok, mapM_eq_ok,
    pure_eq_ok] at h
  obtain ⟨-, -, -, -, targetNamespace, htarget, schema, -, messages, hmessages, portTypes, hportTypes,
    service, hservice, serviceName, -, chosen, hchosen, portName, -, endpoint, -, bindingName,
    hbindingName, found, hfound, binding, hbinding, -, -, typeName, htype, declared, hdeclared,
    operations, hoperations, -, -, rfl⟩ := h
  refine ⟨targetNamespace, binding, htarget, ?_, ?_⟩
  · rw [bindingOf, hservice, Option.bind_some, hchosen, Option.bind_some, hbindingName,
      Option.bind_some, find?_of_findBinding hfound, hbinding]
  · refine hoperations.imp fun node op hread => ?_
    obtain ⟨hname, hselector, declaredOp, message, element, hlookup, hinput, hmessage, helement⟩ :=
      readOperation_ok hread
    refine ⟨hname, ?_, by rw [helement]; rfl, hselector⟩
    rw [portTypes_of_fold hportTypes] at hdeclared
    rw [messages_of_fold hmessages] at hmessage
    simp only [inputElementOf, Option.bind_eq_bind, hname, htype, hdeclared, hlookup, hinput, hmessage,
      Option.bind_some, helement]

/-! ### What is compiled, and what is chosen -/

variable {model : ApiModel}

theorem xsd_rows (T : Toolkit) (hsoap : model.soap.isSome = true) {bundle : ControlPlane.Bundle}
    {notes : List String} (h : compileArtifact T model = .ok ⟨some bundle, notes⟩) :
    ∃ rows : List (ApiOperation × ControlPlane.CompiledOperation), rows.map (·.1) = model.operations ∧
      bundle.operations = (rows.map fun row => (row.1.operationId, row.2)).foldl
        (fun (d : Dict String ControlPlane.CompiledOperation) row => d.insert row.1 row.2) ∅ ∧
      ∀ row ∈ rows, EntryOf T model row.1 row.2 := by
  rw [compileArtifact, if_pos hsoap, Except.ok.injEq, compileXsdArtifact] at h
  cases hschema : model.soap.bind (·.schema) with
  | none =>
    rw [hschema] at h
    cases h
  | some schema =>
    rw [hschema] at h
    obtain ⟨hbundle, -⟩ := (ControlPlane.CompileResult.mk.injEq ..).mp h
    obtain rfl := Option.some.inj hbundle
    refine ⟨model.operations.map fun op => (op, (compileXsdOperation (some schema) op).1), ?_, ?_, ?_⟩
    · rw [List.map_map]
      exact List.map_id' _
    · rw [List.map_map, List.foldl_map]
      rfl
    · intro row hrow
      obtain ⟨op, -, rfl⟩ := List.mem_map.mp hrow
      rw [EntryOf, if_pos hsoap, hschema]

variable {T : Toolkit}

theorem compileEach_ok (hsoap : model.soap.isSome = false) {compiled next : Compiled}
    {compiler compiler' : SchemaCompiler}
    (h : compileEach T (T.options model) compiled op compiler = (.ok next, compiler')) :
    ∃ entry, EntryOf T model op entry ∧
      next.operations = compiled.operations.insert op.operationId entry := by
  have hentry : ∀ entry, (match ControlPlane.compileOperation T (T.options model) op compiler with
      | (.ok compiled, _) => entry = compiled
      | (.error error, _) => entry =
        ({ state := .unsupportedSchema, reason := some error.message } :
          ControlPlane.CompiledOperation)) → EntryOf T model op entry := by
    intro entry hentry
    rw [EntryOf, if_neg (by rw [hsoap]; exact Bool.false_ne_true)]
    exact ⟨compiler, hentry⟩
  simp only [compileEach, tryCatch, tryCatchThe, MonadExceptOf.tryCatch, ExceptT.tryCatch, ExceptT.mk,
    bind, StateT.bind, ExceptT.bind, ExceptT.bindCont, pure, ExceptT.pure] at h
  cases hop : ControlPlane.compileOperation T (T.options model) op compiler with
  | mk result compiler₁ =>
    rw [hop] at h hentry
    cases result with
    | ok entry =>
      obtain ⟨hnext, -⟩ := Prod.mk.inj h
      obtain rfl := Except.ok.inj hnext
      exact ⟨entry, hentry entry rfl, rfl⟩
    | error error =>
      cases error with
      | stack => cases h
      | unsupported a b c =>
        obtain ⟨hnext, -⟩ := Prod.mk.inj h
        obtain rfl := Except.ok.inj hnext
        exact ⟨_, hentry _ rfl, rfl⟩

theorem bind_compile {α β : Type} (m : CompileM α) (f : α → CompileM β) (compiler : SchemaCompiler) :
    (m >>= f) compiler = match m compiler with
      | (.ok a, next) => f a next
      | (.error error, next) => (.error error, next) := by
  simp only [bind, ExceptT.bind, ExceptT.mk, StateT.bind, ExceptT.bindCont]
  cases m compiler with
  | mk result next => cases result <;> rfl

theorem json_rows_from (hsoap : model.soap.isSome = false)
    {compiled last : Compiled} {compiler compiler' : SchemaCompiler}
    (h : operations.foldlM (compileEach T (T.options model)) compiled compiler = (.ok last, compiler')) :
    ∃ rows : List (ApiOperation × ControlPlane.CompiledOperation), rows.map (·.1) = operations ∧
      last.operations = (rows.map fun row => (row.1.operationId, row.2)).foldl
        (fun (d : Dict String ControlPlane.CompiledOperation) row => d.insert row.1 row.2)
          compiled.operations ∧
      ∀ row ∈ rows, EntryOf T model row.1 row.2 := by
  induction operations generalizing compiled compiler with
  | nil =>
    have hnil : ((.ok compiled, compiler) : Except CompileError Compiled × SchemaCompiler) =
        (.ok last, compiler') := h
    cases hnil
    exact ⟨[], rfl, rfl, fun row hrow => absurd hrow List.not_mem_nil⟩
  | cons op operations ih =>
    rw [List.foldlM_cons, bind_compile] at h
    cases hop : compileEach T (T.options model) compiled op compiler with
    | mk result compiler₁ =>
      rw [hop] at h
      cases result with
      | error error => cases h
      | ok next =>
        obtain ⟨entry, hentry, hnext⟩ := compileEach_ok hsoap hop
        obtain ⟨rows, hfirst, hlast, hrows⟩ := ih h
        refine ⟨(op, entry) :: rows, by rw [List.map_cons, hfirst], ?_, ?_⟩
        · rw [hlast, hnext, List.map_cons, List.foldl_cons]
        · intro row hrow
          rcases List.mem_cons.mp hrow with rfl | hrow
          · exact hentry
          · exact hrows row hrow

theorem json_rows (T : Toolkit) (hsoap : model.soap.isSome = false) {bundle : ControlPlane.Bundle}
    {notes : List String} (h : compileArtifact T model = .ok ⟨some bundle, notes⟩) :
    ∃ rows : List (ApiOperation × ControlPlane.CompiledOperation), rows.map (·.1) = model.operations ∧
      bundle.operations = (rows.map fun row => (row.1.operationId, row.2)).foldl
        (fun (d : Dict String ControlPlane.CompiledOperation) row => d.insert row.1 row.2) ∅ ∧
      ∀ row ∈ rows, EntryOf T model row.1 row.2 := by
  rw [compileArtifact, if_neg (by rw [hsoap]; exact Bool.false_ne_true), compileJsonArtifact] at h
  split at h
  · cases h
  · rename_i compiled compiler hfold
    split at h
    · cases h
    · obtain ⟨hbundle, -⟩ := (ControlPlane.CompileResult.mk.injEq ..).mp (Except.ok.inj h)
      obtain rfl := Option.some.inj hbundle
      exact json_rows_from hsoap hfold

variable {R : Runtime}

theorem entry_of_lookup {route : ConfigRoute}
    {operations : Dict String ControlPlane.CompiledOperation}
    (hids : (model.operations.map (·.operationId)).Nodup)
    (hpublished : Published R T model route operations) (hop : op ∈ model.operations)
    {entry : ControlPlane.CompiledOperation}
    (hlookup : operations.lookup op.operationId = some entry) : EntryOf T model op entry := by
  obtain ⟨bundle, notes, hcompile, rfl⟩ := hpublished.compiled
  cases bundle with
  | none => cases hlookup
  | some bundle =>
    obtain ⟨rows, hfirst, hoperations, hrows⟩ :
        ∃ rows : List (ApiOperation × ControlPlane.CompiledOperation),
          rows.map (·.1) = model.operations ∧
          bundle.operations = (rows.map fun row => (row.1.operationId, row.2)).foldl
            (fun (d : Dict String ControlPlane.CompiledOperation) row => d.insert row.1 row.2) ∅ ∧
          ∀ row ∈ rows, EntryOf T model row.1 row.2 := by
      cases hsoap : model.soap.isSome with
      | true => exact xsd_rows T hsoap hcompile
      | false => exact json_rows T hsoap hcompile
    rw [← hfirst] at hop
    obtain ⟨row, hrow, rfl⟩ := List.mem_map.mp hop
    have hnodup : ((rows.map fun row => (row.1.operationId, row.2)).map (·.1)).Nodup := by
      rw [← hfirst, List.map_map] at hids
      rw [List.map_map]
      exact hids
    have hrowLookup := lookup_foldl_insert_of_mem (∅ : Dict String ControlPlane.CompiledOperation)
      hnodup (List.mem_map_of_mem hrow)
    rw [Option.map_some, Option.getD_some, hoperations, hrowLookup] at hlookup
    rw [← Option.some.inj hlookup]
    exact hrows row hrow

theorem nodup_inj {α β : Type} {f : α → β} {l : List α} (h : (l.map f).Nodup) {a b : α} (ha : a ∈ l)
    (hb : b ∈ l) (hab : f a = f b) : a = b := List.inj_on_of_nodup_map h ha hb hab

theorem addressed_of_found {route : ConfigRoute}
    {operations : Dict String ControlPlane.CompiledOperation}
    (hids : (model.operations.map (·.operationId)).Nodup)
    (hpublished : Published R T model route operations) {P : Platform} {gw : Gateway}
    {req : Request} {resolved : Resolved} (hfound : Found P gw req route resolved)
    {operation : ConfigOperation} (hoperation : resolved.operation = some operation) :
    ∃ op ∈ model.operations, Addresses P gw req route op ∧
      operation = (indexed operations op).operation := by
  obtain ⟨index, hindex, hroute⟩ := hpublished.index
  have hmem : ∀ operation ∈ route.operations, ∃ op ∈ model.operations,
      operation = (indexed operations op).operation := by
    intro operation hin
    rw [buildOperationIndex] at hindex
    split at hindex
    · cases hindex
    · rw [hroute, ← Except.ok.inj hindex, List.map_map] at hin
      obtain ⟨op, hop, rfl⟩ := List.mem_map.mp hin
      exact ⟨op, hop, rfl⟩
  cases hfound with
  | envelope hsoap hbody hstart hchild hsoapMem =>
    dsimp only at hoperation
    have hin := List.mem_of_find?_eq_some hoperation
    have hid := List.find?_some hoperation
    obtain ⟨op, hop, rfl⟩ := hmem operation hin
    rw [hpublished.soap, soapIndexFor] at hsoap
    obtain ⟨binding, -, rfl⟩ := Option.map_eq_some_iff.mp hsoap
    rw [List.mem_mergeSort] at hsoapMem
    obtain ⟨chosen, hchosen, hrow⟩ := List.mem_filterMap.mp hsoapMem
    obtain ⟨element, helement, rfl⟩ := Option.map_eq_some_iff.mp hrow
    obtain rfl : op = chosen := nodup_inj hids hop hchosen (eq_of_beq hid)
    exact ⟨op, hop, .element hbody hstart hchild helement, rfl⟩
  | call hkind hmethod hread hparsed hin hselector =>
    obtain rfl := Option.some.inj hoperation
    obtain ⟨op, hop, rfl⟩ := hmem _ hin
    refine ⟨op, hop, .selector hread hparsed ?_, rfl⟩
    exact (Option.filter_eq_some_iff.mp hselector).1
  | mcpStream => cases hoperation
  | undeclared => cases hoperation
  | matched hin hserves =>
    obtain rfl := Option.some.inj hoperation
    obtain ⟨op, hop, rfl⟩ := hmem _ hin
    exact ⟨op, hop, .path rfl rfl hserves, rfl⟩

theorem oneOperation_of_nodup (hids : (model.operations.map (·.operationId)).Nodup)
    (helements : (model.operations.filterMap (·.inputElement)).Nodup)
    (hselectors : (model.operations.filterMap (·.selector)).Nodup) : OneOperation R T model := by
  refine ⟨hids, helements, hselectors, ?_⟩
  intro route operations hpublished P gw req resolved operation hresolve hoperation
  obtain ⟨op, hop, haddresses, rfl⟩ :=
    addressed_of_found hids hpublished (of_resolve hresolve) hoperation
  refine ⟨op, hop, haddresses, rfl, fun op' hop' hid => nodup_inj hids hop' hop hid, ?_⟩
  exact fun entry hlookup => entry_of_lookup hids hpublished hop hlookup

/-! ### Of every definition -/

theorem perm_oneOperation_iff (h : model.operations.Perm operations) :
    OneOperation R T model ↔ (operations.map (·.operationId)).Nodup ∧
      (operations.filterMap (·.inputElement)).Nodup ∧
        (operations.filterMap (·.selector)).Nodup := by
  rw [← (h.map _).nodup_iff, ← (h.filterMap _).nodup_iff, ← (h.filterMap (·.selector)).nodup_iff]
  exact ⟨fun hone => ⟨hone.ids, hone.elements, hone.selectors⟩,
    fun ⟨hids, helements, hselectors⟩ => oneOperation_of_nodup hids helements hselectors⟩

variable {result : NormalizeResult}

theorem spec_iff (h : normalizeSpec R doc = .ok result) : OneOperation R T result.model ↔
      (declaredOperations doc).Pairwise fun d d' => ¬ d.Clash d' := by
  obtain ⟨-, hperm⟩ := normalizeSpec_ok h
  rw [perm_oneOperation_iff hperm, ← nodup_declaredIds_iff, List.map_map, List.filterMap_map,
    List.filterMap_map]
  have hnone : ∀ read : ApiOperation → Option String, (∀ d : DeclaredOperation, read (operationOf doc
      (decide (result.format = .swagger20)) d.path d.item d.method d.op) = none) →
      (declaredOperations doc).filterMap (read ∘ fun d => operationOf doc
        (decide (result.format = .swagger20)) d.path d.item d.method d.op) = [] :=
    fun read hread => List.filterMap_eq_nil_iff.mpr fun d _ => hread d
  rw [hnone (·.inputElement) fun _ => rfl, hnone (·.selector) fun _ => rfl]
  exact ⟨fun hone => hone.1, fun hids => ⟨hids, List.nodup_nil, List.nodup_nil⟩⟩

theorem mcp_iff (h : normalizeMcp R doc = .ok result) :
    OneOperation R T result.model ↔ (toolNames doc).Nodup := by
  obtain ⟨manifest, hmanifest, -, hperm⟩ := normalizeMcp_ok h
  have hrpc : ∀ op ∈ (mcpMethods manifest.capabilities).map MethodSpec.operation ++
      manifest.tools.map McpTool.operation,
      op.inputElement = none ∧ op.selector = some op.operationId := by
    intro op hop
    rcases List.mem_append.mp hop with hop | hop
    · obtain ⟨spec, -, rfl⟩ := List.mem_map.mp hop
      exact ⟨rfl, rfl⟩
    · obtain ⟨tool, -, rfl⟩ := List.mem_map.mp hop
      exact ⟨rfl, rfl⟩
  rw [perm_oneOperation_iff hperm, (rpc_operations hrpc).1, (rpc_operations hrpc).2,
    nodup_mcpIds_iff, names_of_readManifest hmanifest]
  exact ⟨fun hone => hone.1, fun htools => ⟨htools, List.nodup_nil, htools⟩⟩

theorem a2a_oneOperation (h : normalizeA2a R doc = .ok result) : OneOperation R T result.model := by
  obtain ⟨binding, -, -, hperm⟩ := normalizeA2a_ok h
  have hrpc : ∀ op ∈ (a2aMethods binding.capabilities).map MethodSpec.operation,
      op.inputElement = none ∧ op.selector = some op.operationId := by
    intro op hop
    obtain ⟨spec, -, rfl⟩ := List.mem_map.mp hop
    exact ⟨rfl, rfl⟩
  have hids : (((a2aMethods binding.capabilities).map MethodSpec.operation).map
      (·.operationId)).Nodup := by
    have hfixed : (A2A_METHODS.map (·.method)).Nodup := by decide
    rw [List.map_map]
    exact hfixed.sublist (List.Sublist.map _ List.filter_sublist)
  rw [perm_oneOperation_iff hperm, (rpc_operations hrpc).1, (rpc_operations hrpc).2]
  exact ⟨hids, List.nodup_nil, hids⟩

theorem map_eq_of_forall₂ {α β γ : Type} {f : α → γ} {g : β → γ} {l : List α} {l' : List β}
    (h : List.Forall₂ (fun a b => f a = g b) l l') : l.map f = l'.map g := by
  induction h with
  | nil => rfl
  | cons hrow _ ih => rw [List.map_cons, List.map_cons, hrow, ih]

theorem map_some_filterMap {α β : Type} {f : α → Option β} {l : List α}
    (h : ∀ a ∈ l, (f a).isSome) : (l.filterMap f).map some = l.map f := by
  induction l with
  | nil => rfl
  | cons a l ih =>
    obtain ⟨b, hb⟩ := Option.isSome_iff_exists.mp (h a List.mem_cons_self)
    rw [List.filterMap_cons_some hb, List.map_cons, List.map_cons, hb,
      ih fun a ha => h a (List.mem_cons_of_mem _ ha)]

theorem wsdl_iff {W : WsdlTools} {limits : Limits} {raw : Text}
    (h : normalizeWsdl R W limits raw = .ok result) :
    OneOperation R T result.model ↔
      ∀ root, parseDocument W.charCode limits raw = .ok root → TellsApartWsdl root := by
  obtain ⟨root, contract, hroot, hcontract, -, hperm⟩ := normalizeWsdl_ok h
  obtain ⟨targetNamespace, binding, htarget, hbinding, hall⟩ := readWsdl_ok hcontract
  have hnames : ((binding.childrenNamed WSDL_NS "operation").map fun node => attr node "name") =
      (contract.operations.map (·.operationId)).map some := by
    rw [List.map_map]
    exact map_eq_of_forall₂ (hall.imp fun _ _ h => h.1)
  have hset : ∀ op ∈ contract.operations, op.inputElement.isSome := by
    have hmap := map_eq_of_forall₂ (f := fun _ => true) (hall.imp fun _ _ h => h.2.2.1.symm)
    intro op hop
    obtain ⟨_, -, htrue⟩ := List.mem_map.mp (hmap ▸ List.mem_map_of_mem hop)
    exact htrue.symm
  have helements : (binding.childrenNamed WSDL_NS "operation").map
      (inputElementOf root targetNamespace binding) =
      (contract.operations.filterMap (·.inputElement)).map some := by
    rw [map_some_filterMap hset]
    exact map_eq_of_forall₂ (hall.imp fun _ _ h => h.2.1)
  have hselectors : contract.operations.filterMap (·.selector) = [] := by
    have hmap := map_eq_of_forall₂ (f := fun _ => none) (hall.imp fun _ _ h => h.2.2.2.symm)
    refine List.filterMap_eq_nil_iff.mpr fun op hop => ?_
    obtain ⟨_, -, hnone⟩ := List.mem_map.mp (hmap ▸ List.mem_map_of_mem hop)
    exact hnone.symm
  have hsome : ∀ l : List String, (l.map some).Nodup ↔ l.Nodup :=
    fun l => List.nodup_map_iff (Option.some_injective _)
  rw [perm_oneOperation_iff hperm, hselectors]
  constructor
  · rintro ⟨hids, hinputs, -⟩ root' hroot' targetNamespace' binding' htarget' hbinding'
    obtain rfl := Except.ok.inj (hroot.symm.trans hroot')
    obtain rfl := Option.some.inj (htarget.symm.trans htarget')
    obtain rfl := Option.some.inj (hbinding.symm.trans hbinding')
    rw [hnames, helements, hsome, hsome]
    exact ⟨hids, hinputs⟩
  · intro happart
    have hboth := happart root hroot targetNamespace binding htarget hbinding
    rw [hnames, helements, hsome, hsome] at hboth
    exact ⟨hboth.1, hboth.2, List.nodup_nil⟩

theorem oneOperation_iff (R : Runtime) (W : WsdlTools) (T : Toolkit) (definition : Definition)
    (result : NormalizeResult) (h : normalize R W definition = .ok result) :
    OneOperation R T result.model ↔ definition.TellsApart W := by
  cases definition with
  | openApi doc => exact spec_iff h
  | wsdl limits raw => exact wsdl_iff h
  | mcp doc => exact mcp_iff h
  | a2a doc => exact iff_of_true (a2a_oneOperation h) trivial

/-- What the normalisers are given here: names in the order of their characters, and no numbers. -/
def plainRuntime : Runtime := ⟨compare, fun _ => none⟩

def plainWsdlTools : WsdlTools := ⟨fun _ => none, fun _ => .ok (.obj [])⟩

def plainToolkit : Toolkit where
  lintPattern := fun _ _ => []
  text := fun _ => ""
  canonicalJson := fun _ => ""
  sha256Hex := fun bytes => bytes
  calls := 64

def documentOf (paths : List String) : Members :=
  [("openapi", .str "3.0.3"),
    ("paths", .obj (paths.map fun path => (path, .obj [("get", .obj [("summary", .str path)])])))]

theorem oneOperation_of_pets :
    ∃ result, normalize plainRuntime plainWsdlTools (.openApi (documentOf ["/pets", "/pets/{id}"])) =
        .ok result ∧
      (OneOperation plainRuntime plainToolkit result.model ↔
        (Definition.openApi (documentOf ["/pets", "/pets/{id}"])).TellsApart plainWsdlTools) ∧
      (Definition.openApi (documentOf ["/pets", "/pets/{id}"])).TellsApart plainWsdlTools := by
  have happart : (declaredOperations (documentOf ["/pets", "/pets/{id}"])).Pairwise
      fun d d' => ¬ d.Clash d' := (nodup_declaredIds_iff _).mp (by decide +kernel)
  have hrefs : assertSelfContained plainRuntime (.obj (documentOf ["/pets", "/pets/{id}"])) "$"
      (.obj (documentOf ["/pets", "/pets/{id}"])) = .ok () := rfl
  obtain ⟨result, hresult⟩ := normalizeSpec_isOk hrefs
    (show formatOf (documentOf ["/pets", "/pets/{id}"]) = .ok (.openapi30, .oas30) by decide +kernel)
    (List.ne_nil_of_length_pos (by decide +kernel))
  exact ⟨result, hresult, oneOperation_iff plainRuntime plainWsdlTools plainToolkit _ result hresult,
    happart⟩

/-- `/a-b` and `/a_b` are two operations, and both are `get_a_b`. -/
theorem made_ids_collide :
    ∃ result, normalize plainRuntime plainWsdlTools (.openApi (documentOf ["/a-b", "/a_b"])) =
        .ok result ∧ ¬ OneOperation plainRuntime plainToolkit result.model := by
  have hrefs : assertSelfContained plainRuntime (.obj (documentOf ["/a-b", "/a_b"])) "$"
      (.obj (documentOf ["/a-b", "/a_b"])) = .ok () := rfl
  obtain ⟨result, hresult⟩ := normalizeSpec_isOk hrefs
    (show formatOf (documentOf ["/a-b", "/a_b"]) = .ok (.openapi30, .oas30) by decide +kernel)
    (List.ne_nil_of_length_pos (by decide +kernel))
  refine ⟨result, hresult, fun hone => ?_⟩
  obtain ⟨-, hperm⟩ := normalizeSpec_ok hresult
  have hids := ((hperm.map _).nodup_iff).mp hone.ids
  rw [List.map_map] at hids
  have hcollide : ¬ ((declaredOperations (documentOf ["/a-b", "/a_b"])).map fun d =>
      operationIdOf d.op d.method d.path).Nodup := by decide +kernel
  exact hcollide hids

end Apim.Normalize
