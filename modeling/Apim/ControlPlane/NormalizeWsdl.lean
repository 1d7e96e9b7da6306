import Apim.ControlPlane.Normalize
import Apim.Shared.Xml

/-!
# WSDL documents into the model

`normalizeWsdl` (`control-plane/src/normalize-wsdl.ts:16-276`): one service and one SOAP port of a WSDL
1.1 document, `document/literal` and self-contained, with its inline schemas compiled. What compiles a
set of schemas is a parameter.
-/

namespace Apim.Normalize
open JsonSchema Guard Overlay Xml

def WSDL_NS : String := "http://schemas.xmlsoap.org/wsdl/"
def WSDL_SOAP11_NS : String := "http://schemas.xmlsoap.org/wsdl/soap/"
def WSDL_SOAP12_NS : String := "http://schemas.xmlsoap.org/wsdl/soap12/"
def XSD_NS : String := "http://www.w3.org/2001/XMLSchema"

/-- What reads a WSDL besides the language: the references of a text, and `compileXsdSet`, with the
message of a construct that it does not support. -/
structure WsdlTools where
  charCode : Text → Option Int
  compileXsdSet : List XmlNode → Except String Json

def attr (node : XmlNode) (name : String) : Option String := node.attributes.lookup name

def required (node : XmlNode) (name place : String) : Except String String :=
  demand (attr node name) s!"{place}: missing required attribute \"{name}\""

def qnameAttr (node : XmlNode) (name : String) : Option String :=
  ((attr node name).filter (· ≠ "")).map node.resolveQName

/-! ### References -/

def checkImport (node : XmlNode) : Except String Unit :=
  if node.ns = WSDL_NS ∧ node.name = "import" then
    let location := (attr node "location").getD "?"
    .error (s!"wsdl:import (location \"{location}\") is not supported: an uploaded contract must " ++
      "be self-contained (design section 5.3). Inline the imported document.")
  else
    match (attr node "schemaLocation").filter (· ≠ "") with
    | some location =>
      if node.ns = XSD_NS ∧ (node.name = "import" ∨ node.name = "include") then
        let name := node.name
        .error (s!"xsd:{name} schemaLocation \"{location}\" is not supported: an uploaded contract " ++
          "must be self-contained (design section 5.3). Inline the schema.")
      else .ok ()
    | none => .ok ()

mutual
def assertInline : XmlNode → Except String Unit
  | .mk tag scope children text => do
    checkImport (.mk tag scope children text)
    assertInlineAll children

def assertInlineAll : List XmlNode → Except String Unit
  | [] => .ok ()
  | node :: nodes => do
    assertInline node
    assertInlineAll nodes
end

/-- `prefixFor`: the first prefix that the root binds to the namespace, with its colon. -/
def prefixFor (root : XmlNode) (targetNamespace : String) : String :=
  match root.tag.declarations.find? fun entry => entry.2 = targetNamespace ∧ entry.1 ≠ "" with
  | some entry => entry.1 ++ ":"
  | none => ""

def componentQName (root : XmlNode) (targetNamespace name : String) : String :=
  root.resolveQName (prefixFor root targetNamespace ++ name)

/-! ### Messages and port types -/

def readMessage (root : XmlNode) (targetNamespace : String)
    (messages : Dict String (Option String)) (message : XmlNode) :
    Except String (Dict String (Option String)) := do
  let name ← required message "name" "message"
  let element := ((message.childrenNamed WSDL_NS "part").head?).bind fun part =>
    qnameAttr part "element"
  return messages.insert (componentQName root targetNamespace name) element

structure PortOperation where
  input : Option String
  output : Option String
  deriving DecidableEq

def messageOf (operation : XmlNode) (role : String) : Option String :=
  (operation.childNamed WSDL_NS role).bind fun node => qnameAttr node "message"

def readPortOperation (operations : Dict String PortOperation) (operation : XmlNode) :
    Except String (Dict String PortOperation) := do
  let name ← required operation "name" "portType/operation"
  return operations.insert name ⟨messageOf operation "input", messageOf operation "output"⟩

def readPortType (root : XmlNode) (targetNamespace : String)
    (portTypes : Dict String (Dict String PortOperation)) (portType : XmlNode) :
    Except String (Dict String (Dict String PortOperation)) := do
  let name ← required portType "name" "portType"
  let operations ← (portType.childrenNamed WSDL_NS "operation").foldlM readPortOperation ∅
  return portTypes.insert (componentQName root targetNamespace name) operations

/-! ### The port -/

structure ChosenPort where
  port : XmlNode
  soapNs : String
  address : XmlNode

def choosePort (service : XmlNode) : Option ChosenPort :=
  (service.childrenNamed WSDL_NS "port").findSome? fun port =>
    [WSDL_SOAP11_NS, WSDL_SOAP12_NS].findSome? fun soapNs =>
      (port.childNamed soapNs "address").map fun address => ⟨port, soapNs, address⟩

def findBinding (root : XmlNode) (targetNamespace qname : String) :
    List XmlNode → Except String (Option XmlNode)
  | [] => .ok none
  | node :: nodes => do
    let name ← required node "name" "binding"
    if componentQName root targetNamespace name = qname then return some node
    else findBinding root targetNamespace qname nodes

def styleOf (node : Option XmlNode) (default : String) : String :=
  ((node.bind fun node => attr node "style").getD default)

/-! ### Operations -/

def messageNamed (messages : Dict String (Option String)) (qname : Option String)
    (operation role : String) : Except String (Option String) :=
  match qname.filter (· ≠ "") with
  | none => .ok none
  | some qname =>
    match messages.lookup qname with
    | some element => .ok element
    | none =>
      .error (s!"operation {operation}: its {role} names message {qname}, which this WSDL does not " ++
        "declare")

def checkDeclared (schema : Option Json) (operation role : String) (element : Option String) :
    Except String Unit :=
  match schema, element with
  | some schema, some element =>
    ensure (element = "" || declaresElement schema element)
      (s!"operation {operation}: its {role} body element {element} is not declared by the WSDL's " ++
        "inline schema, so there would be nothing to validate that body against. Declare the " ++
        "element, or remove the inline schema.")
  | _, _ => .ok ()

structure BindingContext where
  soapNs : String
  style : String
  portType : String
  declared : Dict String PortOperation
  messages : Dict String (Option String)
  schema : Option Json

def readOperation (ctx : BindingContext) (operation : XmlNode) : Except String ApiOperation := do
  let name ← required operation "name" "binding/operation"
  let soapOperation := operation.childNamed ctx.soapNs "operation"
  let style := styleOf soapOperation ctx.style
  ensure (style = "document")
    s!"operation {name}: style=\"{style}\" is not supported, only document/literal"
  let soapAction := (soapOperation.bind fun node => attr node "soapAction").getD ""
  let declared ← demand (ctx.declared.lookup name)
    s!"binding operation {name} is not declared in portType {ctx.portType}"
  let input ← messageNamed ctx.messages declared.input name "input"
  let output ← messageNamed ctx.messages declared.output name "output"
  let inputElement ← demand (input.filter (· ≠ ""))
    s!"operation {name}: its input message has no element part, which document/literal requires"
  ensure (!(declared.output.any (· ≠ "") && (output.filter (· ≠ "")).isNone))
    (s!"operation {name}: it declares an output message with no element part, which " ++
      "document/literal requires. Give the part an element, or drop the output.")
  checkDeclared ctx.schema name "input" (some inputElement)
  checkDeclared ctx.schema name "output" output
  return {
    operationId := name
    method := "POST"
    path := "/"
    parameters := [⟨"body", "body", true, none⟩]
    soapAction := some soapAction
    inputElement := some inputElement
    outputElement := output }

/-! ### The document -/

def compileInlineSchemas (T : WsdlTools) (root : XmlNode) : Except String (Option Json) :=
  match root.childNamed WSDL_NS "types" with
  | none => .ok none
  | some types =>
    let schemas := types.childrenNamed XSD_NS "schema"
    if schemas.isEmpty then .ok none
    else
      (relabel (fun message =>
        "the WSDL's schema uses a construct this validator does not implement, so publishing it " ++
          s!"would claim a check that is not made: {message}") (T.compileXsdSet schemas)).map some

structure WsdlContract where
  operations : List ApiOperation
  soap : SoapBinding

def readWsdl (T : WsdlTools) (root : XmlNode) : Except String WsdlContract := do
  ensure (root.ns = WSDL_NS && root.name = "definitions")
    (s!"not a WSDL 1.1 document: expected <definitions> in {WSDL_NS}, found \x7b" ++ root.ns ++
      "\x7d" ++ root.name)
  assertInline root
  let targetNamespace ← required root "targetNamespace" "definitions"
  let schema ← compileInlineSchemas T root
  let messages ← (root.childrenNamed WSDL_NS "message").foldlM (readMessage root targetNamespace) ∅
  let portTypes ←
    (root.childrenNamed WSDL_NS "portType").foldlM (readPortType root targetNamespace) ∅
  let service ← demand (root.childrenNamed WSDL_NS "service").head? "the WSDL declares no <service>"
  let serviceName ← required service "name" "service"
  let chosen ← demand (choosePort service)
    ("the WSDL declares no SOAP port: expected a <port> containing <soap:address> " ++
      s!"({WSDL_SOAP11_NS} or {WSDL_SOAP12_NS})")
  let portName ← required chosen.port "name" "port"
  let endpoint ← required chosen.address "location" "soap:address"
  let bindingName ← required chosen.port "binding" "port"
  let bindingQName := chosen.port.resolveQName bindingName
  let found ← findBinding root targetNamespace bindingQName
    (root.childrenNamed WSDL_NS "binding")
  let binding ← demand found
    s!"the port references binding {bindingQName}, which is not declared"
  let style := styleOf (binding.childNamed chosen.soapNs "binding") "document"
  ensure (style = "document")
    (s!"soap:binding style=\"{style}\" is not supported; only document/literal is (rpc/literal " ++
      "needs a different body shape and is out of scope)")
  let typeName ← required binding "type" "binding"
  let portTypeQName := binding.resolveQName typeName
  let declared ← demand (portTypes.lookup portTypeQName)
    s!"the binding references portType {portTypeQName}, which is not declared"
  let operations ← (binding.childrenNamed WSDL_NS "operation").mapM
    (readOperation ⟨chosen.soapNs, style, portTypeQName, declared, messages, schema⟩)
  ensure (!operations.isEmpty) "the WSDL binding declares no operations"
  return ⟨operations, {
    version := if chosen.soapNs = WSDL_SOAP12_NS then "1.2" else "1.1"
    service := serviceName
    port := portName
    endpoint := endpoint
    targetNamespace := targetNamespace
    schema := schema }⟩

def normalizeWsdl (R : Runtime) (T : WsdlTools) (limits : Limits) (raw : Text) :
    Except String NormalizeResult := do
  let root ← relabel (fun message => s!"the WSDL could not be parsed: {message}")
    (parseDocument T.charCode limits raw)
  let contract ← readWsdl T root
  let documentation := (root.childNamed WSDL_NS "documentation").map fun node =>
    String.ofList (Routing.trim node.text)
  return ⟨{
    title := contract.soap.service
    version := "1.0.0"
    description := documentation.filter (· ≠ "")
    servers := [contract.soap.endpoint]
    operations := contract.operations.mergeSort fun a b =>
      (R.localeCompare a.operationId b.operationId).isLE
    soap := some contract.soap }, .wsdl⟩

theorem normalizeWsdl_ok {R : Runtime} {T : WsdlTools} {limits : Limits} {raw : Text}
    {result : NormalizeResult} (h : normalizeWsdl R T limits raw = .ok result) :
    ∃ root contract, parseDocument T.charCode limits raw = .ok root ∧
      readWsdl T root = .ok contract ∧ result.model.soap = some contract.soap ∧
      result.model.operations.Perm contract.operations := by
  simp only [normalizeWsdl, bind_eq_ok, relabel_eq_ok, pure_eq_ok] at h
  obtain ⟨root, hroot, contract, hcontract, rfl⟩ := h
  exact ⟨root, contract, hroot, hcontract, rfl, List.mergeSort_perm _ _⟩

end Apim.Normalize
