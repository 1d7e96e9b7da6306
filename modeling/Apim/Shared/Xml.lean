import Apim.Shared.Routing
import Mathlib.Data.List.Basic

/-!
# Reading XML

The scanner of `shared/xml.ts` and what is built on it: the tree of a document, and the scan of a SOAP
envelope that stops at the first element of its body. One pass gives the events of a text and how it
ended (`scan`, lines 145-342); a reader takes the events in order and stops where it throws or has seen
enough, so what comes behind that does not count. A text's surrogates are not told apart: a numeric
reference to one is read as the replacement character.
-/

namespace Apim.Xml
open Routing (isSpace trim utf16Length)

abbrev Text := List Char

structure Limits where
  maxBytes : Nat := 8 * 1024 * 1024
  maxDepth : Nat := 32
  maxElements : Nat := 100000
  deriving DecidableEq, Repr

def nameStart (c : Char) : Bool := c.isAlpha || c == '_'

def nameChar (c : Char) : Bool := c.isAlphanum || c == '.' || c == '_' || c == ':' || c == '-'

def qnameOf (ns name : String) : String := if ns = "" then name else "\x7b" ++ ns ++ "\x7d" ++ name

def cut (pattern : Text) : Text → Option (Text × Text)
  | [] => none
  | c :: rest =>
    match pattern.isPrefixOf? (c :: rest) with
    | some behind => some ([], behind)
    | none => (cut pattern rest).map fun (before, behind) => (c :: before, behind)

/-! ### References -/

def charOf (code : Nat) : Char := if code.isValidChar then Char.ofNat code else '\ufffd'

section
variable (charCode : Text → Option Int)

/-- What a reference stands for. `charCode` is the whole number that the digits of a numeric one are
read as, by `parseInt` or `Number`. -/
def reference (name : Text) : Except String Char :=
  match String.ofList name with
  | "amp" => .ok '&'
  | "lt" => .ok '<'
  | "gt" => .ok '>'
  | "quot" => .ok '"'
  | "apos" => .ok '\''
  | text =>
    match name with
    | '#' :: digits =>
      match charCode digits with
      | some code =>
        if code ≤ 0 ∨ 0xffff < code then
          .error (s!"character reference &{text}; is out of the supported range (bounded to the " ++
            "BMP)")
        else .ok (charOf code.toNat)
      | none =>
        .error s!"character reference &{text}; is out of the supported range (bounded to the BMP)"
    | _ =>
      .error (s!"entity reference &{text}; is not allowed: only the five predefined entities and " ++
        "numeric character references are supported, and entity declarations are refused outright")

/-- `decodeEntities`, with the name of the reference it is in, from its end. -/
def decodeFrom : Option Text → Text → Except String Text
  | none, [] => .ok []
  | some _, [] => .error "unterminated entity reference"
  | none, c :: rest =>
    if c = '&' then decodeFrom (some []) rest
    else do
      let decoded ← decodeFrom none rest
      return c :: decoded
  | some name, c :: rest =>
    if c = ';' then do
      let char ← reference charCode name.reverse
      let decoded ← decodeFrom none rest
      return char :: decoded
    else decodeFrom (some (c :: name)) rest

def decodeEntities (raw : Text) : Except String Text := decodeFrom charCode none raw

end

/-! ### Tags -/

abbrev Entries := List (String × String)

def Entries.set (entries : Entries) (key value : String) : Entries :=
  if entries.any (·.1 == key) then
    entries.map fun entry => if entry.1 = key then (key, value) else entry
  else entries ++ [(key, value)]

structure RawAttribute where
  name : Text
  value : Text
  deriving DecidableEq, Repr

inductive TagEnd where
  | closed (attributes : List RawAttribute) (selfClosing : Bool) (rest : Text)
  | unfinished
  | fails (message : String)

def TagEnd.cons (a : RawAttribute) : TagEnd → TagEnd
  | .closed attributes selfClosing rest => .closed (a :: attributes) selfClosing rest
  | other => other

def span (p : Char → Bool) (input : Text) : Text × Text := (input.takeWhile p, input.dropWhile p)

section
variable (charCode : Text → Option Int)

def readAttribute (input : Text) : Except String (Option (RawAttribute × Text)) :=
  let (name, afterName) := span nameChar input
  let text := String.ofList name
  if name = [] then .error "expected an attribute name"
  else
    match afterName.dropWhile isSpace with
    | '=' :: afterSign =>
      match afterSign.dropWhile isSpace with
      | quote :: inside =>
        if quote = '"' ∨ quote = '\'' then
          match cut [quote] inside with
          | none => .ok none
          | some (raw, rest) => do
            let value ← decodeEntities charCode raw
            return some (⟨name, value⟩, rest)
        else .error "attribute values must be quoted"
      | [] => .error "attribute values must be quoted"
    | _ => .error s!"attribute {text} has no value"

def readAttributes : Nat → Text → TagEnd
  | 0, _ => .unfinished
  | turns + 1, input =>
    match input.dropWhile isSpace with
    | [] => .unfinished
    | '>' :: rest => .closed [] false rest
    | '/' :: '>' :: rest => .closed [] true rest
    | input =>
      match readAttribute charCode input with
      | .error message => .fails message
      | .ok none => .unfinished
      | .ok (some (a, rest)) => (readAttributes turns rest).cons a

end

/-! ### Events -/

def splitName (raw : Text) : String × String :=
  match cut [':'] raw with
  | none => ("", String.ofList raw)
  | some (before, behind) => (String.ofList before, String.ofList behind)

structure XmlAttribute where
  qualifier : String
  name : String
  ns : String
  value : String
  deriving DecidableEq, Repr

/-- `StartTagEvent`. `number` is how many elements there are up to this one. -/
structure StartTag where
  number : Nat
  raw : String
  name : String
  ns : String
  attributes : List XmlAttribute
  declarations : Entries
  selfClosing : Bool
  depth : Nat
  deriving DecidableEq, Repr

def StartTag.qname (tag : StartTag) : String := qnameOf tag.ns tag.name

inductive Event where
  | start (tag : StartTag)
  | close
  | text (raw : Text)
  | cdata (text : Text)
  deriving DecidableEq, Repr

inductive Ending where
  | finished
  | truncated
  | failed (message : String)
  deriving DecidableEq, Repr

/-! ### The scan -/

structure ScanState where
  declared : List Entries := []
  openTags : List Text := []
  elements : Nat := 0
  sawDeclaration : Bool := false
  sawRoot : Bool := false
  deriving DecidableEq, Repr

def XML_NS : String := "http://www.w3.org/XML/1998/namespace"

def OBJECT_METHODS : List (String × String) :=
  [("constructor", "Object"), ("__defineGetter__", "__defineGetter__"),
    ("__defineSetter__", "__defineSetter__"), ("hasOwnProperty", "hasOwnProperty"),
    ("__lookupGetter__", "__lookupGetter__"), ("__lookupSetter__", "__lookupSetter__"),
    ("isPrototypeOf", "isPrototypeOf"), ("propertyIsEnumerable", "propertyIsEnumerable"),
    ("toString", "toString"), ("valueOf", "valueOf"), ("toLocaleString", "toLocaleString")]

def inherited (name : String) : Option String :=
  if name = "__proto__" then some "[object Object]"
  else (OBJECT_METHODS.lookup name).map fun shown => "function " ++ shown ++ "() { [native code] }"

/-- What a prefix is bound to, from the innermost scope on; `xml` is bound by itself. A scope is a plain
object. -/
def binding (declared : List Entries) (name : String) : Option String :=
  (declared.findSome? fun entries => (entries.lookup name).or (inherited name)).or
    ((inherited name).or (if name = "xml" then some XML_NS else none))

def resolveNs (declared : List Entries) (name : String) : Except String String :=
  match binding declared name with
  | some uri => .ok uri
  | none =>
    if name = "" then .ok "" else .error s!"namespace prefix \"{name}\" is not declared"

def declares (a : RawAttribute) : Option String :=
  if a.name = "xmlns".toList then some ""
  else ("xmlns:".toList.isPrefixOf? a.name).map String.ofList

/-- `declarations[name] = value`; an object does not take a text for its prototype. -/
def declare (entries : Entries) (name value : String) : Entries :=
  if name = "__proto__" then entries else Entries.set entries name value

def declarationsOf (attributes : List RawAttribute) : Entries :=
  attributes.foldl (fun entries a =>
    match declares a with
    | some name => declare entries name (String.ofList a.value)
    | none => entries) []

def resolveAttribute (declared : List Entries) (a : RawAttribute) : Except String XmlAttribute := do
  let (qualifier, name) := splitName a.name
  let ns ← if qualifier = "" then pure "" else resolveNs declared qualifier
  return ⟨qualifier, name, ns, String.ofList a.value⟩

inductive Turn where
  | goes (events : List Event) (s : ScanState) (rest : Text)
  | ends (ending : Ending)

section
variable (charCode : Text → Option Int) (limits : Limits)

def startTag (s : ScanState) (input : Text) : Turn :=
  if limits.maxElements < s.elements + 1 then
    .ends (.failed s!"document has more than {limits.maxElements} elements")
  else
    match input with
    | [] => .ends .truncated
    | c :: _ =>
      let (raw, rest) := span nameChar input
      if !nameStart c then .ends (.failed "expected an element name after <")
      else if rest = [] then .ends .truncated
      else
        match readAttributes charCode rest.length rest with
        | .fails message => .ends (.failed message)
        | .unfinished => .ends .truncated
        | .closed attributes selfClosing rest =>
          let declarations := declarationsOf attributes
          let declared := declarations :: s.declared
          if limits.maxDepth < declared.length then
            .ends (.failed s!"document nested deeper than {limits.maxDepth} elements")
          else
            let (qualifier, name) := splitName raw
            let resolved : Except String (String × List XmlAttribute) := do
              let ns ← resolveNs declared qualifier
              let resolved ← (attributes.filter fun a => (declares a).isNone).mapM
                (resolveAttribute declared)
              return (ns, resolved)
            match resolved with
            | .error message => .ends (.failed message)
            | .ok (ns, resolved) =>
              .goes
                [.start ⟨s.elements + 1, String.ofList raw, name, ns, resolved, declarations,
                  selfClosing, s.openTags.length⟩]
                { s with
                  elements := s.elements + 1
                  sawRoot := true
                  declared := if selfClosing then s.declared else declared
                  openTags := if selfClosing then s.openTags else raw :: s.openTags }
                rest

def endTag (s : ScanState) (input : Text) : Turn :=
  match cut ['>'] input with
  | none => .ends .truncated
  | some (before, rest) =>
    let raw := trim (before.drop 2)
    let text := String.ofList raw
    match s.openTags with
    | [] => .ends (.failed s!"unexpected closing tag </{text}>")
    | expected :: openTags =>
      let name := String.ofList expected
      if expected ≠ raw then
        .ends (.failed s!"closing tag </{text}> does not match <{name}>")
      -- Its prefix is bound where it was at the start tag.
      else .goes [.close] { s with declared := s.declared.tail, openTags := openTags } rest

def refusedKind (input : Text) : String :=
  String.ofList ((((input.take 32).drop 2).dropWhile isSpace).takeWhile Char.isAlpha |>.map
    Char.toUpper)

def markup (s : ScanState) (input : Text) : Turn :=
  if "<?".toList.isPrefixOf input then
    match cut "?>".toList input with
    | none => .ends .truncated
    | some (before, rest) =>
      if !"xml".toList.isPrefixOf ((before.drop 2).dropWhile isSpace) || s.sawDeclaration ||
          s.sawRoot then
        .ends (.failed ("processing instructions are not allowed (only a leading XML declaration " ++
          "is)"))
      else .goes [] { s with sawDeclaration := true } rest
  else if "<!--".toList.isPrefixOf input then
    match cut "-->".toList input with
    | none => .ends .truncated
    | some (_, rest) => .goes [] s rest
  else if "<![CDATA[".toList.isPrefixOf input then
    match cut "]]>".toList input with
    | none => .ends .truncated
    | some (before, rest) =>
      .goes (if before.drop 9 = [] then [] else [.cdata (before.drop 9)]) s rest
  else if "<!".toList.isPrefixOf input then
    let kind := refusedKind input
    .ends (.failed (s!"<!{kind}> is refused: DTDs, entity declarations and external entities are " ++
      "not processed at all (design section 5.1)"))
  else if "</".toList.isPrefixOf input then endTag s input
  else startTag charCode limits s (input.drop 1)

def textEvents (text : Text) : List Event := if text.all isSpace then [] else [.text text]

def scanFrom : Nat → ScanState → Text → List Event × Ending
  | 0, _, _ => ([], .truncated)
  | turns + 1, s, input =>
    if input = [] then ([], if s.openTags = [] then .finished else .truncated)
    else
      let (text, rest) := span (· != '<') input
      let before := textEvents text
      if rest = [] then (before, .finished)
      else
        match markup charCode limits s rest with
        | .ends ending => (before, ending)
        | .goes events s rest =>
          let scanned := scanFrom turns s rest
          (before ++ events ++ scanned.1, scanned.2)

/-- `scan`: a turn takes at least one character, and the last one finds the end. -/
def scan (input : Text) : List Event × Ending :=
  if limits.maxBytes < utf16Length input then
    ([], .failed s!"document longer than {limits.maxBytes} bytes")
  else scanFrom charCode limits (input.length + 1) {} input

end

/-! ### The tree of a document -/

/-- `XmlNode`. Of the way up to the root it keeps the declarations, its own first. -/
inductive XmlNode where
  | mk (tag : StartTag) (scope : List Entries) (children : List XmlNode) (text : Text)

namespace XmlNode

def tag : XmlNode → StartTag
  | .mk tag _ _ _ => tag

def scope : XmlNode → List Entries
  | .mk _ scope _ _ => scope

def children : XmlNode → List XmlNode
  | .mk _ _ children _ => children

def text : XmlNode → Text
  | .mk _ _ _ text => text

def ns (node : XmlNode) : String := node.tag.ns
def name (node : XmlNode) : String := node.tag.name
def qname (node : XmlNode) : String := node.tag.qname

def attributes (node : XmlNode) : Entries :=
  node.tag.attributes.foldl (fun entries a =>
    if a.qualifier = "" then Entries.set entries a.name a.value else entries) []

def nsAttributes (node : XmlNode) : Entries :=
  node.tag.attributes.foldl (fun entries a =>
    if a.qualifier = "" then entries else Entries.set entries (qnameOf a.ns a.name) a.value) []

def resolveQName (node : XmlNode) (value : String) : String :=
  let (qualifier, name) := splitName value.toList
  qnameOf ((binding node.scope qualifier).getD "") name

def childrenNamed (node : XmlNode) (ns name : String) : List XmlNode :=
  node.children.filter fun child => child.qname = qnameOf ns name

def childNamed (node : XmlNode) (ns name : String) : Option XmlNode :=
  (node.childrenNamed ns name).head?

end XmlNode

structure Frame where
  tag : StartTag
  scope : List Entries
  children : List XmlNode := []
  text : Text := []

def Frame.node (frame : Frame) : XmlNode := .mk frame.tag frame.scope frame.children frame.text

structure Builder where
  roots : List XmlNode := []
  frames : List Frame := []

def Builder.add (builder : Builder) (node : XmlNode) : Builder :=
  match builder.frames with
  | [] => { builder with roots := builder.roots ++ [node] }
  | frame :: frames =>
    { builder with frames := { frame with children := frame.children ++ [node] } :: frames }

def Builder.close (builder : Builder) : Builder :=
  match builder.frames with
  | [] => builder
  | frame :: frames => { builder with frames := frames }.add frame.node

def Builder.addText (builder : Builder) (text : Text) : Builder :=
  match builder.frames with
  | [] => builder
  | frame :: frames => { builder with frames := { frame with text := frame.text ++ text } :: frames }

def Builder.scope (builder : Builder) : List Entries :=
  match builder.frames with
  | [] => []
  | frame :: _ => frame.scope

def Builder.event (charCode : Text → Option Int) (builder : Builder) :
    Event → Except String Builder
  | .start tag =>
    let frame : Frame := { tag := tag, scope := tag.declarations :: builder.scope }
    .ok (if tag.selfClosing then builder.add frame.node
      else { builder with frames := frame :: builder.frames })
  | .close => .ok builder.close
  | .text raw => do
    let text ← decodeEntities charCode raw
    return builder.addText text
  | .cdata text => .ok (builder.addText text)

def Builder.finish (builder : Builder) : List XmlNode :=
  (builder.frames.foldl (fun (builder : Builder) _ => builder.close) builder).roots

def parseDocument (charCode : Text → Option Int) (limits : Limits) (input : Text) :
    Except String XmlNode := do
  let (events, ending) := scan charCode limits input
  let builder ← events.foldlM (Builder.event charCode) {}
  match ending with
  | .failed message => .error message
  | .truncated => .error "unexpected end of document"
  | .finished =>
    match builder.finish with
    | root :: _ => .ok root
    | [] => .error "the document has no root element"

/-! ### The envelope -/

def SOAP_11_ENVELOPE : String := "http://schemas.xmlsoap.org/soap/envelope/"
def SOAP_12_ENVELOPE : String := "http://www.w3.org/2003/05/soap-envelope"

structure EnvelopeScan where
  ns : String
  bodyChild : Option StartTag
  deriving DecidableEq, Repr

/-- The handler of `scanEnvelope`, over the start tags: the root says the version, then comes the body,
then its child, at which the scan stops. -/
def envelopeFrom (ending : Ending) : Option String → Bool → List Event → Except String EnvelopeScan
  | version, _, [] =>
    match ending, version with
    | .failed message, _ => .error message
    | _, none => .error "no SOAP Envelope found in the scanned prefix"
    | _, some ns => .ok ⟨ns, none⟩
  | version, inBody, .start tag :: events =>
    if tag.depth = 0 then
      if tag.ns ≠ SOAP_11_ENVELOPE ∧ tag.ns ≠ SOAP_12_ENVELOPE then
        .error (s!"the root element is \x7b" ++ tag.ns ++ s!"\x7d{tag.name}, not a SOAP Envelope")
      else if tag.name ≠ "Envelope" then
        .error s!"expected a SOAP Envelope, found {tag.name}"
      else envelopeFrom ending (some tag.ns) inBody events
    else if !inBody && tag.depth = 1 && tag.name = "Body" && version = some tag.ns then
      envelopeFrom ending version true events
    else if inBody && tag.depth = 2 then .ok ⟨version.getD SOAP_11_ENVELOPE, some tag⟩
    else envelopeFrom ending version inBody events
  | version, inBody, _ :: events => envelopeFrom ending version inBody events

def scanEnvelope (charCode : Text → Option Int) (limits : Limits) (start : Text) :
    Except String EnvelopeScan :=
  let (events, ending) := scan charCode limits start
  envelopeFrom ending none false events

end Apim.Xml
