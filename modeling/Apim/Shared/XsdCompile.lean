import Apim.Lib.Overlay
import Apim.Shared.JsNumber
import Apim.Shared.Xml
import Apim.Shared.XsdPattern

/-!
# Compiling schemas

The compiler of `shared/xsd.ts:38-593`. It goes through the declarations and writes what it makes of them
into one bundle, with a note of the types it is busy with. The lists of values and patterns of a type are
arrays that types share, so a type has their addresses (`Facets Nat`) and the store has the arrays.
-/

namespace Apim.Xsd
open Overlay (Dict)
open Xml (XmlNode qnameOf)
open XsdPattern (XsdUnsupported xsdPatternToJs)

/-! ### The compiled bundle -/

def XSD_NS : String := "http://www.w3.org/2001/XMLSchema"

def ANY_TYPE : String := qnameOf XSD_NS "anyType"

def builtinName (qname : String) : Option String :=
  ((qnameOf XSD_NS "").toList.isPrefixOf? qname.toList).map String.ofList

inductive Facet where
  | length
  | minLength
  | maxLength
  | minInclusive
  | maxInclusive
  | minExclusive
  | maxExclusive
  | totalDigits
  | fractionDigits
  | whiteSpace
  deriving DecidableEq, Repr

/-- `XsdFacets`, over what stands for an array. A facet of one value has its text; those of a number are
read with `Number`. -/
structure Facets (α : Type) where
  enumeration : Option α := none
  patterns : Option α := none
  values : Dict Facet String := ∅
  deriving DecidableEq

inductive Variety where
  | atomic
  | list
  | union
  deriving DecidableEq, Repr

structure XsdSimpleType (α : Type) where
  builtin : String
  variety : Variety
  facets : Facets α := {}
  itemRef : Option String := none
  memberRefs : List String := []
  deriving DecidableEq

structure XsdAttribute where
  qname : String
  typeRef : String
  use : String
  fixed : Option String
  deriving DecidableEq, Repr

structure XsdElementDecl where
  qname : String
  typeRef : String
  nillable : Bool
  fixed : Option String
  deriving DecidableEq, Repr

inductive DeclRef where
  | global (qname : String)
  | own (decl : XsdElementDecl)
  deriving DecidableEq, Repr

inductive GroupKind where
  | sequence
  | choice
  | all
  deriving DecidableEq, Repr

inductive XsdParticle where
  | group (kind : GroupKind) (min max : Int) (items : List XsdParticle)
  | element (min max : Int) (decl : DeclRef)
  | any (min max : Int)

def XsdParticle.occurring (min max : Int) : XsdParticle → XsdParticle
  | .group kind _ _ items => .group kind min max items
  | .element _ _ decl => .element min max decl
  | .any _ _ => .any min max

structure XsdComplexType where
  particle : Option XsdParticle := none
  attributes : List XsdAttribute := []
  anyAttribute : Bool := false
  textTypeRef : Option String := none
  mixed : Bool

inductive XsdType (α : Type) where
  | simple (type : XsdSimpleType α)
  | complex (type : XsdComplexType)

/-! ### The compiler -/

structure SchemaSource where
  targetNamespace : String
  elementFormQualified : Bool
  attributeFormQualified : Bool
  deriving DecidableEq, Repr

structure Declared where
  node : XmlNode
  source : SchemaSource

abbrev Declarations := List (String × Declared)

def Declarations.set (key : String) (value : Declared) : Declarations → Declarations
  | [] => [(key, value)]
  | entry :: rest =>
    if entry.1 = key then (key, value) :: rest else entry :: Declarations.set key value rest

structure Indexes where
  globalElementNodes : Declarations := []
  namedTypeNodes : Declarations := []
  groupNodes : Declarations := []
  attributeGroupNodes : Declarations := []
  attributeNodes : Declarations := []

inductive Fault where
  | unsupported (refusal : XsdUnsupported)
  | noItemType
  | outOfFuel
  deriving DecidableEq, Repr

structure State where
  elements : Dict String XsdElementDecl := ∅
  types : Dict String (XsdType Nat) := ∅
  arrays : List (List String) := []
  inProgress : List String := []
  inlined : List XmlNode := []

abbrev M := StateT State (Except Fault)

def fail {α : Type} (construct place : String) : M α := throw (.unsupported ⟨construct, place⟩)

def attribute? (node : XmlNode) (name : String) : Option String := node.attributes.lookup name

def given? (node : XmlNode) (name : String) : Option String :=
  (attribute? node name).filter fun value => value ≠ ""

def firstNamed? (node : XmlNode) (name : String) : Option XmlNode := (node.childrenNamed XSD_NS name).head?

def UNSUPPORTED : List String := ["key", "keyref", "unique", "redefine", "notation"]

mutual
def assertSupported : Nat → XmlNode → Except Fault Unit
  | 0, _ => .error (.unsupported ⟨"schema", "schema"⟩)
  | depth + 1, .mk tag scope children text => do
    let node := XmlNode.mk tag scope children text
    if node.ns = XSD_NS then
      if UNSUPPORTED.contains node.name then
        .error (.unsupported ⟨"xs:" ++ node.name, (attribute? node "name").getD "schema"⟩)
      else if (given? node "substitutionGroup").isSome then
        .error (.unsupported ⟨"substitutionGroup", (attribute? node "name").getD "element"⟩)
      else if attribute? node "abstract" = some "true" then
        .error (.unsupported ⟨"abstract", (attribute? node "name").getD node.name⟩)
      else assertAllSupported depth children
    else assertAllSupported depth children

def assertAllSupported : Nat → List XmlNode → Except Fault Unit
  | _, [] => .ok ()
  | depth, child :: rest => do
    assertSupported depth child
    assertAllSupported depth rest
end

def sourceOf (schema : XmlNode) : SchemaSource where
  targetNamespace := (attribute? schema "targetNamespace").getD ""
  elementFormQualified := decide (attribute? schema "elementFormDefault" = some "qualified")
  attributeFormQualified := decide (attribute? schema "attributeFormDefault" = some "qualified")

def indexChild (source : SchemaSource) (indexes : Indexes) (child : XmlNode) : Indexes :=
  match given? child "name" with
  | none => indexes
  | some name =>
    let qname := qnameOf source.targetNamespace name
    let entry : Declared := ⟨child, source⟩
    if child.ns ≠ XSD_NS then indexes
    else if child.name = "element" then
      { indexes with globalElementNodes := indexes.globalElementNodes.set qname entry }
    else if child.name = "complexType" ∨ child.name = "simpleType" then
      { indexes with namedTypeNodes := indexes.namedTypeNodes.set qname entry }
    else if child.name = "group" then { indexes with groupNodes := indexes.groupNodes.set qname entry }
    else if child.name = "attributeGroup" then
      { indexes with attributeGroupNodes := indexes.attributeGroupNodes.set qname entry }
    else if child.name = "attribute" then
      { indexes with attributeNodes := indexes.attributeNodes.set qname entry }
    else indexes

def index (indexes : Indexes) (schema : XmlNode) : Except Fault Indexes := do
  assertSupported 129 schema
  return schema.children.foldl (indexChild (sourceOf schema)) indexes

/-- `occurs` (`shared/xsd.ts:594-600`). -/
def occurs (node : XmlNode) (bound : String) (fallback : Int) : Int :=
  match attribute? node bound with
  | none => fallback
  | some raw =>
    if raw = "unbounded" then -1
    else
      match JsNumber.toNumber raw.toList with
      | some (.finite value) => if value.den = 1 ∧ 0 ≤ value then value.num else fallback
      | _ => fallback

structure Calls where
  globalElement : String → M Unit
  namedType : String → M String
  inlineType : XmlNode → SchemaSource → String → M String

section
variable (indexes : Indexes) (calls : Calls)

def typeRefOf (node : XmlNode) (source : SchemaSource) (place : String) : M String :=
  match given? node "type" with
  | some declared =>
    let qname := node.resolveQName declared
    if (builtinName qname).isSome then pure qname
    else do
      let _ ← calls.namedType qname
      pure qname
  | none =>
    match firstNamed? node "complexType" with
    | some inner => calls.inlineType inner source place
    | none =>
      match firstNamed? node "simpleType" with
      | some inner => calls.inlineType inner source place
      | none => pure ANY_TYPE

def elementDecl (node : XmlNode) (source : SchemaSource) (qname : String) : M XsdElementDecl := do
  let typeRef ← typeRefOf calls node source ("element " ++ qname)
  pure ⟨qname, typeRef, decide (attribute? node "nillable" = some "true"), attribute? node "fixed"⟩

def formQName (node : XmlNode) (source : SchemaSource) (byDefault : Bool) (name : String) : String :=
  let qualified := match given? node "form" with
    | some form => decide (form = "qualified")
    | none => byDefault
  qnameOf (if qualified then source.targetNamespace else "") name

def localElementQName (node : XmlNode) (source : SchemaSource) : M String :=
  match given? node "name" with
  | none => fail "element" "particle"
  | some name => pure (formQName node source source.elementFormQualified name)

/-! ### Simple types -/

def push (array : Option Nat) (value : String) : M Nat := fun s =>
  match array with
  | some a => .ok (a, { s with arrays := s.arrays.modify a (· ++ [value]) })
  | none => .ok (s.arrays.length, { s with arrays := s.arrays ++ [[value]] })

def facetOf (name : String) : Option Facet :=
  [("length", Facet.length), ("minLength", .minLength), ("maxLength", .maxLength),
    ("minInclusive", .minInclusive), ("maxInclusive", .maxInclusive), ("minExclusive", .minExclusive),
    ("maxExclusive", .maxExclusive), ("totalDigits", .totalDigits), ("fractionDigits", .fractionDigits),
    ("whiteSpace", .whiteSpace)].lookup name

def addFacet (place : String) (facets : Facets Nat) (facet : XmlNode) : M (Facets Nat) :=
  if facet.ns ≠ XSD_NS then pure facets
  else
    match attribute? facet "value" with
    | none => pure facets
    | some value =>
      if facet.name = "enumeration" then do
        let array ← push facets.enumeration value
        pure { facets with enumeration := some array }
      else if facet.name = "pattern" then
        match xsdPatternToJs value.toList place with
        | .error refusal => throw (.unsupported refusal)
        | .ok source => do
          let array ← push facets.patterns (String.ofList source)
          pure { facets with patterns := some array }
      else
        match facetOf facet.name with
        | some one => pure { facets with values := facets.values.insert one value }
        | none => pure facets

def inherited (ref : String) : M (String × Facets Nat) := do
  match (← get).types.lookup ref with
  | some (.simple base) => pure (base.builtin, base.facets)
  | _ => pure ("string", {})

def baseOf (restriction : XmlNode) (source : SchemaSource) (place : String) :
    M (String × Facets Nat) :=
  match given? restriction "base" with
  | some base =>
    let qname := restriction.resolveQName base
    match builtinName qname with
    | some builtin => pure (builtin, {})
    | none => do
      let ref ← calls.namedType qname
      inherited ref
  | none =>
    match firstNamed? restriction "simpleType" with
    | some inner => do
      let ref ← calls.inlineType inner source (place ++ "/restriction")
      inherited ref
    | none => pure ("string", {})

def words (text : List Char) : List (List Char) :=
  (text.splitOnP Routing.isSpace).filter fun word => word ≠ []

def simpleType (node : XmlNode) (source : SchemaSource) (place : String) : M (XsdSimpleType Nat) :=
  match firstNamed? node "list" with
  | some list => do
    let itemRef ← match given? list "itemType" with
      | some itemType => calls.namedType (list.resolveQName itemType)
      | none =>
        match firstNamed? list "simpleType" with
        | some inner => calls.inlineType inner source (place ++ "/list")
        | none => throw .noItemType
    pure { builtin := "string", variety := .list, itemRef := some itemRef }
  | none =>
    match firstNamed? node "union" with
    | some union => do
      let named ← (words ((attribute? union "memberTypes").getD "").toList).mapM fun raw =>
        calls.namedType (union.resolveQName (String.ofList raw))
      let inline ← (union.childrenNamed XSD_NS "simpleType").mapM fun child =>
        calls.inlineType child source (place ++ "/union")
      pure { builtin := "string", variety := .union, memberRefs := named ++ inline }
    | none =>
      match firstNamed? node "restriction" with
      | none => fail "simpleType" place
      | some restriction => do
        let (builtin, facets) ← baseOf calls restriction source place
        let facets ← restriction.children.foldlM (addFacet place) facets
        pure { builtin := builtin, variety := .atomic, facets := facets }

/-! ### Complex types -/

def collectAttributes (place : String) :
    Nat → XmlNode → SchemaSource → XsdComplexType → M XsdComplexType
  | 0, _, _, _ => fail "attributeGroup" place
  | depth + 1, holder, source, into =>
    holder.children.foldlM (fun (out : XsdComplexType) (child : XmlNode) =>
      if child.ns ≠ XSD_NS then pure out
      else if child.name = "anyAttribute" then pure { out with anyAttribute := true }
      else if child.name = "attributeGroup" then
        match given? child "ref" with
        | none => pure out
        | some ref =>
          match indexes.attributeGroupNodes.lookup (child.resolveQName ref) with
          | none => fail "attributeGroup" place
          | some entry => collectAttributes place depth entry.node entry.source out
      else if child.name ≠ "attribute" then pure out
      else
        let use := (attribute? child "use").getD "optional"
        match given? child "ref" with
        | some ref =>
          let qname := child.resolveQName ref
          match indexes.attributeNodes.lookup qname with
          | none => fail "attribute" place
          | some entry => do
            let typeRef ← typeRefOf calls entry.node entry.source ("attribute " ++ qname)
            pure { out with
              attributes := out.attributes ++ [⟨qname, typeRef, use, attribute? child "fixed"⟩] }
        | none =>
          match given? child "name" with
          | none => pure out
          | some name => do
            let typeRef ← typeRefOf calls child source ("attribute " ++ name)
            pure { out with
              attributes := out.attributes ++
                [⟨formQName child source source.attributeFormQualified name, typeRef, use,
                  attribute? child "fixed"⟩] }) into

def groupKindOf (name : String) : Option GroupKind :=
  [("sequence", GroupKind.sequence), ("choice", .choice), ("all", .all)].lookup name

def occurring (node : XmlNode) (particle : XsdParticle) : XsdParticle :=
  particle.occurring (occurs node "minOccurs" 1) (occurs node "maxOccurs" 1)

mutual
def particleOf (place : String) : Nat → XmlNode → SchemaSource → Nat → M (Option XsdParticle)
  | 0, _, _, _ => throw .outOfFuel
  | fuel + 1, holder, source, depth =>
    if 32 < depth then fail "group" place
    else
      let first := holder.children.find? fun child => child.ns = XSD_NS ∧
        ((groupKindOf child.name).isSome ∨ child.name = "group" ∧ (given? child "ref").isSome)
      match first with
      | none => pure none
      | some child =>
        match groupKindOf child.name with
        | some kind => some <$> modelGroup place fuel kind child source depth
        | none =>
          match indexes.groupNodes.lookup (child.resolveQName ((given? child "ref").getD "")) with
          | none => fail "group" place
          | some entry => do
            let inner ← particleOf place fuel entry.node entry.source (depth + 1)
            pure (inner.map (occurring child))

def modelGroup (place : String) :
    Nat → GroupKind → XmlNode → SchemaSource → Nat → M XsdParticle
  | 0, _, _, _, _ => throw .outOfFuel
  | fuel + 1, kind, node, source, depth => do
    let items ← node.children.foldlM (fun (items : List XsdParticle) (child : XmlNode) =>
      if child.ns ≠ XSD_NS then pure items
      else if child.name = "element" then
        match given? child "ref" with
        | some ref => do
          let qname := child.resolveQName ref
          calls.globalElement qname
          pure (items ++ [occurring child (.element 1 1 (.global qname))])
        | none => do
          let qname ← localElementQName child source
          let decl ← elementDecl calls child source qname
          pure (items ++ [occurring child (.element 1 1 (.own decl))])
      else
        match groupKindOf child.name with
        | some inner => do
          let item ← modelGroup place fuel inner child source (depth + 1)
          pure (items ++ [item])
        | none =>
          if child.name = "group" then
            match given? child "ref" with
            | none => pure items
            | some ref =>
              match indexes.groupNodes.lookup (child.resolveQName ref) with
              | none => fail "group" place
              | some entry => do
                let inner ← particleOf place fuel entry.node entry.source (depth + 1)
                pure (items ++ (inner.map (occurring child)).toList)
          else if child.name = "any" then pure (items ++ [occurring child (.any 1 1)])
          else pure items) []
    pure (occurring node (.group kind 1 1 items))
end

def extended (base own : Option XsdParticle) : Option XsdParticle :=
  match base, own with
  | some base, some own => some (.group .sequence 1 1 [base, own])
  | base, own => own.or base

def complexType (fuel : Nat) (node : XmlNode) (source : SchemaSource) (place : String) :
    M XsdComplexType :=
  let out : XsdComplexType := { mixed := decide (attribute? node "mixed" = some "true") }
  match firstNamed? node "simpleContent" with
  | some content =>
    match (firstNamed? content "extension").or (firstNamed? content "restriction") with
    | none => fail "simpleContent" place
    | some derivation => do
      let base := derivation.resolveQName ((attribute? derivation "base").getD "xs:string")
      let textTypeRef ← if (builtinName base).isSome then pure base else calls.namedType base
      collectAttributes indexes calls place 17 derivation source
        { out with textTypeRef := some textTypeRef }
  | none =>
    match firstNamed? node "complexContent" with
    | some content =>
      match (firstNamed? content "extension").or (firstNamed? content "restriction") with
      | none => fail "complexContent" place
      | some derivation => do
        let base := derivation.resolveQName ((attribute? derivation "base").getD "")
        let own ← particleOf indexes calls place fuel derivation source 0
        if (firstNamed? content "extension").isSome ∧ (builtinName base).isNone then do
          let ref ← calls.namedType base
          match (← get).types.lookup ref with
          | some (.complex base) =>
            collectAttributes indexes calls place 17 derivation source
              { out with
                attributes := base.attributes
                anyAttribute := base.anyAttribute
                mixed := out.mixed || base.mixed
                particle := extended base.particle own }
          | _ => collectAttributes indexes calls place 17 derivation source { out with particle := own }
        else collectAttributes indexes calls place 17 derivation source { out with particle := own }
    | none => do
      let own ← particleOf indexes calls place fuel node source 0
      collectAttributes indexes calls place 17 node source { out with particle := own }

/-! ### Declarations -/

def compileType (fuel : Nat) (node : XmlNode) (source : SchemaSource) (place : String) :
    M (XsdType Nat) :=
  if node.name = "simpleType" then XsdType.simple <$> simpleType calls node source place
  else XsdType.complex <$> complexType indexes calls fuel node source place

def globalElement (qname : String) : M Unit := do
  if ((← get).elements.lookup qname).isSome then pure ()
  else
    match indexes.globalElementNodes.lookup qname with
    | none => fail "element" qname
    | some entry => do
      -- Registered before its type is compiled, so a self-referential element terminates.
      modify fun s => { s with elements := s.elements.insert qname ⟨qname, ANY_TYPE, false, none⟩ }
      let decl ← elementDecl calls entry.node entry.source qname
      modify fun s => { s with elements := s.elements.insert qname decl }

def namedType (fuel : Nat) (qname : String) : M String := do
  if ((← get).types.lookup qname).isSome then pure qname
  else if (builtinName qname).isSome then pure qname
  else
    match indexes.namedTypeNodes.lookup qname with
    | none => fail "type" qname
    | some entry =>
      if qname ∈ (← get).inProgress then pure qname
      else do
        modify fun s => { s with inProgress := qname :: s.inProgress }
        let type ← compileType indexes calls fuel entry.node entry.source qname
        modify fun s => { s with
          types := s.types.insert qname type, inProgress := s.inProgress.erase qname }
        pure qname

def inlineRef (n : Nat) : String := "#" ++ toString n

def inlineType (fuel : Nat) (node : XmlNode) (source : SchemaSource) (place : String) : M String := do
  let ref := inlineRef ((← get).inlined.length + 1)
  modify fun s => { s with inlined := s.inlined ++ [node] }
  let type ← compileType indexes calls fuel node source place
  modify fun s => { s with types := s.types.insert ref type }
  pure ref

end

def compiler (indexes : Indexes) : Nat → Calls
  | 0 => ⟨fun _ => throw .outOfFuel, fun _ => throw .outOfFuel, fun _ _ _ => throw .outOfFuel⟩
  | fuel + 1 => ⟨globalElement indexes (compiler indexes fuel), namedType indexes (compiler indexes fuel) fuel,
      inlineType indexes (compiler indexes fuel) fuel⟩

inductive Request where
  | element (qname : String)
  | type (qname : String)
  deriving DecidableEq, Repr

def Request.run (indexes : Indexes) (fuel : Nat) : Request → M Unit
  | .element qname => (compiler indexes fuel).globalElement qname
  | .type qname => (compiler indexes fuel).namedType qname *> pure ()

def requestsOf (indexes : Indexes) : List Request :=
  indexes.globalElementNodes.map (fun entry => .element entry.1) ++
    indexes.namedTypeNodes.map fun entry => .type entry.1

def compileAll (indexes : Indexes) (fuel : Nat) (requests : List Request) : M Unit :=
  requests.forM (Request.run indexes fuel)

def compileXsdSet (schemaNodes : List XmlNode) (fuel : Nat) : Except Fault State := do
  let indexes ← schemaNodes.foldlM index {}
  let (_, s) ← compileAll indexes fuel (requestsOf indexes) {}
  return s

end Apim.Xsd
