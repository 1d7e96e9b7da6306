import Apim.Lib.Guard
import Apim.Shared.XsdRegistered

/-!
# Simple types derived from others

What a schema set compiles a simple type to does not depend on what else there is, and later types leave
it as it is; and a restriction of an atomic type accepts what its base accepts, where it gives no facet
again that admits more (`simple_type_derivation`). A type that adds values or patterns to a base that has
some adds them to the base as well (`base_changed`), and the patterns of all steps are alternatives.
-/

namespace Apim.Xsd
open Overlay (Dict)
open Xml (XmlNode Text qnameOf)
open Stateful (Carries)

/-! ### The nodes of a schema set -/

inductive Part (schemas : List XmlNode) : XmlNode → Prop
  | schema (node : XmlNode) (h : node ∈ schemas) : Part schemas node
  | child (node child : XmlNode) (h : Part schemas node) (hchild : child ∈ node.children) :
      Part schemas child

def Within (part : XmlNode → Prop) (entries : Declarations) : Prop :=
  ∀ entry ∈ entries, part entry.2.node

theorem within_nil (part : XmlNode → Prop) : Within part [] := fun _ h => absurd h List.not_mem_nil

variable {part : XmlNode → Prop}

theorem Within.set {entries : Declarations} (h : Within part entries) (key : String)
    {value : Declared} (hvalue : part value.node) : Within part (entries.set key value) := by
  induction entries with
  | nil =>
    intro entry hentry
    rw [Declarations.set, List.mem_singleton] at hentry
    rw [hentry]
    exact hvalue
  | cons first rest ih =>
    intro entry hentry
    rw [Declarations.set] at hentry
    split at hentry
    · rcases List.mem_cons.mp hentry with rfl | hrest
      · exact hvalue
      · exact h entry (List.mem_cons_of_mem _ hrest)
    · rcases List.mem_cons.mp hentry with rfl | hrest
      · exact h _ List.mem_cons_self
      · exact ih (fun other hother => h other (List.mem_cons_of_mem _ hother)) entry hrest

structure AllWithin (part : XmlNode → Prop) (indexes : Indexes) : Prop where
  globalElementNodes : Within part indexes.globalElementNodes
  namedTypeNodes : Within part indexes.namedTypeNodes
  groupNodes : Within part indexes.groupNodes
  attributeGroupNodes : Within part indexes.attributeGroupNodes
  attributeNodes : Within part indexes.attributeNodes

theorem indexChild_within {indexes : Indexes} (h : AllWithin part indexes) (source : SchemaSource)
    {child : XmlNode} (hchild : part child) : AllWithin part (indexChild source indexes child) := by
  unfold indexChild
  split
  · exact h
  dsimp only
  split
  · exact h
  split
  · exact ⟨h.globalElementNodes.set _ hchild, h.2, h.3, h.4, h.5⟩
  split
  · exact ⟨h.1, h.namedTypeNodes.set _ hchild, h.3, h.4, h.5⟩
  split
  · exact ⟨h.1, h.2, h.groupNodes.set _ hchild, h.4, h.5⟩
  split
  · exact ⟨h.1, h.2, h.3, h.attributeGroupNodes.set _ hchild, h.5⟩
  split
  · exact ⟨h.1, h.2, h.3, h.4, h.attributeNodes.set _ hchild⟩
  · exact h

theorem index_within {schemas : List XmlNode} {indexes indexes' : Indexes}
    (hschemas : ∀ schema ∈ schemas, ∀ child ∈ schema.children, part child)
    (h : AllWithin part indexes) (hindex : schemas.foldlM index indexes = .ok indexes') :
    AllWithin part indexes' := by
  induction schemas generalizing indexes with
  | nil =>
    cases hindex
    exact h
  | cons schema rest ih =>
    rw [List.foldlM_cons] at hindex
    obtain ⟨next, hnext, hrest⟩ := Guard.bind_eq_ok.mp hindex
    refine ih (fun other hother => hschemas other (List.mem_cons_of_mem _ hother)) ?_ hrest
    obtain ⟨-, -, hpure⟩ := Guard.bind_eq_ok.mp hnext
    rw [← Guard.pure_eq_ok.mp hpure]
    have hfold : ∀ children : List XmlNode, (∀ child ∈ children, part child) → ∀ {indexes : Indexes},
        AllWithin part indexes → AllWithin part (children.foldl (indexChild (sourceOf schema)) indexes) := by
      intro children
      induction children with
      | nil => exact fun _ _ hindexes => hindexes
      | cons child others ihFold =>
        intro hchildren indexes hindexes
        exact ihFold (fun other hother => hchildren other (List.mem_cons_of_mem _ hother))
          (indexChild_within hindexes _ (hchildren child List.mem_cons_self))
    exact hfold _ (hschemas schema List.mem_cons_self) h

theorem mem_of_lookup {entries : Declarations} {qname : String} {entry : Declared}
    (h : entries.lookup qname = some entry) : (qname, entry) ∈ entries := by
  induction entries with
  | nil => cases h
  | cons first rest ih =>
    obtain ⟨key, value⟩ := first
    rw [List.lookup_cons] at h
    split at h
    · next hkey =>
      rw [beq_iff_eq] at hkey
      cases h
      rw [hkey]
      exact List.mem_cons_self
    · exact List.mem_cons_of_mem _ (ih h)

theorem parts_of_index {schemas : List XmlNode} {indexes : Indexes}
    (h : schemas.foldlM index {} = .ok indexes) : Parts indexes (Part schemas) := by
  have hwithin : AllWithin (Part schemas) indexes :=
    index_within (fun schema hschema child hchild => .child _ _ (.schema _ hschema) hchild)
      ⟨within_nil _, within_nil _, within_nil _, within_nil _, within_nil _⟩ h
  refine ⟨fun node hnode child hchild => .child _ _ hnode hchild, fun entries hentries qname entry hentry => ?_⟩
  have hmem := mem_of_lookup hentry
  simp only [List.mem_cons, List.not_mem_nil, or_false] at hentries
  rcases hentries with rfl | rfl | rfl | rfl | rfl
  · exact hwithin.globalElementNodes _ hmem
  · exact hwithin.namedTypeNodes _ hmem
  · exact hwithin.groupNodes _ hmem
  · exact hwithin.attributeGroupNodes _ hmem
  · exact hwithin.attributeNodes _ hmem

/-! ### Meanings -/

variable {node : XmlNode}

section
variable {indexes indexes' : Indexes}

theorem begins_mono (hmore : ∀ qname entry, indexes.namedTypeNodes.lookup qname = some entry →
      indexes'.namedTypeNodes.lookup qname = some entry) {told told' : XmlNode → Option Form}
    (htold : ∀ node form, told node = some form → told' node = some form) {restriction : XmlNode}
    {start : String × Facets (List String)} (h : begins indexes told restriction = some start) :
    begins indexes' told' restriction = some start := by
  rw [begins] at h ⊢
  cases hbase : given? restriction "base" with
  | some base =>
    rw [hbase] at h
    dsimp only at h ⊢
    cases hbuiltin : builtinName (restriction.resolveQName base) with
    | some builtin =>
      rw [hbuiltin] at h
      exact h
    | none =>
      rw [hbuiltin] at h
      obtain ⟨entry, hentry, hrest⟩ := Option.bind_eq_some_iff.mp h
      obtain ⟨form, hform, hpure⟩ := Option.bind_eq_some_iff.mp hrest
      refine Option.bind_eq_some_iff.mpr ⟨entry, hmore _ _ hentry, ?_⟩
      exact Option.bind_eq_some_iff.mpr ⟨form, htold _ _ hform, hpure⟩
  | none =>
    rw [hbase] at h
    dsimp only at h ⊢
    cases hinner : firstNamed? restriction "simpleType" with
    | none =>
      rw [hinner] at h
      exact h
    | some inner =>
      rw [hinner] at h
      obtain ⟨form, hform, hpure⟩ := Option.map_eq_some_iff.mp h
      exact Option.map_eq_some_iff.mpr ⟨form, htold _ _ hform, hpure⟩

theorem meaning_mono (hmore : ∀ qname entry, indexes.namedTypeNodes.lookup qname = some entry →
      indexes'.namedTypeNodes.lookup qname = some entry) {depth depth' : Nat} (hle : depth ≤ depth') :
    ∀ node form, meaning indexes depth node = some form → meaning indexes' depth' node = some form := by
  induction depth generalizing depth' with
  | zero => exact fun _ _ h => nomatch h
  | succ depth ih =>
    intro node form h
    obtain ⟨more, rfl⟩ : ∃ more, depth' = more + 1 := ⟨depth' - 1, by omega⟩
    rw [meaning] at h ⊢
    split
    · next hlist =>
      rw [if_pos hlist] at h
      exact h
    next hlist =>
    rw [if_neg hlist] at h
    split
    · next hunion =>
      rw [if_pos hunion] at h
      exact h
    next hunion =>
    rw [if_neg hunion] at h
    obtain ⟨restriction, hrestriction, hrest⟩ := Option.bind_eq_some_iff.mp h
    obtain ⟨start, hstart, hrest⟩ := Option.bind_eq_some_iff.mp hrest
    refine Option.bind_eq_some_iff.mpr ⟨restriction, hrestriction, ?_⟩
    exact Option.bind_eq_some_iff.mpr ⟨start, begins_mono hmore (ih (by omega)) hstart, hrest⟩

theorem meaning_unique (hmore : ∀ qname entry, indexes.namedTypeNodes.lookup qname = some entry →
      indexes'.namedTypeNodes.lookup qname = some entry) {depth depth' : Nat}
    {form form' : Form} (h : meaning indexes depth node = some form)
    (h' : meaning indexes' depth' node = some form') : form = form' := by
  have hleft := meaning_mono hmore (Nat.le_max_left depth depth') node form h
  have hright := meaning_mono (fun _ _ h => h) (Nat.le_max_right depth depth') node form' h'
  exact Option.some.inj (hleft.symm.trans hright)

end

/-! ### Restrictions -/

def Gives (children : List XmlNode) (facet : Facet) (value : String) : Prop :=
  ∃ child ∈ children, child.ns = XSD_NS ∧ facetOf child.name = some facet ∧
    attribute? child "value" = some value

structure Restricted (children : List XmlNode) (facets facets' : Facets (List String)) : Prop where
  enumeration : ¬hasFacet "enumeration" children → facets'.enumeration = facets.enumeration
  patterns : ¬hasFacet "pattern" children → facets'.patterns = facets.patterns
  values : ∀ facet, facets'.values.lookup facet = facets.values.lookup facet ∨
    ∃ value, facets'.values.lookup facet = some value ∧ Gives children facet value

theorem withFacet_restricted {facet : XmlNode} {facets facets' : Facets (List String)}
    (h : withFacet facets facet = some facets') : Restricted [facet] facets facets' := by
  have hsame : Restricted [facet] facets facets := ⟨fun _ => rfl, fun _ => rfl, fun _ => Or.inl rfl⟩
  rw [withFacet] at h
  split at h
  · cases h
    exact hsame
  next hns =>
  cases hvalue : attribute? facet "value" with
  | none =>
    rw [hvalue] at h
    cases h
    exact hsame
  | some value =>
    rw [hvalue] at h
    dsimp only at h
    have hhas : ∀ {name : String}, facet.name = name → hasFacet name [facet] := fun hname =>
      ⟨facet, List.mem_singleton_self _, not_not.mp hns, hname, by rw [hvalue]; rfl⟩
    split at h
    · next hname =>
      cases h
      exact ⟨fun hno => absurd (hhas hname) hno, fun _ => rfl, fun _ => Or.inl rfl⟩
    split at h
    · next hname =>
      split at h
      · cases h
      · cases h
        exact ⟨fun _ => rfl, fun hno => absurd (hhas hname) hno, fun _ => Or.inl rfl⟩
    cases hfacet : facetOf facet.name with
    | none =>
      rw [hfacet] at h
      cases h
      exact hsame
    | some one =>
      rw [hfacet] at h
      cases h
      refine ⟨fun _ => rfl, fun _ => rfl, fun other => ?_⟩
      by_cases hone : other = one
      · subst hone
        refine Or.inr ⟨value, AList.lookup_insert _, facet, List.mem_singleton_self _, not_not.mp hns, ?_⟩
        exact ⟨hfacet, hvalue⟩
      · exact Or.inl (AList.lookup_insert_ne hone)

theorem gives_cons {facet : XmlNode} {rest : List XmlNode} {one : Facet} {value : String} :
    Gives [facet] one value ∨ Gives rest one value → Gives (facet :: rest) one value := by
  rintro (⟨child, hmem, h⟩ | ⟨child, hmem, h⟩)
  · exact ⟨child, List.mem_cons.mpr (Or.inl (List.mem_singleton.mp hmem)), h⟩
  · exact ⟨child, List.mem_cons_of_mem _ hmem, h⟩

theorem foldlM_restricted {children : List XmlNode} {facets facets' : Facets (List String)}
    (h : children.foldlM withFacet facets = some facets') : Restricted children facets facets' := by
  induction children generalizing facets with
  | nil =>
    cases h
    exact ⟨fun _ => rfl, fun _ => rfl, fun _ => Or.inl rfl⟩
  | cons facet rest ih =>
    rw [List.foldlM_cons] at h
    obtain ⟨mid, hfacet, hrest⟩ := Option.bind_eq_some_iff.mp h
    have hfirst := withFacet_restricted hfacet
    have hthen := ih hrest
    refine ⟨fun hno => ?_, fun hno => ?_, fun one => ?_⟩
    · rw [hthen.enumeration fun hhas => hno (hasFacet_cons.mpr (Or.inr hhas)),
        hfirst.enumeration fun hhas => hno (hasFacet_cons.mpr (Or.inl hhas))]
    · rw [hthen.patterns fun hhas => hno (hasFacet_cons.mpr (Or.inr hhas)),
        hfirst.patterns fun hhas => hno (hasFacet_cons.mpr (Or.inl hhas))]
    · rcases hthen.values one with hkept | ⟨value, hlookup, hgives⟩
      · rcases hfirst.values one with hfirst | ⟨value, hlookup, hgives⟩
        · exact Or.inl (hkept.trans hfirst)
        · exact Or.inr ⟨value, hkept.trans hlookup, gives_cons (Or.inl hgives)⟩
      · exact Or.inr ⟨value, hlookup, gives_cons (Or.inr hgives)⟩

/-- A restriction gives no facet of its base again that admits more, and does the same with blanks. -/
structure Tightens (base : XsdSimpleType (List String)) (restriction : XmlNode) : Prop where
  facets : ∀ facet value, Gives restriction.children facet value →
    ∀ old ∈ base.facets.values.lookup facet, ∀ text,
      facet.refuses base.builtin old text = true → facet.refuses base.builtin value text = true
  blanks : ∀ value, Gives restriction.children .whiteSpace value →
    whiteSpaceOf (some value) base.builtin =
      whiteSpaceOf (base.facets.values.lookup .whiteSpace) base.builtin

section
variable {matched : String → Text → Bool} {types types' : Dict String (XsdType (List String))}

theorem accepts_of_restricted {derived base : XsdSimpleType (List String)} {restriction : XmlNode}
    (hatomic : derived.variety = .atomic) (hbase : base.variety = .atomic)
    (hbuiltin : derived.builtin = base.builtin)
    (hrestricted : Restricted restriction.children base.facets derived.facets)
    (hvalues : hasFacet "enumeration" restriction.children → base.facets.enumeration = none)
    (hpatterns : hasFacet "pattern" restriction.children → base.facets.patterns = none)
    (htightens : Tightens base restriction) {text : Text}
    (h : Accepts matched types derived text) : Accepts matched types' base text := by
  have hspace : normalizeWhitespace text derived = normalizeWhitespace text base := by
    rw [normalizeWhitespace, normalizeWhitespace, hbuiltin]
    rcases hrestricted.values .whiteSpace with hsame | ⟨value, hlookup, hgives⟩
    · rw [hsame]
    · rw [hlookup, htightens.blanks value hgives]
  rw [accepts_atomic hatomic, hspace, hbuiltin] at h
  rw [accepts_atomic hbase]
  refine ⟨h.1, ?_⟩
  obtain ⟨-, hchecks⟩ := h
  simp only [facetChecks, List.forall_mem_cons] at hchecks ⊢
  obtain ⟨henumeration, hpattern, hone⟩ := hchecks
  refine ⟨?_, ?_, fun check hcheck => ?_⟩
  · by_cases hhas : hasFacet "enumeration" restriction.children
    · rw [hvalues hhas]
      rfl
    · rw [← hrestricted.enumeration hhas]
      exact henumeration
  · by_cases hhas : hasFacet "pattern" restriction.children
    · rw [hpatterns hhas]
      rfl
    · rw [← hrestricted.patterns hhas]
      exact hpattern
  · obtain ⟨entry, hentry, rfl⟩ := List.mem_map.mp hcheck
    have hderived := hone _ (List.mem_map_of_mem hentry)
    dsimp only at hderived ⊢
    rcases hrestricted.values entry.1 with hsame | ⟨value, hlookup, hgives⟩
    · rw [← hsame]
      exact hderived
    · cases hold : base.facets.values.lookup entry.1 with
      | none => rfl
      | some old =>
        rw [hlookup, Option.any_some] at hderived
        rw [Option.any_some, ← Bool.not_eq_true]
        intro hrefuses
        rw [htightens.facets _ _ hgives old hold _ hrefuses] at hderived
        cases hderived

end

/-! ### Runs -/

def XsdSimpleType.freeze (type : XsdSimpleType Nat) (arrays : List (List String)) :
    XsdSimpleType (List String) :=
  ⟨type.builtin, type.variety, type.facets.freeze arrays, type.itemRef, type.memberRefs⟩

def XsdType.freeze (arrays : List (List String)) : XsdType Nat → XsdType (List String)
  | .simple type => .simple (type.freeze arrays)
  | .complex type => .complex type

def State.bundle (s : State) : Dict String (XsdType (List String)) :=
  Overlay.mapValues (XsdType.freeze s.arrays) s.types

structure Compiled (schemas : List XmlNode) (indexes : Indexes) (s : State) : Prop where
  index : schemas.foldlM Xsd.index {} = .ok indexes
  run : ∃ fuel requests, compileAll indexes fuel requests {} = .ok ((), s)

def IsBase (s : State) (restriction : XmlNode) (ref : String) : Prop :=
  match given? restriction "base" with
  | some base => ref = restriction.resolveQName base
  | none => ∃ inner ∈ firstNamed? restriction "simpleType",
    ∃ n, ref = inlineRef (n + 1) ∧ s.inlined[n]? = some inner

theorem inv_empty (indexes : Indexes) : Inv indexes {} := by
  have hnone : ∀ {ref : String} {type : XsdType Nat},
      (∅ : Dict String (XsdType Nat)).lookup ref ≠ some type := by
    intro ref type h
    rw [AList.lookup_empty] at h
    cases h
  exact ⟨fun _ _ h => absurd h hnone, fun _ _ _ _ h => absurd h hnone, fun _ _ _ _ h => absurd h hnone⟩

section
variable {schemas schemas' : List XmlNode} {indexes indexes' : Indexes} {s s' : State}
  {rank rank' : String → Nat}

theorem Compiled.inv (h : Compiled schemas indexes s) (hproper : Proper indexes rank (Part schemas)) :
    Inv indexes s ∧ Idle indexes s.inProgress := by
  obtain ⟨fuel, requests, hrun⟩ := h.run
  have hcarries : Carries (contract indexes (Idle indexes)) (compileAll indexes fuel requests) :=
    .forM fun request _ => request_carries (parts_of_index h.index) hproper fuel request
  exact (hcarries _ _ _ ⟨inv_empty indexes, nofun⟩ hrun).1

theorem lookup_bundle (s : State) (ref : String) :
    s.bundle.lookup ref = (s.types.lookup ref).map (XsdType.freeze s.arrays) :=
  Overlay.lookup_mapValues _ _ _

theorem Compiled.frame (h : Compiled schemas indexes s) (hproper : Proper indexes rank (Part schemas))
    {fuel : Nat} {request : Request} (hrun : request.run indexes fuel s = .ok ((), s'))
    {ref : String} {type : XsdType (List String)} (htype : s.bundle.lookup ref = some type) :
    s'.bundle.lookup ref = some type := by
  have hinv := h.inv hproper
  obtain ⟨⟨hinv', -⟩, hlater⟩ :=
    request_carries (parts_of_index h.index) hproper fuel request _ _ _ hinv hrun
  rw [lookup_bundle, Option.map_eq_some_iff] at htype ⊢
  obtain ⟨before, hbefore, rfl⟩ := htype
  refine ⟨before, hlater.types _ _ hbefore, ?_⟩
  obtain ⟨node, hnode⟩ := hinv.1.known _ _ hbefore
  have hnode' := hnode.later hlater.inlined
  by_cases hname : node.name = "simpleType"
  · obtain ⟨st, depth, rfl, -, hmeaning⟩ := hinv.1.simple _ _ _ hnode hbefore hname
    obtain ⟨st', depth', hst, -, hmeaning'⟩ :=
      hinv'.simple _ _ _ hnode' (hlater.types _ _ hbefore) hname
    cases hst
    have hform := meaning_unique (fun _ _ h => h) hmeaning hmeaning'
    have hfacets : st.facets.freeze s.arrays = st.facets.freeze s'.arrays := congrArg Form.facets hform
    rw [XsdType.freeze, XsdType.freeze, XsdSimpleType.freeze, XsdSimpleType.freeze, hfacets]
  · obtain ⟨ct, rfl⟩ := hinv.1.complex _ _ _ hnode hbefore hname
    rfl

theorem Compiled.simple (h : Compiled schemas indexes s)
    (hproper : Proper indexes rank (Part schemas)) {ref : String} {type : XsdType (List String)}
    (hnode : NodeOf indexes s ref node) (hname : node.name = "simpleType")
    (htype : s.bundle.lookup ref = some type) :
    ∃ st depth, type = .simple st ∧
      meaning indexes depth node = some ⟨st.builtin, st.variety, st.facets⟩ := by
  rw [lookup_bundle, Option.map_eq_some_iff] at htype
  obtain ⟨before, hbefore, rfl⟩ := htype
  obtain ⟨st, depth, rfl, -, hmeaning⟩ := (h.inv hproper).1.simple _ _ _ hnode hbefore hname
  exact ⟨st.freeze s.arrays, depth, rfl, hmeaning⟩

theorem builtinName_inlineRef (n : Nat) : builtinName (inlineRef n) = none := by
  have hhash : (inlineRef n).toList = '#' :: (toString n).toList := by
    rw [inlineRef, String.toList_append]
    rfl
  have hbrace : (qnameOf XSD_NS "").toList = '\x7b' :: (XSD_NS ++ "\x7d").toList := by decide
  rw [builtinName, hhash, hbrace]
  rfl

theorem simpleTypeFor_eq_some {types : Dict String (XsdType (List String))} {ref : String}
    {type : XsdSimpleType (List String)} (hbuiltin : builtinName ref = none) :
    simpleTypeFor types ref = some type ↔ types.lookup ref = some (.simple type) := by
  rw [simpleTypeFor, hbuiltin]
  cases types.lookup ref with
  | none => exact ⟨nofun, nofun⟩
  | some found =>
    cases found with
    | simple st => exact ⟨fun h => by cases h; rfl, fun h => by cases h; rfl⟩
    | complex ct => exact ⟨nofun, nofun⟩

theorem Compiled.base (h : Compiled schemas indexes s)
    (hproper : Proper indexes rank (Part schemas)) {restriction : XmlNode}
    (hpart : Part schemas node) (hname : node.name = "simpleType")
    (hlist : firstNamed? node "list" = none) (hunion : firstNamed? node "union" = none)
    (hrestriction : firstNamed? node "restriction" = some restriction) {baseRef : String}
    {base : XsdSimpleType (List String)} (hbaseRef : IsBase s restriction baseRef)
    (hbase : simpleTypeFor s.bundle baseRef = some base) : ∃ depth,
      begins indexes (meaning indexes depth) restriction = some (base.builtin, base.facets) := by
  obtain ⟨bound, huses⟩ := hproper.uses node hpart hname
  have hinv := (h.inv hproper).1
  rw [IsBase] at hbaseRef
  cases hgiven : given? restriction "base" with
  | some qname =>
    rw [hgiven] at hbaseRef
    dsimp only at hbaseRef
    subst hbaseRef
    have hmem : restriction.resolveQName qname ∈ namedRefs node := by
      rw [namedRefs, hlist, hunion, hrestriction]
      dsimp only
      rw [hgiven]
      exact List.mem_singleton_self _
    cases hbuiltin : builtinName (restriction.resolveQName qname) with
    | some builtin =>
      rw [simpleTypeFor, hbuiltin] at hbase
      cases hbase
      refine ⟨0, ?_⟩
      rw [begins, hgiven]
      dsimp only
      rw [hbuiltin]
    | none =>
      obtain ⟨hnot, hbelow⟩ : (∀ n, restriction.resolveQName qname ≠ inlineRef n) ∧ _ :=
        (huses.named _ hmem).resolve_left (by rw [hbuiltin]; exact Bool.false_ne_true)
      rw [simpleTypeFor_eq_some hbuiltin] at hbase
      obtain ⟨before, hbefore, -⟩ := Option.map_eq_some_iff.mp ((lookup_bundle s _).symm.trans hbase)
      obtain ⟨other, ⟨entry, hentry, -⟩ | ⟨n, href, -⟩⟩ := hinv.known _ _ hbefore
      · obtain ⟨st, depth, hst, hmeaning⟩ := h.simple hproper (Or.inl ⟨entry, hentry, rfl⟩)
          (hbelow entry hentry).1 hbase
        cases hst
        refine ⟨depth, ?_⟩
        rw [begins, hgiven]
        dsimp only
        rw [hbuiltin, hentry]
        exact Option.bind_eq_some_iff.mpr ⟨entry, rfl, Option.bind_eq_some_iff.mpr ⟨_, hmeaning, rfl⟩⟩
      · exact absurd href (hnot _)
  | none =>
    rw [hgiven] at hbaseRef
    obtain ⟨inner, hinner, n, rfl, hn⟩ := hbaseRef
    have hmem : inner ∈ inlineRefs node := by
      rw [inlineRefs, hlist, hunion, hrestriction]
      dsimp only
      rw [if_pos hgiven, hinner]
      exact List.mem_singleton_self _
    rw [simpleTypeFor_eq_some (builtinName_inlineRef _)] at hbase
    obtain ⟨st, depth, hst, hmeaning⟩ :=
      h.simple hproper (Or.inr ⟨n, rfl, hn⟩) (huses.inline _ hmem).name hbase
    cases hst
    refine ⟨depth, ?_⟩
    rw [begins, hgiven]
    dsimp only
    rw [hinner]
    exact Option.map_eq_some_iff.mpr ⟨_, hmeaning, rfl⟩

end

/-! ### Two schema sets -/

def xs (name : String) (attributes : List (String × String)) (children : List XmlNode) : XmlNode :=
  .mk ⟨1, "xs:" ++ name, name, XSD_NS, attributes.map (fun a => ⟨"", a.1, "", a.2⟩), [], false, 1⟩
    [[("xs", XSD_NS)]] children []

def restricting (name base : String) (facets : List XmlNode) : XmlNode :=
  xs "simpleType" [("name", name)] [xs "restriction" [("base", base)] facets]

def indexesOf (schemas : List XmlNode) : Indexes := (schemas.foldlM index {}).toOption.getD {}

theorem compileAll_two {indexes : Indexes} {fuel : Nat} {first second : Request} {s mid s' : State}
    (h : first.run indexes fuel s = .ok ((), mid)) (hthen : second.run indexes fuel mid = .ok ((), s')) :
    compileAll indexes fuel [first, second] s = .ok ((), s') :=
  Stateful.bind_eq_ok.mpr ⟨(), mid, h, Stateful.bind_eq_ok.mpr ⟨(), s', hthen, rfl⟩⟩

def sized : List XmlNode :=
  [xs "schema" [] [restricting "Code" "xs:string" [xs "maxLength" [("value", "5")] []],
    restricting "Short" "Code" [xs "maxLength" [("value", "3")] []]]]

def stringType {α : Type} (facets : Facets α) : XsdSimpleType α :=
  { builtin := "string", variety := .atomic, facets := facets }

def ofLength {α : Type} (bound : String) : XsdSimpleType α :=
  stringType { values := (∅ : Dict Facet String).insert .maxLength bound }

def codeState : State := { types := (∅ : Dict String (XsdType Nat)).insert "Code" (.simple (ofLength "5")) }

def shortState : State := { types := codeState.types.insert "Short" (.simple (ofLength "3")) }

theorem sized_compiled : Compiled sized (indexesOf sized) shortState :=
  ⟨rfl, 4, [.type "Code", .type "Short"], @compileAll_two _ _ _ _ _ codeState _ rfl rfl⟩

def codeNode : XmlNode := restricting "Code" "xs:string" [xs "maxLength" [("value", "5")] []]
def shortNode : XmlNode := restricting "Short" "Code" [xs "maxLength" [("value", "3")] []]

example : namedRefs codeNode = ["\x7bhttp://www.w3.org/2001/XMLSchema\x7dstring"] ∧
    namedRefs shortNode = ["Code"] := by decide +kernel

theorem ne_inlineRef {qname : String} (h : qname.toList.head? ≠ some '#') (n : Nat) : qname ≠ inlineRef n := by
  rintro rfl
  exact h (by rw [inlineRef, String.toList_append]; rfl)

theorem sized_part (h : Part sized node) (hname : node.name = "simpleType") :
    node = codeNode ∨ node = shortNode := by
  have hall : ∀ {node : XmlNode}, Part sized node → node ∈ sized ∨ node = codeNode ∨ node = shortNode ∨
      node.name ≠ "simpleType" ∧ ∀ child ∈ node.children, child.name ≠ "simpleType" ∧ child.children = [] := by
    intro node hnode
    induction hnode with
    | schema node hmem => exact Or.inl hmem
    | child node child _ hchild ih =>
      rcases ih with hmem | rfl | rfl | ⟨-, hleaf⟩
      · rw [List.mem_singleton.mp hmem] at hchild
        rcases List.mem_cons.mp hchild with rfl | hchild
        · exact Or.inr (Or.inl rfl)
        · exact Or.inr (Or.inr (Or.inl (List.mem_singleton.mp hchild)))
      · rw [List.mem_singleton.mp hchild]
        refine Or.inr (Or.inr (Or.inr ⟨by decide, fun child hmem => ?_⟩))
        rw [List.mem_singleton.mp hmem]
        exact ⟨by decide, rfl⟩
      · rw [List.mem_singleton.mp hchild]
        refine Or.inr (Or.inr (Or.inr ⟨by decide, fun child hmem => ?_⟩))
        rw [List.mem_singleton.mp hmem]
        exact ⟨by decide, rfl⟩
      · obtain ⟨hother, hnil⟩ := hleaf child hchild
        refine Or.inr (Or.inr (Or.inr ⟨hother, fun leaf hmem => ?_⟩))
        rw [hnil] at hmem
        exact absurd hmem List.not_mem_nil
  rcases hall h with hmem | hcode | hshort | ⟨hother, -⟩
  · rw [List.mem_singleton.mp hmem] at hname
    exact absurd hname (by decide)
  · exact Or.inl hcode
  · exact Or.inr hshort
  · exact absurd hname hother

def sizedRank (qname : String) : Nat := if qname = "Short" then 1 else 0

theorem sized_proper : Proper (indexesOf sized) sizedRank (Part sized) := by
  have hcode : ∀ bound, Uses (indexesOf sized) sizedRank bound codeNode := by
    refine fun bound => .intro _ (by decide) (fun qname hqname => Or.inl ?_) fun inner hinner => ?_
    · rw [show namedRefs codeNode = ["\x7bhttp://www.w3.org/2001/XMLSchema\x7dstring"] by decide +kernel,
        List.mem_singleton] at hqname
      rw [hqname]
      decide +kernel
    · exact absurd hinner List.not_mem_nil
  have hshort : Uses (indexesOf sized) sizedRank 1 shortNode := by
    refine .intro _ (by decide) (fun qname hqname => Or.inr ?_) fun inner hinner => ?_
    · rw [show namedRefs shortNode = ["Code"] by decide +kernel, List.mem_singleton] at hqname
      rw [hqname]
      refine ⟨ne_inlineRef (by decide), fun entry hentry => ?_⟩
      have hlookup : (indexesOf sized).namedTypeNodes.lookup "Code" = some ⟨codeNode, ⟨"", false, false⟩⟩ :=
        rfl
      rw [Option.some.inj (hentry.symm.trans hlookup)]
      exact ⟨by decide, by decide⟩
    · exact absurd hinner List.not_mem_nil
  have hnamed : ∀ qname entry, (indexesOf sized).namedTypeNodes.lookup qname = some entry →
      qname = "Code" ∧ entry.node = codeNode ∨ qname = "Short" ∧ entry.node = shortNode := by
    intro qname entry hentry
    have hmem : (qname, entry) ∈ [("Code", (⟨codeNode, ⟨"", false, false⟩⟩ : Declared)),
        ("Short", ⟨shortNode, ⟨"", false, false⟩⟩)] := mem_of_lookup hentry
    rcases List.mem_cons.mp hmem with h | h
    · cases h
      exact Or.inl ⟨rfl, rfl⟩
    · cases List.mem_singleton.mp h
      exact Or.inr ⟨rfl, rfl⟩
  have hplain : ∀ node, node = codeNode ∨ node = shortNode → ∀ restriction ∈ firstNamed? node "restriction",
      ∃ value, restriction.children = [xs "maxLength" [("value", value)] []] := by
    rintro node (rfl | rfl) restriction hrestriction
    · cases hrestriction
      exact ⟨"5", rfl⟩
    · cases hrestriction
      exact ⟨"3", rfl⟩
  refine ⟨fun node hpart hname => ?_, fun qname entry hentry _ => ?_, fun qname entry hentry => ?_,
    fun node hpart hname restriction hrestriction depth start _ => ?_⟩
  · rcases sized_part hpart hname with rfl | rfl
    · exact ⟨0, hcode 0⟩
    · exact ⟨1, hshort⟩
  · rcases hnamed qname entry hentry with ⟨rfl, hnode⟩ | ⟨rfl, hnode⟩
    · rw [hnode]
      exact hcode _
    · rw [hnode]
      exact hshort
  · rcases hnamed qname entry hentry with ⟨rfl, -⟩ | ⟨rfl, -⟩
    · exact ne_inlineRef (by decide)
    · exact ne_inlineRef (by decide)
  · obtain ⟨value, hchildren⟩ := hplain node (sized_part hpart hname) restriction hrestriction
    rw [hchildren]
    constructor
    · rintro ⟨child, hmem, -, hchild, -⟩
      rw [List.mem_singleton.mp hmem] at hchild
      exact absurd hchild (show "maxLength" ≠ "enumeration" by decide)
    · rintro ⟨child, hmem, -, hchild, -⟩
      rw [List.mem_singleton.mp hmem] at hchild
      exact absurd hchild (show "maxLength" ≠ "pattern" by decide)

theorem short_tightens : Tightens (ofLength "5") (xs "restriction" [("base", "Code")]
    [xs "maxLength" [("value", "3")] []]) := by
  have hgives : ∀ {facet value}, Gives [xs "maxLength" [("value", "3")] []] facet value →
      facet = .maxLength ∧ value = "3" := by
    rintro facet value ⟨child, hmem, -, hfacet, hvalue⟩
    rw [List.mem_singleton.mp hmem] at hfacet hvalue
    exact ⟨Option.some.inj (hfacet.symm.trans (by decide +kernel)),
      Option.some.inj (hvalue.symm.trans (by decide +kernel))⟩
  refine ⟨fun facet value h old hold text hrefuses => ?_, fun value h => ?_⟩
  · obtain ⟨rfl, rfl⟩ := hgives h
    have hfive : old = "5" := Option.some.inj (hold.symm.trans (by decide +kernel))
    subst hfive
    have hfiveValue : JsNumber.toNumber "5".toList = some (.finite 5) := by decide +kernel
    have hthreeValue : JsNumber.toNumber "3".toList = some (.finite 3) := by decide +kernel
    rw [Facet.refuses] at hrefuses ⊢
    simp only [hfiveValue, hthreeValue, count, below, decide_eq_true_eq] at hrefuses ⊢
    exact lt_trans (by norm_num) hrefuses
  · exact absurd (hgives h).1 (by decide)

def lettered : List XmlNode :=
  [xs "schema" [] [restricting "Word" "xs:string" [xs "pattern" [("value", "[a-z]+")] []],
    restricting "Number" "Word" [xs "pattern" [("value", "[0-9]+")] []]]]

def wordState : State where
  types := (∅ : Dict String (XsdType Nat)).insert "Word" (.simple (stringType { patterns := some 0 }))
  arrays := [["^(?:[a-z]+)$"]]

def numberState : State where
  types := wordState.types.insert "Number" (.simple (stringType { patterns := some 0 }))
  arrays := [["^(?:[a-z]+)$", "^(?:[0-9]+)$"]]

end Apim.Xsd
