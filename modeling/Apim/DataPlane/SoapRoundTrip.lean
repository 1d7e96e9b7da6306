import Apim.Shared.XmlNames
import Apim.DataPlane.SoapFaithful
import Mathlib.Algebra.GroupWithZero.Nat

/-!
# The verdict on a body element

The law of `serialize` and `parseDocument` (`data-plane/src/pipeline.ts:2288-2337`, `shared/xml.ts:378-426`)
over whole trees, for the elements of any document the parser accepts.
-/

namespace Apim.DataPlane
open Xml Guard
open Routing (isSpace utf16Length)

mutual
/-- The element, written where `inherited` is the default namespace, is read as it was. -/
def Faithful (inherited : Option String) : Element → Prop
  | .mk ns name attributes nsAttributes text children =>
    KeptTag inherited ns name attributes nsAttributes ∧ (text.all isSpace = true → text = []) ∧
      FaithfulAll (scopeWithin inherited ns) children

def FaithfulAll (inherited : Option String) : List Element → Prop
  | [] => True
  | element :: elements => Faithful inherited element ∧ FaithfulAll inherited elements
end

mutual
def Element.height : Element → Nat
  | .mk _ _ _ _ _ children => 1 + heightAll children

def heightAll : List Element → Nat
  | [] => 0
  | element :: elements => max element.height (heightAll elements)
end

mutual
def Named : Element → Prop
  | .mk _ name attributes nsAttributes _ children =>
    Parsed name attributes nsAttributes ∧ NamedAll children

def NamedAll : List Element → Prop
  | [] => True
  | element :: elements => Named element ∧ NamedAll elements
end

mutual
def Braced : Element → Prop
  | .mk _ _ _ nsAttributes _ children =>
    (∀ entry ∈ nsAttributes, OneBrace entry.1) ∧ BracedAll children

def BracedAll : List Element → Prop
  | [] => True
  | element :: elements => Braced element ∧ BracedAll elements
end

theorem elementOf_mk (tag : StartTag) (scope : List Entries) (nodes : List XmlNode) (text : Text) :
    elementOf (.mk tag scope nodes text) =
      .mk tag.ns tag.name (recordOf (tag.attributes.filterMap plainEntry))
        (recordOf (tag.attributes.filterMap qualifiedEntry)) text (elementsOf nodes) := by
  rw [elementOf, ← attributes_eq tag scope [] text, ← nsAttributes_eq tag scope [] text]
  rfl

/-! ### The second reading, level by level -/

section
variable {limits : Limits}

mutual
theorem reread_count {declared : List Entries} {depth count count' : Nat} {inherited : Option String} :
    (element : Element) → {node : XmlNode} →
    reread limits declared depth count inherited element = some (node, count') →
    count' = count + element.size
  | .mk ns name attributes nsAttributes text children, node, h => by
    simp only [reread, Option.bind_eq_bind, Option.bind_eq_some_iff, Option.some.injEq,
      Prod.mk.injEq, Prod.exists] at h
    obtain ⟨tag, -, nodes, _, hnodes, -, rfl⟩ := h
    have hcount := rereadAll_count children hnodes
    simp only [Element.size]
    omega

theorem rereadAll_count {declared : List Entries} {depth count count' : Nat}
    {inherited : Option String} : (elements : List Element) → {nodes : List XmlNode} →
    rereadAll limits declared depth count inherited elements = some (nodes, count') →
    count' = count + sizeAll elements
  | [], nodes, h => by
    simp only [rereadAll, Option.some.injEq, Prod.mk.injEq] at h
    simp only [sizeAll]
    omega
  | element :: elements, nodes, h => by
    simp only [rereadAll, Option.bind_eq_bind, Option.bind_eq_some_iff, Option.some.injEq,
      Prod.mk.injEq, Prod.exists] at h
    obtain ⟨node, _, hnode, rest, _, hrest, -, rfl⟩ := h
    have hfirst := reread_count element hnode
    have hothers := rereadAll_count elements hrest
    simp only [sizeAll]
    omega
end

mutual
theorem reread_kept {declared : List Entries} {inherited : Option String} (depth count : Nat)
    (hdefault : binding declared "" = inherited) : (element : Element) → Named element →
    Braced element →
    ((∃ node count', reread limits declared depth count inherited element = some (node, count') ∧
        elementOf node = element) ↔
      Faithful inherited element ∧ count + element.size ≤ limits.maxElements ∧
        declared.length + element.height ≤ limits.maxDepth)
  | .mk ns name attributes nsAttributes text children, hnamed, hbraced => by
    obtain ⟨hparsed, hchildren⟩ := hnamed
    obtain ⟨hbrace, hbraces⟩ := hbraced
    have htag := @tag_kept limits declared count depth inherited ns name attributes nsAttributes
      hdefault hparsed hbrace
    have hblank : (if text.all isSpace then [] else text) = text ↔
        (text.all isSpace = true → text = []) := by
      by_cases h : text.all isSpace = true
      · rw [if_pos h]
        exact ⟨fun heq _ => heq.symm, fun heq => (heq h).symm⟩
      · rw [if_neg h]
        exact ⟨fun _ hall => absurd hall h, fun _ => rfl⟩
    simp only [Faithful, Element.size, Element.height, reread]
    constructor
    · intro ⟨node, count', hread, helement⟩
      simp only [Option.bind_eq_bind, Option.bind_eq_some_iff, Option.some.injEq, Prod.mk.injEq,
        Prod.exists] at hread
      obtain ⟨tag, hfound, nodes, _, hnodes, rfl, rfl⟩ := hread
      rw [elementOf_mk, Element.mk.injEq] at helement
      obtain ⟨hns, hname, hattributes, hnsAttributes, htext, hnested⟩ := helement
      obtain ⟨hkept, hcount, hdepth⟩ := htag.mp ⟨tag, hfound, hns, hname, hattributes, hnsAttributes⟩
      have hdeclarations := declarations_kept hfound hkept
      have hinner : binding (tag.declarations :: declared) "" = scopeWithin inherited ns := by
        rw [hdeclarations]
        exact binding_default hdefault ns nsAttributes
      have hall := (rereadAll_kept (depth + 1) (count + 1) hinner children hchildren hbraces
        (by omega) (by simpa using hdepth)).mp ⟨nodes, _, hnodes, hnested⟩
      simp only [List.length_cons] at hall
      exact ⟨⟨hkept, hblank.mp htext, hall.1⟩, by omega, by omega⟩
    · intro ⟨⟨hkept, htext, hall⟩, hcount, hdepth⟩
      obtain ⟨tag, hfound, hns, hname, hattributes, hnsAttributes⟩ :=
        htag.mpr ⟨hkept, by omega, by omega⟩
      have hdeclarations := declarations_kept hfound hkept
      have hinner : binding (tag.declarations :: declared) "" = scopeWithin inherited ns := by
        rw [hdeclarations]
        exact binding_default hdefault ns nsAttributes
      obtain ⟨nodes, count', hnodes, hnested⟩ := (rereadAll_kept (depth + 1) (count + 1) hinner children
        hchildren hbraces (by omega) (by simp only [List.length_cons]; omega)).mpr
        ⟨hall, by omega, by simp only [List.length_cons]; omega⟩
      refine ⟨.mk tag (tag.declarations :: declared) nodes (if text.all isSpace then [] else text),
        count', ?_, ?_⟩
      · simp only [hfound, Option.bind_eq_bind, Option.bind_some, hnodes]
      · rw [elementOf_mk, hns, hname, hattributes, hnsAttributes, hblank.mpr htext, hnested]

theorem rereadAll_kept {declared : List Entries} {inherited : Option String} (depth count : Nat)
    (hdefault : binding declared "" = inherited) : (elements : List Element) → NamedAll elements →
    BracedAll elements → count ≤ limits.maxElements → declared.length ≤ limits.maxDepth →
    ((∃ nodes count', rereadAll limits declared depth count inherited elements = some (nodes, count') ∧
        elementsOf nodes = elements) ↔
      FaithfulAll inherited elements ∧ count + sizeAll elements ≤ limits.maxElements ∧
        declared.length + heightAll elements ≤ limits.maxDepth)
  | [], _, _, hcount, hdepth => by
    simp only [FaithfulAll, sizeAll, heightAll, rereadAll]
    constructor
    · intro _
      exact ⟨trivial, by omega, by omega⟩
    · intro _
      exact ⟨[], count, rfl, rfl⟩
  | element :: elements, hnamed, hbraced, hcount, hdepth => by
    have hfirst := reread_kept depth count hdefault element hnamed.1 hbraced.1
    simp only [FaithfulAll, sizeAll, heightAll, rereadAll]
    constructor
    · intro ⟨nodes, count', hread, helements⟩
      simp only [Option.bind_eq_bind, Option.bind_eq_some_iff, Option.some.injEq, Prod.mk.injEq,
        Prod.exists] at hread
      obtain ⟨node, middle, hnode, rest, _, hrest, rfl, rfl⟩ := hread
      rw [elementsOf, List.cons.injEq] at helements
      obtain ⟨helement, hsize, hheight⟩ := hfirst.mp ⟨node, middle, hnode, helements.1⟩
      have hmiddle := reread_count element hnode
      obtain ⟨hall, hsizes, hheights⟩ := (rereadAll_kept depth middle hdefault elements hnamed.2 hbraced.2
        (by omega) hdepth).mp ⟨rest, _, hrest, helements.2⟩
      exact ⟨⟨helement, hall⟩, by omega, by omega⟩
    · intro ⟨⟨helement, hall⟩, hsize, hheight⟩
      obtain ⟨node, middle, hnode, hkept⟩ := hfirst.mpr ⟨helement, by omega, by omega⟩
      have hmiddle := reread_count element hnode
      obtain ⟨rest, count', hrest, hothers⟩ := (rereadAll_kept depth middle hdefault elements hnamed.2
        hbraced.2 (by omega) hdepth).mpr ⟨hall, by omega, by omega⟩
      refine ⟨node :: rest, count', ?_, ?_⟩
      · simp only [hnode, Option.bind_eq_bind, Option.bind_some, hrest]
      · rw [elementsOf, hkept, hothers]
end

end

/-! ### The characters of the names -/

theorem nameChars_append {front back : Text} (hfront : NameChars front) (hback : NameChars back) :
    NameChars (front ++ back) := by
  intro c hc
  cases List.mem_append.mp hc with
  | inl hmem => exact hfront c hmem
  | inr hmem => exact hback c hmem

theorem nameChars_colon {name : Text} (hname : NameChars name) : NameChars (':' :: name) := by
  intro c hc
  cases List.mem_cons.mp hc with
  | inl heq => exact heq ▸ by decide
  | inr hmem => exact hname c hmem

theorem nameChars_written {inherited : Option String} {ns name : String}
    {attributes nsAttributes : Entries} (hparsed : Parsed name attributes nsAttributes)
    (hbrace : ∀ entry ∈ nsAttributes, OneBrace entry.1) :
    ∀ a ∈ writtenAttributes inherited ns attributes nsAttributes, NameChars a.name := by
  intro a ha
  obtain hown | ⟨entry, hentry, hname⟩ | ⟨i, hname⟩ | ⟨entry, hentry, i, hname⟩ :=
    mem_writtenAttributes ha
  · rw [hown]
    unfold NameChars
    decide
  · rw [hname]
    exact hparsed.names entry hentry
  · have hxmlns : NameChars "xmlns:".toList := by
      unfold NameChars
      decide
    rw [hname]
    exact nameChars_append hxmlns (nameChars_nsQualifier i)
  · have hlocal : NameChars (splitQName entry.1).2 := by
      obtain ⟨_, _, -, hchars, -, hsplit, -⟩ | ⟨hchars, hsplit, -⟩ :=
        splitQName_cases (hparsed.qnames entry hentry) (hbrace entry hentry)
      · rw [hsplit]
        exact hchars
      · rw [hsplit]
        exact hchars
    rw [hname]
    exact nameChars_append (nameChars_nsQualifier i) (nameChars_colon hlocal)

mutual
theorem tokens_of_named (inherited : Option String) : (element : Element) → Named element →
    Braced element → Tokens inherited element
  | .mk _ _ _ _ _ children, hnamed, hbraced =>
    ⟨hnamed.1.name, nameChars_written hnamed.1 hbraced.1,
      tokensAll_of_named _ children hnamed.2 hbraced.2⟩

theorem tokensAll_of_named (inherited : Option String) : (elements : List Element) →
    NamedAll elements → BracedAll elements → TokensAll inherited elements
  | [], _, _ => trivial
  | element :: elements, hnamed, hbraced =>
    ⟨tokens_of_named inherited element hnamed.1 hbraced.1,
      tokensAll_of_named inherited elements hnamed.2 hbraced.2⟩
end

theorem oneBrace_of_recoverable {qname : String} (h : IsQName qname) (hkept : Recoverable qname) :
    OneBrace qname := by
  unfold Recoverable at hkept
  unfold OneBrace
  split at hkept
  next => omega
  next hhead =>
    obtain ⟨ns, name, hname, rfl⟩ := h
    by_cases hns : ns = ""
    · subst hns
      have hcount : name.toList.count '\x7d' = 0 := List.count_eq_zero.mpr (brace_notMem hname)
      show name.toList.count '\x7d' ≤ 1
      omega
    · exact absurd (by simp [qnameOf, hns]) hhead

mutual
theorem braced_of_faithful (inherited : Option String) : (element : Element) → Named element →
    Faithful inherited element → Braced element
  | .mk _ _ _ _ _ children, hnamed, hkept =>
    ⟨fun entry hentry => oneBrace_of_recoverable (hnamed.1.qnames entry hentry)
        (hkept.1.recoverable entry hentry),
      bracedAll_of_faithful _ children hnamed.2 hkept.2.2⟩

theorem bracedAll_of_faithful (inherited : Option String) : (elements : List Element) →
    NamedAll elements → FaithfulAll inherited elements → BracedAll elements
  | [], _, _ => trivial
  | element :: elements, hnamed, hkept =>
    ⟨braced_of_faithful inherited element hnamed.1 hkept.1,
      bracedAll_of_faithful inherited elements hnamed.2 hkept.2⟩
end

/-! ### The length of what is written -/

def escapedLength (text : Text) : Nat :=
  (text.map fun c =>
    if c = '&' then 5 else if c = '<' ∨ c = '>' then 4 else if c = '"' then 6
    else if c.toNat < 0x10000 then 1 else 2).sum

def attributesLength (attributes : List RawAttribute) : Nat :=
  (attributes.map fun a => 4 + utf16Length a.name + escapedLength a.value).sum

mutual
def Element.length (inherited : Option String) : Element → Nat
  | .mk ns name attributes nsAttributes text children =>
    5 + 2 * utf16Length name.toList +
      attributesLength (writtenAttributes inherited ns attributes nsAttributes) + escapedLength text +
      lengthAll (scopeWithin inherited ns) children

def lengthAll (inherited : Option String) : List Element → Nat
  | [] => 0
  | element :: elements => element.length inherited + lengthAll inherited elements
end

theorem utf16Length_append (front back : Text) :
    utf16Length (front ++ back) = utf16Length front + utf16Length back := by
  simp [utf16Length]

theorem utf16Length_cons (c : Char) (text : Text) :
    utf16Length (c :: text) = (if c.toNat < 0x10000 then 1 else 2) + utf16Length text := by
  simp [utf16Length]

theorem utf16Length_escapeXml (text : Text) : utf16Length (escapeXml text) = escapedLength text := by
  induction text with
  | nil => rfl
  | cons c text ih =>
    have hchar : utf16Length (escapeChar c) = if c = '&' then 5 else if c = '<' ∨ c = '>' then 4
        else if c = '"' then 6 else if c.toNat < 0x10000 then 1 else 2 := by
      obtain ⟨hc, heq⟩ | ⟨hc, heq⟩ | ⟨hc, heq⟩ | ⟨hc, heq⟩ | ⟨hamp, hlt, hgt, hquot, heq⟩ :=
        escapeChar_cases c
      · subst hc
        rw [heq]
        decide
      · subst hc
        rw [heq]
        decide
      · subst hc
        rw [heq]
        decide
      · subst hc
        rw [heq]
        decide
      · rw [heq, if_neg hamp, if_neg (by simp [hlt, hgt]), if_neg hquot]
        simp [utf16Length]
    rw [escapeXml_cons, utf16Length_append, ih, hchar]
    simp [escapedLength]

theorem utf16Length_attributesText (attributes : List RawAttribute) :
    utf16Length (attributesText attributes) = attributesLength attributes := by
  induction attributes with
  | nil => rfl
  | cons a attributes ih =>
    have hone : utf16Length (attributeText a) = 4 + utf16Length a.name + escapedLength a.value := by
      simp only [attributeText, utf16Length_cons, utf16Length_append, utf16Length_escapeXml]
      have hsigns : ' '.toNat < 0x10000 ∧ '='.toNat < 0x10000 ∧ '"'.toNat < 0x10000 := by decide
      rw [if_pos hsigns.1, if_pos hsigns.2.1, if_pos hsigns.2.2]
      have hnil : utf16Length [] = 0 := rfl
      omega
    have htext : attributesText (a :: attributes) = attributeText a ++ attributesText attributes := rfl
    rw [htext, utf16Length_append, hone, ih]
    simp [attributesLength]

mutual
theorem utf16Length_serialize (inherited : Option String) : (element : Element) →
    utf16Length (serialize inherited element) = element.length inherited
  | .mk ns name attributes nsAttributes text children => by
    have hchildren := utf16Length_serializeAll (scopeWithin inherited ns) children
    have hsigns : '<'.toNat < 0x10000 ∧ '>'.toNat < 0x10000 ∧ '/'.toNat < 0x10000 := by decide
    have hnil : utf16Length [] = 0 := rfl
    simp only [serialize, Element.length, utf16Length_cons, utf16Length_append,
      utf16Length_attributesText, utf16Length_escapeXml, hchildren]
    rw [if_pos hsigns.1, if_pos hsigns.2.1, if_pos hsigns.2.2]
    omega

theorem utf16Length_serializeAll (inherited : Option String) : (elements : List Element) →
    utf16Length (serializeAll inherited elements) = lengthAll inherited elements
  | [] => rfl
  | element :: elements => by
    rw [serializeAll, utf16Length_append, utf16Length_serialize inherited element,
      utf16Length_serializeAll inherited elements, lengthAll]
end

/-! ### The elements of a parsed document -/

theorem keys_set (record : Entries) (key value : String) :
    (Entries.set record key value).map Prod.fst =
      if key ∈ record.map Prod.fst then record.map Prod.fst else record.map Prod.fst ++ [key] := by
  by_cases hmem : key ∈ record.map Prod.fst
  · have hany : record.any (·.1 == key) = true := by
      obtain ⟨entry, hentry, rfl⟩ := List.mem_map.mp hmem
      exact List.any_eq_true.mpr ⟨entry, hentry, beq_self_eq_true _⟩
    rw [if_pos hmem, Entries.set, hany, if_pos rfl, List.map_map]
    apply List.map_congr_left
    intro entry _
    by_cases heq : entry.1 = key
    · simp [heq]
    · simp [heq]
  · rw [if_neg hmem, set_of_notMem hmem, List.map_append]
    rfl

theorem keys_recordOf (entries : Entries) :
    ((recordOf entries).map Prod.fst).Nodup ∧
      ∀ entry ∈ recordOf entries, ∃ given ∈ entries, given.1 = entry.1 := by
  have hkeys : ∀ (entries record : Entries), (record.map Prod.fst).Nodup →
      ((entries.foldl (fun record entry => Entries.set record entry.1 entry.2) record).map
        Prod.fst).Nodup ∧
      ∀ key ∈ (entries.foldl (fun record entry => Entries.set record entry.1 entry.2) record).map
        Prod.fst, key ∈ record.map Prod.fst ∨ key ∈ entries.map Prod.fst := by
    intro entries
    induction entries with
    | nil => exact fun record h => ⟨h, fun key hkey => .inl hkey⟩
    | cons entry entries ih =>
      intro record h
      have hset := keys_set record entry.1 entry.2
      have hnodup : ((Entries.set record entry.1 entry.2).map Prod.fst).Nodup := by
        rw [hset]
        split
        · exact h
        next hnot =>
          rw [List.nodup_append]
          refine ⟨h, List.nodup_singleton _, ?_⟩
          intro a ha b hb heq
          rw [List.mem_singleton.mp hb] at heq
          exact hnot (heq ▸ ha)
      obtain ⟨hall, hfrom⟩ := ih _ hnodup
      refine ⟨hall, ?_⟩
      intro key hkey
      cases hfrom key hkey with
      | inl hold =>
        rw [hset] at hold
        split at hold
        · exact .inl hold
        · cases List.mem_append.mp hold with
          | inl hrecord => exact .inl hrecord
          | inr hnew => exact .inr (by rw [List.mem_singleton.mp hnew]; simp)
      | inr hrest => exact .inr (List.mem_cons_of_mem _ hrest)
  obtain ⟨hnodup, hfrom⟩ := hkeys entries [] (by simp)
  refine ⟨hnodup, ?_⟩
  intro entry hentry
  cases hfrom entry.1 (List.mem_map_of_mem hentry) with
  | inl hnone => cases hnone
  | inr hmem =>
    obtain ⟨given, hgiven, heq⟩ := List.mem_map.mp hmem
    exact ⟨given, hgiven, heq⟩

theorem parsed_of_named {tag : StartTag} (h : tag.Named) :
    Parsed tag.name (recordOf (tag.attributes.filterMap plainEntry))
      (recordOf (tag.attributes.filterMap qualifiedEntry)) := by
  obtain ⟨hdistinct, hfrom⟩ := keys_recordOf (tag.attributes.filterMap plainEntry)
  obtain ⟨hnsDistinct, hnsFrom⟩ := keys_recordOf (tag.attributes.filterMap qualifiedEntry)
  refine ⟨h.name, ?_, ?_, hdistinct, hnsDistinct⟩
  · intro entry hentry
    obtain ⟨given, hgiven, heq⟩ := hfrom entry hentry
    obtain ⟨a, ha, hplain⟩ := List.mem_filterMap.mp hgiven
    unfold plainEntry at hplain
    split at hplain
    · rw [← heq, ← Option.some.inj hplain]
      exact h.attributes a ha
    · cases hplain
  · intro entry hentry
    obtain ⟨given, hgiven, heq⟩ := hnsFrom entry hentry
    obtain ⟨a, ha, hqualified⟩ := List.mem_filterMap.mp hgiven
    unfold qualifiedEntry at hqualified
    split at hqualified
    · cases hqualified
    · rw [← heq, ← Option.some.inj hqualified]
      exact ⟨a.ns, a.name, h.attributes a ha, rfl⟩

mutual
theorem named_elementOf : (node : XmlNode) → node.Named → Named (elementOf node)
  | .mk tag scope children text, h => by
    rw [elementOf_mk]
    exact ⟨parsed_of_named h.1, named_elementsOf children h.2⟩

theorem named_elementsOf : (nodes : List XmlNode) → XmlNode.NamedAll nodes →
    NamedAll (elementsOf nodes)
  | [], _ => trivial
  | node :: nodes, h => ⟨named_elementOf node h.1, named_elementsOf nodes h.2⟩
end

inductive Below (root : XmlNode) : XmlNode → Prop where
  | root : Below root root
  | child {node child : XmlNode} (h : Below root node) (hchild : child ∈ node.children) :
    Below root child

theorem named_below {root node : XmlNode} (hroot : root.Named) (h : Below root node) : node.Named := by
  induction h with
  | root => exact hroot
  | @child node child _ hchild ih =>
    obtain ⟨tag, scope, children, text⟩ := node
    exact XmlNode.namedAll_iff.mp ih.2 child hchild

/-! ### The law -/

def Rereads (charCode : Text → Option Int) (limits : Limits) (node : XmlNode) : Prop :=
  ∃ again, parseDocument charCode limits (serialize none (elementOf node)) = .ok again ∧
    elementOf again = elementOf node

/-- What is written of an element keeps to the limits of the second reading. -/
structure Fits (limits : Limits) (element : Element) : Prop where
  bytes : element.length none ≤ limits.maxBytes
  elements : element.size ≤ limits.maxElements
  depth : element.height ≤ limits.maxDepth

theorem rereads_of_named (charCode : Text → Option Int) (limits : Limits) {node : XmlNode}
    (hnamed : Named (elementOf node)) (hbraced : Braced (elementOf node)) :
    Rereads charCode limits node ↔
      Faithful none (elementOf node) ∧ Fits limits (elementOf node) := by
  have htokens := tokens_of_named none (elementOf node) hnamed hbraced
  have hkept := @reread_kept limits [] none 0 0 rfl (elementOf node) hnamed hbraced
  simp only [List.length_nil, Nat.zero_add] at hkept
  unfold Rereads
  constructor
  · intro ⟨again, hparsed, hsame⟩
    obtain ⟨hbytes, count, hread⟩ := (parseDocument_serialize charCode limits htokens again).mp hparsed
    obtain ⟨hfaithful, helements, hdepth⟩ := hkept.mp ⟨again, count, hread, hsame⟩
    rw [utf16Length_serialize] at hbytes
    exact ⟨hfaithful, hbytes, helements, hdepth⟩
  · intro ⟨hfaithful, hfits⟩
    obtain ⟨again, count, hread, hsame⟩ := hkept.mpr ⟨hfaithful, hfits.elements, hfits.depth⟩
    have hbytes : utf16Length (serialize none (elementOf node)) ≤ limits.maxBytes := by
      rw [utf16Length_serialize]
      exact hfits.bytes
    exact ⟨again, (parseDocument_serialize charCode limits htokens again).mpr ⟨hbytes, count, hread⟩, hsame⟩

/-- `validateXmlDocument` (`shared/xsd.ts:707-721`), for what looks at an element and below it only. -/
def validateXmlDocument {β : Type} (charCode : Text → Option Int) (limits : Limits)
    (validateXmlElement : Element → β) (xml : Text) : Except String β :=
  (parseDocument charCode limits xml).map fun root => validateXmlElement (elementOf root)

def envelope : Text :=
  ("<s:Envelope xmlns:s=\"http://schemas.xmlsoap.org/soap/envelope/\"><s:Body>" ++
    "<o:order xmlns:o=\"urn:orders\"><id>7</id></o:order></s:Body></s:Envelope>").toList

def bodyElement (root : XmlNode) : Option XmlNode :=
  root.children.head?.bind fun body => body.children.head?

theorem below_bodyElement {root node : XmlNode} (h : bodyElement root = some node) :
    Below root node := by
  unfold bodyElement at h
  obtain ⟨body, hbody, hnode⟩ := Option.bind_eq_some_iff.mp h
  exact .child (.child .root (List.mem_of_head? hbody)) (List.mem_of_head? hnode)

theorem ns_of_elementsOf : {nodes others : List XmlNode} → elementsOf nodes = elementsOf others →
    nodes.map XmlNode.ns = others.map XmlNode.ns
  | [], [], _ => rfl
  | [], _ :: _, h => by cases h
  | _ :: _, [], h => by cases h
  | .mk _ _ _ _ :: nodes, .mk _ _ _ _ :: others, h => by
    rw [elementsOf, elementsOf, List.cons.injEq, elementOf_mk, elementOf_mk, Element.mk.injEq] at h
    have hrest := ns_of_elementsOf h.2
    rw [List.map_cons, List.map_cons, hrest]
    congr 1
    exact h.1.1

def readOtherwise (charCode : Text → Option Int) (limits : Limits) (node : XmlNode) : Bool :=
  match parseDocument charCode limits (serialize none (elementOf node)) with
  | .ok again => again.children.map XmlNode.ns != node.children.map XmlNode.ns
  | .error _ => true

theorem not_rereads_of_readOtherwise {charCode : Text → Option Int} {limits : Limits} {node : XmlNode}
    (h : readOtherwise charCode limits node = true) : ¬ Rereads charCode limits node := by
  intro ⟨again, hread, hsame⟩
  unfold readOtherwise at h
  rw [hread] at h
  obtain ⟨tag, scope, children, text⟩ := node
  obtain ⟨tag', scope', children', text'⟩ := again
  rw [elementOf_mk, elementOf_mk, Element.mk.injEq] at hsame
  have hns := ns_of_elementsOf hsame.2.2.2.2.2
  exact absurd hns (bne_iff_ne.mp h)

end Apim.DataPlane
