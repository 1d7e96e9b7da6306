import Apim.Lib.Stateful
import Apim.Shared.XsdValues

/-!
# What a simple type definition says

A restriction begins with the facets of its base and adds its own (`meaning`). The compiler does so on
arrays that types share; where a type adds to none that its base has, the loop gives the facets that the
definition says, and leaves the arrays of other types as they are (`foldlM_addFacet`).
-/

namespace Apim.Xsd
open Overlay (Dict)
open Xml (XmlNode qnameOf)
open XsdPattern (xsdPatternToJs translate)
open Stateful (Contract Carries)

/-! ### Definitions -/

def namedRefs (node : XmlNode) : List String :=
  match firstNamed? node "list" with
  | some list => ((given? list "itemType").map list.resolveQName).toList
  | none =>
    match firstNamed? node "union" with
    | some union =>
      (words ((attribute? union "memberTypes").getD "").toList).map fun raw =>
        union.resolveQName (String.ofList raw)
    | none =>
      match firstNamed? node "restriction" with
      | some restriction => ((given? restriction "base").map restriction.resolveQName).toList
      | none => []

def inlineRefs (node : XmlNode) : List XmlNode :=
  match firstNamed? node "list" with
  | some list => if given? list "itemType" = none then (firstNamed? list "simpleType").toList else []
  | none =>
    match firstNamed? node "union" with
    | some union => union.childrenNamed XSD_NS "simpleType"
    | none =>
      match firstNamed? node "restriction" with
      | some restriction =>
        if given? restriction "base" = none then (firstNamed? restriction "simpleType").toList else []
      | none => []

section
variable (indexes : Indexes) (rank : String → Nat)

/-- A type of this name is a built-in one or a simple type that comes earlier. -/
def Below (bound : Nat) (qname : String) : Prop :=
  (builtinName qname).isSome ∨ (∀ n, qname ≠ inlineRef n) ∧
    ∀ entry, indexes.namedTypeNodes.lookup qname = some entry →
      entry.node.name = "simpleType" ∧ rank qname < bound

inductive Uses (bound : Nat) : XmlNode → Prop
  | intro (node : XmlNode) (hname : node.name = "simpleType")
      (hnamed : ∀ qname ∈ namedRefs node, Below indexes rank bound qname)
      (hinline : ∀ inner ∈ inlineRefs node, Uses bound inner) : Uses bound node

end

/-! ### Their meaning -/

structure Form where
  builtin : String
  variety : Variety
  facets : Facets (List String)
  deriving DecidableEq

def Facets.freeze (arrays : List (List String)) (facets : Facets Nat) : Facets (List String) :=
  ⟨facets.enumeration.map fun a => arrays.getD a [], facets.patterns.map fun a => arrays.getD a [],
    facets.values⟩

def XsdSimpleType.form (type : XsdSimpleType Nat) (arrays : List (List String)) : Form :=
  ⟨type.builtin, type.variety, type.facets.freeze arrays⟩

def withFacet (facets : Facets (List String)) (facet : XmlNode) : Option (Facets (List String)) :=
  if facet.ns ≠ XSD_NS then some facets
  else
    match attribute? facet "value" with
    | none => some facets
    | some value =>
      if facet.name = "enumeration" then
        some { facets with enumeration := some (facets.enumeration.getD [] ++ [value]) }
      else if facet.name = "pattern" then
        match xsdPatternToJs value.toList "" with
        | .error _ => none
        | .ok source =>
          some { facets with patterns := some (facets.patterns.getD [] ++ [String.ofList source]) }
      else
        match facetOf facet.name with
        | some one => some { facets with values := facets.values.insert one value }
        | none => some facets

section
variable (indexes : Indexes)

def begins (meaning : XmlNode → Option Form) (restriction : XmlNode) :
    Option (String × Facets (List String)) :=
  match given? restriction "base" with
  | some base =>
    let qname := restriction.resolveQName base
    match builtinName qname with
    | some builtin => some (builtin, {})
    | none => do
      let entry ← indexes.namedTypeNodes.lookup qname
      let base ← meaning entry.node
      pure (base.builtin, base.facets)
  | none =>
    match firstNamed? restriction "simpleType" with
    | some inner => (meaning inner).map fun base => (base.builtin, base.facets)
    | none => some ("string", {})

def meaning : Nat → XmlNode → Option Form
  | 0, _ => none
  | depth + 1, node =>
    if (firstNamed? node "list").isSome then some ⟨"string", .list, {}⟩
    else if (firstNamed? node "union").isSome then some ⟨"string", .union, {}⟩
    else do
      let restriction ← firstNamed? node "restriction"
      let (builtin, facets) ← begins indexes (meaning depth) restriction
      let facets ← restriction.children.foldlM withFacet facets
      pure ⟨builtin, .atomic, facets⟩

end

def hasFacet (name : String) (children : List XmlNode) : Prop :=
  ∃ child ∈ children, child.ns = XSD_NS ∧ child.name = name ∧ (attribute? child "value").isSome

def Clean (indexes : Indexes) (node : XmlNode) : Prop :=
  ∀ restriction ∈ firstNamed? node "restriction", ∀ depth start,
    begins indexes (meaning indexes depth) restriction = some start →
      (hasFacet "enumeration" restriction.children → start.2.enumeration = none) ∧
      (hasFacet "pattern" restriction.children → start.2.patterns = none)

/-! ### Facets -/

theorem map_ok_iff {α β : Type} {x y : Except XsdPattern.XsdUnsupported α} {f : α → β} {b : β}
    (hxy : ∀ a, x = .ok a → y = .ok a) (h : x.map f = .ok b) : y.map f = .ok b := by
  cases hx : x with
  | error e => rw [hx] at h; cases h
  | ok a => rw [hx] at h; rw [hxy a hx]; exact h

theorem translate_place {place place' : String} : ∀ {pattern out : List Char},
    translate place pattern = .ok out → translate place' pattern = .ok out
  | [], _, h => by rw [XsdPattern.translate] at h ⊢; exact h
  | [c], _, h => by
    rw [XsdPattern.translate] at h ⊢
    split at h
    · cases h
    · next hc => rw [if_neg hc]; exact h
  | c :: next :: rest, _, h => by
    rw [XsdPattern.translate] at h ⊢
    split at h
    · next hc => rw [if_pos hc]; exact map_ok_iff (fun _ => translate_place) h
    · next hc => rw [if_neg hc]; exact map_ok_iff (fun _ => translate_place) h

theorem xsdPatternToJs_place {place place' : String} {pattern source : List Char}
    (h : xsdPatternToJs pattern place = .ok source) : xsdPatternToJs pattern place' = .ok source :=
  map_ok_iff (fun _ => translate_place) h

structure Fits (arrays : List (List String)) (facets : Facets Nat) : Prop where
  enumeration : ∀ a ∈ facets.enumeration, a < arrays.length
  patterns : ∀ a ∈ facets.patterns, a < arrays.length
  apart : ∀ a ∈ facets.enumeration, facets.patterns ≠ some a

def Extends (old new : List (List String)) : Prop :=
  old.length ≤ new.length ∧ ∀ a < old.length, new.getD a [] = old.getD a []

theorem Extends.refl (arrays : List (List String)) : Extends arrays arrays := ⟨le_rfl, fun _ _ => rfl⟩

variable {old new : List (List String)} {facets : Facets Nat}

theorem Fits.extends (h : Fits old facets) (hextends : Extends old new) : Fits new facets where
  enumeration a ha := Nat.lt_of_lt_of_le (h.enumeration a ha) hextends.1
  patterns a ha := Nat.lt_of_lt_of_le (h.patterns a ha) hextends.1
  apart := h.apart

theorem map_getD {array : Option Nat} (h : ∀ a ∈ array, new.getD a [] = old.getD a []) :
    array.map (fun a => new.getD a []) = array.map fun a => old.getD a [] := by
  cases array with
  | none => rfl
  | some a => exact congrArg some (h a rfl)

theorem freeze_extends (h : Fits old facets) (hextends : Extends old new) :
    facets.freeze new = facets.freeze old := by
  rw [Facets.freeze, Facets.freeze, map_getD fun a ha => hextends.2 a (h.enumeration a ha),
    map_getD fun a ha => hextends.2 a (h.patterns a ha)]

theorem form_extends {type : XsdSimpleType Nat} (h : Fits old type.facets)
    (hextends : Extends old new) : type.form new = type.form old := by
  rw [XsdSimpleType.form, XsdSimpleType.form, freeze_extends h hextends]

theorem push_spec {s s' : State} {array : Option Nat} {value : String} {a : Nat}
    (hin : ∀ b ∈ array, b < s.arrays.length) (h : push array value s = .ok (a, s')) :
    ∃ new, s' = { s with arrays := new } ∧ s.arrays.length ≤ new.length ∧ a < new.length ∧
      (∀ b ∈ array, a = b) ∧ (array = none → a = s.arrays.length) ∧
      new.getD a [] = (array.map fun b => s.arrays.getD b []).getD [] ++ [value] ∧
      ∀ b < s.arrays.length, b ≠ a → new.getD b [] = s.arrays.getD b [] := by
  cases array with
  | none =>
    cases h
    refine ⟨_, rfl, ?_, ?_, nofun, fun _ => rfl, ?_, fun b hb _ => ?_⟩
    · rw [List.length_append]
      exact Nat.le_add_right _ _
    · rw [List.length_append]
      exact Nat.lt_succ_self _
    · rw [List.getD_eq_getElem?_getD, List.getElem?_append_right le_rfl, Nat.sub_self]
      rfl
    · rw [List.getD_eq_getElem?_getD, List.getElem?_append_left hb, List.getD_eq_getElem?_getD]
  | some b =>
    cases h
    have hb := hin a rfl
    refine ⟨_, rfl, ?_, ?_, fun c hc => Option.some.inj hc, nofun, ?_, fun c hc hne => ?_⟩
    · rw [List.length_modify]
    · rw [List.length_modify]
      exact hb
    · rw [List.getD_eq_getElem?_getD, List.getElem?_modify_eq, List.getElem?_eq_getElem hb]
      show s.arrays[a] ++ [value] = s.arrays.getD a [] ++ [value]
      rw [List.getD_eq_getElem?_getD, List.getElem?_eq_getElem hb, Option.getD_some]
    · rw [List.getD_eq_getElem?_getD, List.getElem?_modify_ne _ _ (Ne.symm hne), List.getD_eq_getElem?_getD]

def Own (old : List (List String)) (array : Option Nat) : Prop := ∀ a ∈ array, old.length ≤ a

theorem extends_push {now : List (List String)} {a : Nat} (h : Extends old now)
    (hlength : now.length ≤ new.length) (ha : old.length ≤ a)
    (hframe : ∀ b < now.length, b ≠ a → new.getD b [] = now.getD b []) : Extends old new := by
  refine ⟨h.1.trans hlength, fun b hb => ?_⟩
  rw [hframe b (Nat.lt_of_lt_of_le hb h.1) (by omega), h.2 b hb]

structure Added (old : List (List String)) (s : State) (facets : Facets Nat)
    (facets' : Facets Nat) (s' : State) (frozen' : Option (Facets (List String))) : Prop where
  store : s' = { s with arrays := s'.arrays }
  kept : Extends old s'.arrays
  fits : Fits s'.arrays facets'
  result : frozen' = some (facets'.freeze s'.arrays)
  values : Own old facets.enumeration → Own old facets'.enumeration
  patterns : Own old facets.patterns → Own old facets'.patterns

theorem addFacet_enumeration {s s' : State} {value : String} {a : Nat}
    (hextends : Extends old s.arrays) (hfits : Fits s.arrays facets)
    (hown : Own old facets.enumeration) (h : push facets.enumeration value s = .ok (a, s')) :
    Added old s facets { facets with enumeration := some a } s' (some { facets.freeze s.arrays with
      enumeration := some ((facets.freeze s.arrays).enumeration.getD [] ++ [value]) }) := by
  obtain ⟨new, rfl, hlength, ha, hsame, hfresh, hnew, hframe⟩ := push_spec hfits.enumeration h
  have hold : old.length ≤ a := by
    cases harray : facets.enumeration with
    | none =>
      rw [hfresh harray]
      exact hextends.1
    | some b =>
      rw [hsame b harray]
      exact hown b harray
  have hapart : ∀ b ∈ facets.patterns, b ≠ a := by
    rintro b hb rfl
    cases harray : facets.enumeration with
    | none => exact absurd (hfits.patterns b hb) (by rw [hfresh harray]; exact Nat.lt_irrefl _)
    | some c =>
      rw [hsame c harray] at hb
      exact hfits.apart c harray hb
  refine ⟨rfl, extends_push hextends hlength hold hframe, ⟨?_, ?_, ?_⟩, ?_, ?_, id⟩
  · rintro b hb
    cases hb
    exact ha
  · exact fun b hb => Nat.lt_of_lt_of_le (hfits.patterns b hb) hlength
  · rintro b hb hpattern
    cases hb
    exact hapart a hpattern rfl
  · have hpatterns : facets.patterns.map (fun b => new.getD b []) =
        facets.patterns.map fun b => s.arrays.getD b [] :=
      map_getD fun b hb => hframe b (hfits.patterns b hb) (hapart b hb)
    rw [Facets.freeze, Facets.freeze]
    dsimp only
    rw [hpatterns, Option.map_some, hnew]
  · rintro - b hb
    cases hb
    exact hold

theorem addFacet_pattern {s s' : State} {source : String} {a : Nat}
    (hextends : Extends old s.arrays) (hfits : Fits s.arrays facets)
    (hown : Own old facets.patterns) (h : push facets.patterns source s = .ok (a, s')) :
    Added old s facets { facets with patterns := some a } s' (some { facets.freeze s.arrays with
      patterns := some ((facets.freeze s.arrays).patterns.getD [] ++ [source]) }) := by
  obtain ⟨new, rfl, hlength, ha, hsame, hfresh, hnew, hframe⟩ := push_spec hfits.patterns h
  have hold : old.length ≤ a := by
    cases harray : facets.patterns with
    | none =>
      rw [hfresh harray]
      exact hextends.1
    | some b =>
      rw [hsame b harray]
      exact hown b harray
  have hapart : ∀ b ∈ facets.enumeration, b ≠ a := by
    rintro b hb rfl
    cases harray : facets.patterns with
    | none => exact absurd (hfits.enumeration b hb) (by rw [hfresh harray]; exact Nat.lt_irrefl _)
    | some c => exact hfits.apart b hb (by rw [harray, hsame c harray])
  refine ⟨rfl, extends_push hextends hlength hold hframe, ⟨?_, ?_, ?_⟩, ?_, id, ?_⟩
  · exact fun b hb => Nat.lt_of_lt_of_le (hfits.enumeration b hb) hlength
  · rintro b hb
    cases hb
    exact ha
  · intro b hb hpattern
    cases hpattern
    exact hapart a hb rfl
  · have henumeration : facets.enumeration.map (fun b => new.getD b []) =
        facets.enumeration.map fun b => s.arrays.getD b [] :=
      map_getD fun b hb => hframe b (hfits.enumeration b hb) (hapart b hb)
    rw [Facets.freeze, Facets.freeze]
    dsimp only
    rw [henumeration, Option.map_some, hnew]
  · rintro - b hb
    cases hb
    exact hold

theorem addFacet_spec {s s' : State} {place : String} {facets' : Facets Nat} {facet : XmlNode}
    (hextends : Extends old s.arrays) (hfits : Fits s.arrays facets)
    (hvalues : hasFacet "enumeration" [facet] → Own old facets.enumeration)
    (hpatterns : hasFacet "pattern" [facet] → Own old facets.patterns)
    (h : addFacet place facets facet s = .ok (facets', s')) :
    Added old s facets facets' s' (withFacet (facets.freeze s.arrays) facet) := by
  have hsame : Added old s facets facets s (some (facets.freeze s.arrays)) :=
    ⟨rfl, hextends, hfits, rfl, id, id⟩
  rw [addFacet] at h
  rw [withFacet]
  split at h
  · next hns =>
    obtain ⟨rfl, rfl⟩ := Stateful.pure_eq_ok.mp h
    rw [if_pos hns]
    exact hsame
  next hns =>
  rw [if_neg hns]
  cases hvalue : attribute? facet "value" with
  | none =>
    rw [hvalue] at h
    obtain ⟨rfl, rfl⟩ := Stateful.pure_eq_ok.mp h
    exact hsame
  | some value =>
    rw [hvalue] at h
    have hhas : ∀ {name : String}, facet.name = name → hasFacet name [facet] := fun hname =>
      ⟨facet, List.mem_singleton_self _, not_not.mp hns, hname, by rw [hvalue]; rfl⟩
    dsimp only at h ⊢
    split at h
    · next hname =>
      rw [if_pos hname]
      obtain ⟨a, mid, hpush, hpure⟩ := Stateful.bind_eq_ok.mp h
      obtain ⟨rfl, rfl⟩ := Stateful.pure_eq_ok.mp hpure
      exact addFacet_enumeration hextends hfits (hvalues (hhas hname)) hpush
    next hvaluesName =>
    rw [if_neg hvaluesName]
    split at h
    · next hname =>
      rw [if_pos hname]
      cases hsource : xsdPatternToJs value.toList place with
      | error refusal => rw [hsource] at h; cases h
      | ok source =>
        rw [hsource] at h
        rw [xsdPatternToJs_place hsource]
        obtain ⟨a, mid, hpush, hpure⟩ := Stateful.bind_eq_ok.mp h
        obtain ⟨rfl, rfl⟩ := Stateful.pure_eq_ok.mp hpure
        exact addFacet_pattern hextends hfits (hpatterns (hhas hname)) hpush
    next hpatternName =>
    rw [if_neg hpatternName]
    cases hfacet : facetOf facet.name with
    | none =>
      rw [hfacet] at h
      obtain ⟨rfl, rfl⟩ := Stateful.pure_eq_ok.mp h
      exact hsame
    | some one =>
      rw [hfacet] at h
      obtain ⟨rfl, rfl⟩ := Stateful.pure_eq_ok.mp h
      exact ⟨rfl, hextends, ⟨hfits.enumeration, hfits.patterns, hfits.apart⟩, rfl, id, id⟩

theorem hasFacet_cons {name : String} {facet : XmlNode} {rest : List XmlNode} :
    hasFacet name (facet :: rest) ↔ hasFacet name [facet] ∨ hasFacet name rest := by
  simp only [hasFacet, List.mem_cons, List.not_mem_nil, or_false, exists_eq_left]
  constructor
  · rintro ⟨child, rfl | hmem, h⟩
    · exact Or.inl h
    · exact Or.inr ⟨child, hmem, h⟩
  · rintro (h | ⟨child, hmem, h⟩)
    · exact ⟨facet, Or.inl rfl, h⟩
    · exact ⟨child, Or.inr hmem, h⟩

theorem foldlM_addFacet {place : String} {children : List XmlNode} {s s' : State}
    {facets' : Facets Nat} (hextends : Extends old s.arrays) (hfits : Fits s.arrays facets)
    (hvalues : hasFacet "enumeration" children → Own old facets.enumeration)
    (hpatterns : hasFacet "pattern" children → Own old facets.patterns)
    (h : children.foldlM (addFacet place) facets s = .ok (facets', s')) :
    Added old s facets facets' s' (children.foldlM withFacet (facets.freeze s.arrays)) := by
  induction children generalizing s facets with
  | nil =>
    obtain ⟨rfl, rfl⟩ := Stateful.pure_eq_ok.mp h
    exact ⟨rfl, hextends, hfits, rfl, id, id⟩
  | cons facet rest ih =>
    rw [List.foldlM_cons] at h
    obtain ⟨next, mid, hfacet, hrest⟩ := Stateful.bind_eq_ok.mp h
    have hfirst := addFacet_spec hextends hfits (fun hone => hvalues (hasFacet_cons.mpr (Or.inl hone)))
      (fun hone => hpatterns (hasFacet_cons.mpr (Or.inl hone))) hfacet
    have hthen := ih hfirst.kept hfirst.fits
      (fun hmore => hfirst.values (hvalues (hasFacet_cons.mpr (Or.inr hmore))))
      (fun hmore => hfirst.patterns (hpatterns (hasFacet_cons.mpr (Or.inr hmore)))) hrest
    refine ⟨?_, hthen.kept, hthen.fits, ?_, hthen.values ∘ hfirst.values,
      hthen.patterns ∘ hfirst.patterns⟩
    · rw [hthen.store, hfirst.store]
    · rw [List.foldlM_cons, hfirst.result]
      exact hthen.result

end Apim.Xsd
