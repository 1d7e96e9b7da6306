import Apim.Lib.Throwing
import Apim.Shared.JsonSchema
import Mathlib.Logic.Relation

/-!
# The references of a document's schemas

What the schemas of a document refer to, and which of them are refused for what they have or for what a
component they refer to has. The compiled form of a schema is what a compilation of it returns, and its
references are the names of the components the schema refers to.
-/

namespace Apim.JsonSchema
open Overlay Throwing

/-! ### References -/

def subschemas (member : String × Json) : List Json :=
  let (keyword, value) := member
  if keyword = "properties" ∨ keyword = "patternProperties" then
    match value with
    | .obj members => members.map (·.2)
    | _ => []
  else if ["additionalProperties", "propertyNames", "not", "if", "then", "else", "contains"].contains keyword then
    [value]
  else if keyword = "items" then
    match value with
    | .arr items => items
    | value => [value]
  else if ["prefixItems", "allOf", "anyOf", "oneOf"].contains keyword then
    match value with
    | .arr items => items
    | _ => []
  else []

inductive Mentions : Json → String → Prop
  | here {members : List (String × Json)} {pointer : String} (h : members.lookup "$ref" = some (.str pointer)) :
    Mentions (.obj members) pointer
  | inside {members : List (String × Json)} {member : String × Json} {sub : Json} {pointer : String}
    (hmember : member ∈ members) (hsub : sub ∈ subschemas member) (h : Mentions sub pointer) :
    Mentions (.obj members) pointer

variable (options : CompileOptions)

def Refers (pointer other : String) : Prop :=
  ∃ target, resolvePointer options.components pointer = some target ∧ Mentions target other

def Reaches (schema : Json) (pointer : String) : Prop :=
  ∃ first, Mentions schema first ∧ Relation.ReflTransGen (Refers options) first pointer

/-! ### What is refused -/

/-- `lintPattern` finds nothing wrong with the pattern, wherever it stands. -/
def Linted (pattern : String) : Prop := ∀ place, options.lintPattern pattern place = []

def types : Json → List Json
  | .arr items => items
  | value => [value]

inductive BadMember : String × Json → Prop
  | refused {keyword : String} {value : Json} (h : (REFUSED.lookup keyword).isSome) : BadMember (keyword, value)
  | type {value t : Json} (ht : t ∈ types value)
    (hname : ∀ name, t = .str name → ¬(SIMPLE_TYPES.contains name = true) ∧ name ≠ "file") : BadMember ("type", value)
  | notObject {keyword : String} {value : Json} (h : keyword = "properties" ∨ keyword = "patternProperties")
    (hvalue : ∀ members, value ≠ .obj members) : BadMember (keyword, value)
  | property {members : List (String × Json)} {member : String × Json} (h : member ∈ members)
    (hpattern : ¬Linted options member.1) : BadMember ("patternProperties", .obj members)
  | notArray {keyword : String} {value : Json}
    (h : keyword ∈ ["prefixItems", "allOf", "anyOf", "oneOf", "required", "enum"])
    (hvalue : ∀ items, value ≠ .arr items) : BadMember (keyword, value)
  | notString {value : Json} (hvalue : ∀ pattern, value ≠ .str pattern) : BadMember ("pattern", value)
  | pattern {pattern : String} (h : ¬Linted options pattern) : BadMember ("pattern", .str pattern)

inductive Faulty : Json → Nat → Prop
  | deep {schema : Json} {depth : Nat} (h : options.maxDepth < depth) : Faulty schema depth
  | shape {schema : Json} {depth : Nat} (hbool : ∀ b, schema ≠ .bool b) (hobj : ∀ members, schema ≠ .obj members) :
    Faulty schema depth
  | outside {members : List (String × Json)} {ref : String} {depth : Nat}
    (h : members.lookup "$ref" = some (.str ref)) (houtside : ¬"#/".isPrefixOf ref) : Faulty (.obj members) depth
  | unresolved {members : List (String × Json)} {ref : String} {depth : Nat}
    (h : members.lookup "$ref" = some (.str ref)) (hnone : resolvePointer options.components ref = none) :
    Faulty (.obj members) depth
  | component {members : List (String × Json)} {ref : String} {target : Json} {depth : Nat}
    (h : members.lookup "$ref" = some (.str ref)) (htarget : resolvePointer options.components ref = some target)
    (hfaulty : Faulty target 0) : Faulty (.obj members) depth
  | member {members : List (String × Json)} {member : String × Json} {depth : Nat} (h : member ∈ members)
    (hbad : BadMember options member) : Faulty (.obj members) depth
  | inside {members : List (String × Json)} {member : String × Json} {sub : Json} {depth : Nat}
    (hmember : member ∈ members) (hsub : sub ∈ subschemas member) (h : Faulty sub (depth + 1)) :
    Faulty (.obj members) depth

/-! ### The compiled form -/

def Named (c : SchemaCompiler) : Prop :=
  ∀ pointer name, c.byComponent.lookup pointer = some name → name = componentName pointer

def Form (schema node : Json) : Prop :=
  ∃ calls place depth c c', Named c ∧ outcome (compile options calls schema place depth) c = (.ok node, c')

def Translates (schema node : Json) : Prop :=
  ∀ name, Mentions node name → ∃ pointer, Mentions schema pointer ∧ name = componentName pointer

variable {options}

theorem Reaches.inside {members : List (String × Json)} {member : String × Json} {sub : Json} {pointer : String}
    (hmember : member ∈ members) (hsub : sub ∈ subschemas member) (h : Reaches options sub pointer) :
    Reaches options (.obj members) pointer := by
  obtain ⟨first, hmentions, hto⟩ := h
  exact ⟨first, .inside hmember hsub hmentions, hto⟩

/-! ### The members of a node -/

variable {key : String}

theorem lookup_setMember {other : String} (h : other ≠ key) (out : List (String × Json))
    (value : Json) : (setMember out key value).lookup other = out.lookup other := by
  have hkey : (other == key) = false := beq_false_of_ne h
  unfold setMember
  split
  next h' =>
    clear h'
    induction out with
    | nil => rfl
    | cons member out ih =>
      obtain ⟨name, old⟩ := member
      rw [List.map_cons]
      by_cases hname : name = key
      · subst hname
        rw [if_pos (beq_self_eq_true _), List.lookup_cons, List.lookup_cons, hkey, ih]
      · rw [if_neg (by simpa using hname), List.lookup_cons, List.lookup_cons, ih]
  next h' =>
    clear h'
    induction out with
    | nil => rw [List.nil_append, List.lookup_cons, hkey]
    | cons member out ih =>
      obtain ⟨name, old⟩ := member
      rw [List.cons_append, List.lookup_cons, List.lookup_cons, ih]

variable {out : List (String × Json)}

theorem mem_setMember {value : Json} {member : String × Json} (h : member ∈ setMember out key value) :
    member ∈ out ∨ member = (key, value) := by
  unfold setMember at h
  split at h
  next =>
    obtain ⟨source, hsource, rfl⟩ := List.mem_map.mp h
    split
    · exact .inr rfl
    · exact .inl hsource
  next =>
    obtain h | h := List.mem_append.mp h
    · exact .inl h
    · exact .inr (List.mem_singleton.mp h)

theorem lookup_dropMember {other : String} (h : other ≠ key) (out : List (String × Json)) :
    (dropMember out key).lookup other = out.lookup other := by
  induction out with
  | nil => rfl
  | cons member out ih =>
    obtain ⟨name, old⟩ := member
    rw [dropMember, List.filter_cons, List.lookup_cons]
    by_cases hname : name = key
    · subst hname
      rw [if_neg (by simp), beq_false_of_ne h]
      exact ih
    · rw [if_pos (by simpa using hname), List.lookup_cons]
      rw [dropMember] at ih
      rw [ih]

variable {name : String}

theorem mentions_setMember {value : Json} (hkey : "$ref" ≠ key)
    (h : Mentions (.obj (setMember out key value)) name) :
    Mentions (.obj out) name ∨ ∃ sub ∈ subschemas (key, value), Mentions sub name := by
  cases h with
  | here h =>
    rw [lookup_setMember hkey] at h
    exact .inl (.here h)
  | inside hmember hsub h =>
    obtain hmember | rfl := mem_setMember hmember
    · exact .inl (.inside hmember hsub h)
    · exact .inr ⟨_, hsub, h⟩

theorem mentions_dropMember (hkey : "$ref" ≠ key) (h : Mentions (.obj (dropMember out key)) name) :
    Mentions (.obj out) name := by
  cases h with
  | here h =>
    rw [lookup_dropMember hkey] at h
    exact .here h
  | inside hmember hsub h => exact .inside (List.mem_of_mem_filter hmember) hsub h

theorem mentions_plain {value : Json} (hkey : "$ref" ≠ key) (hplain : subschemas (key, value) = [])
    (h : Mentions (.obj (setMember out key value)) name) : Mentions (.obj out) name := by
  obtain h | ⟨sub, hsub, -⟩ := mentions_setMember hkey h
  · exact h
  · rw [hplain] at hsub
    cases hsub

theorem mentions_exclusiveBound {exclusive limit : String} (hexclusive : "$ref" ≠ exclusive)
    (hlimit : "$ref" ≠ limit) (hplain : ∀ value, subschemas (exclusive, value) = [])
    (h : Mentions (.obj (exclusiveBound exclusive limit out)) name) : Mentions (.obj out) name := by
  unfold exclusiveBound at h
  split at h
  · split at h
    · exact mentions_plain hexclusive (hplain _) (mentions_dropMember hlimit h)
    · exact mentions_dropMember hexclusive h
  · exact mentions_dropMember hexclusive h
  · exact h

theorem mentions_resolveDialect {input : List (String × Json)}
    (h : Mentions (.obj (resolveDialect options input out)) name) : Mentions (.obj out) name := by
  unfold resolveDialect at h
  split at h
  · exact h
  · have hbounds := mentions_exclusiveBound (by decide) (by decide) (fun _ => rfl)
      (mentions_exclusiveBound (by decide) (by decide) (fun _ => rfl) h)
    split at hbounds
    · split at hbounds
      · exact hbounds
      · exact mentions_plain (by decide) rfl hbounds
    · exact mentions_plain (by decide) rfl hbounds
    · exact hbounds

end Apim.JsonSchema
