import Apim.Shared.JsNumber
import Apim.Shared.SchemaGraph

/-!
# The bundle of a compiler

What holds of the table of definitions after any sequence of schemas, some of which are refused: a component
that is in the memo is defined by its compiled form, and so is every component it refers to. A component is in
the memo before its body is compiled and leaves it when the body is refused; another component that has come
to refer to it by then keeps the reference. So the invariant is that of a graph without refused components on
cycles, whose names are apart (`hoisted_intact`).
-/

namespace Apim.JsonSchema
open Overlay Throwing Relation

variable {options : CompileOptions}

/-! ### The invariant -/

def Defined (options : CompileOptions) (c : SchemaCompiler) (pointer : String) : Prop :=
  ∃ target node, resolvePointer options.components pointer = some target ∧
    c.defs.lookup (componentName pointer) = some node ∧ Form options target node ∧ Translates target node ∧
      ∀ other, Mentions target other → other ∈ c.byComponent

def Apart (options : CompileOptions) (reached : String → Prop) (c : SchemaCompiler) : Prop :=
  ∀ p q, reached p → (reached q ∨ q ∈ c.byComponent) → (resolvePointer options.components p).isSome →
    (resolvePointer options.components q).isSome → componentName p = componentName q → p = q

structure Consistent (options : CompileOptions) (reached : String → Prop) (pending : List String)
    (c : SchemaCompiler) : Prop where
  named : Named c
  rooted : ∀ p ∈ c.byComponent, "#/".isPrefixOf p
  resolved : ∀ p ∈ c.byComponent, (resolvePointer options.components p).isSome
  apart : Apart options reached c
  defined : ∀ p ∈ c.byComponent, p ∉ pending → Defined options c p

structure Grown (added : String → Prop) (c c' : SchemaCompiler) : Prop where
  kept : ∀ p ∈ c.byComponent, p ∈ c'.byComponent
  new : ∀ p ∈ c'.byComponent, p ∈ c.byComponent ∨ added p
  counter : c'.counter = c.counter
  frame : ∀ name, (∀ p, "#/".isPrefixOf p → name ≠ componentName p) → c'.defs.lookup name = c.defs.lookup name

theorem Grown.refl (added : String → Prop) (c : SchemaCompiler) : Grown added c c :=
  ⟨fun _ h => h, fun _ h => .inl h, rfl, fun _ _ => rfl⟩

theorem Grown.trans {added : String → Prop} {c c' c'' : SchemaCompiler} (h : Grown added c c')
    (h' : Grown added c' c'') : Grown added c c'' where
  kept p hp := h'.kept p (h.kept p hp)
  new p hp := (h'.new p hp).elim (h.new p) .inr
  counter := h'.counter.trans h.counter
  frame name hname := (h'.frame name hname).trans (h.frame name hname)

theorem Grown.mono {added wider : String → Prop} (hadded : ∀ p, added p → wider p) {c c' : SchemaCompiler}
    (h : Grown added c c') : Grown wider c c' :=
  ⟨h.kept, fun p hp => (h.new p hp).imp_right (hadded p), h.counter, h.frame⟩

def contract (options : CompileOptions) (reached : String → Prop) (pending : List String) (added : String → Prop)
    (fault : Prop) : Contract SchemaCompiler CompileError where
  inv := Consistent options reached pending
  rel := Grown added
  thrown c e c' := e = .stack ∨ (Consistent options reached pending c' ∧ Grown added c c' ∧ fault)
  refl := Grown.refl added
  trans := Grown.trans
  extend h := Or.imp_right fun ⟨hc, hgrown, hfault⟩ => ⟨hc, h.trans hgrown, hfault⟩

variable {reached : String → Prop} {pending : List String} {added wider : String → Prop} {fault worse : Prop}
  {c : SchemaCompiler} {α : Type}

theorem Meets.widen {m : CompileM α} {Q R : α → SchemaCompiler → Prop}
    (hm : Meets (contract options reached pending added fault) c m Q) (hadded : ∀ p, added p → wider p)
    (hfault : fault → worse) (hR : ∀ a t, Q a t → R a t) :
    Meets (contract options reached pending wider worse) c m R :=
  hm.weaken (fun _ h => h) (fun _ h => h.mono hadded)
    (fun _ _ => Or.imp_right fun ⟨hc, hgrown, h⟩ => ⟨hc, hgrown.mono hadded, hfault h⟩) fun a t _ => hR a t

theorem Meets.refuse {e : CompileError} {Q : α → SchemaCompiler → Prop} (hc : Consistent options reached pending c)
    (hfault : fault) : Meets (contract options reached pending added fault) c (throw e) Q :=
  .throw (.inr ⟨hc, .refl added c, hfault⟩)

def Compiles (options : CompileOptions) (reached : String → Prop) (compile : Json → String → Nat → CompileM Json) :
    Prop :=
  ∀ (pending : List String) (schema : Json) (place : String) (depth : Nat) (c : SchemaCompiler),
    (∀ p, Reaches options schema p → reached p) → Consistent options reached pending c →
      Meets (contract options reached pending (Reaches options schema) (Faulty options schema depth)) c
        (compile schema place depth) fun node c' =>
          (∀ p, Mentions schema p → p ∈ c'.byComponent) ∧ Translates schema node ∧ ∃ members, node = .obj members

/-! ### Components -/

def Spared (options : CompileOptions) (reached : String → Prop) : Prop :=
  ∀ p target, reached p → resolvePointer options.components p = some target →
    TransGen (Refers options) p p → ¬Faulty options target 0

def BadComponent (options : CompileOptions) (pointer : String) : Prop :=
  ∀ target, resolvePointer options.components pointer = some target → Faulty options target 0

theorem reaches_target {pointer other : String} {target : Json}
    (htarget : resolvePointer options.components pointer = some target) (h : Reaches options target other) :
    TransGen (Refers options) pointer other := by
  obtain ⟨first, hmentions, hto⟩ := h
  exact .head' ⟨target, htarget, hmentions⟩ hto

theorem defined_of_defs {c' : SchemaCompiler} {p : String} (h : Defined options c p)
    (hdefs : c'.defs.lookup (componentName p) = c.defs.lookup (componentName p))
    (hkept : ∀ other target, resolvePointer options.components p = some target → Mentions target other →
      other ∈ c.byComponent → other ∈ c'.byComponent) : Defined options c' p := by
  obtain ⟨target, form, htarget, hlookup, hform, htranslates, hmentions⟩ := h
  exact ⟨target, form, htarget, hdefs.trans hlookup, hform, htranslates,
    fun other hother => hkept other target htarget hother (hmentions other hother)⟩

theorem Consistent.enter (hc : Consistent options reached pending c) {pointer : String}
    (hrooted : "#/".isPrefixOf pointer) (hreached : reached pointer)
    (hsome : (resolvePointer options.components pointer).isSome) (hnew : pointer ∉ c.byComponent) (node : Json) :
    Consistent options reached (pointer :: pending)
      { c with
        byComponent := c.byComponent.insert pointer (componentName pointer)
        defs := c.defs.insert (componentName pointer) node } where
  named p name h := by
    by_cases hp : p = pointer
    · subst hp
      rw [AList.lookup_insert] at h
      exact (Option.some.inj h).symm
    · rw [AList.lookup_insert_ne hp] at h
      exact hc.named p name h
  rooted p hp := by
    obtain rfl | hp := (AList.mem_insert _).mp hp
    · exact hrooted
    · exact hc.rooted p hp
  resolved p hp := by
    obtain rfl | hp := (AList.mem_insert _).mp hp
    · exact hsome
    · exact hc.resolved p hp
  apart p q hp hq hsomep hsomeq heq := by
    refine hc.apart p q hp ?_ hsomep hsomeq heq
    obtain hq | hq := hq
    · exact .inl hq
    · obtain rfl | hq := (AList.mem_insert _).mp hq
      · exact .inl hreached
      · exact .inr hq
  defined p hp hpending := by
    obtain ⟨hne, hpending⟩ := not_or.mp (fun h => hpending (List.mem_cons.mpr h))
    have hold : p ∈ c.byComponent := ((AList.mem_insert _).mp hp).resolve_left hne
    refine defined_of_defs (hc.defined p hold hpending) (AList.lookup_insert_ne fun heq => hne ?_)
      fun other _ _ _ h => (AList.mem_insert _).mpr (.inr h)
    exact (hc.apart pointer p hreached (.inr hold) hsome (hc.resolved p hold) heq.symm).symm

theorem Consistent.settle {pointer : String} {target node : Json}
    (hc : Consistent options reached (pointer :: pending) c) (hreached : reached pointer)
    (htarget : resolvePointer options.components pointer = some target) (hform : Form options target node)
    (htranslates : Translates target node) (hmentions : ∀ p, Mentions target p → p ∈ c.byComponent) :
    Consistent options reached pending { c with defs := c.defs.insert (componentName pointer) node } where
  named := hc.named
  rooted := hc.rooted
  resolved := hc.resolved
  apart := hc.apart
  defined p hp hpending := by
    by_cases heq : p = pointer
    · subst heq
      exact ⟨target, node, htarget, AList.lookup_insert _, hform, htranslates, hmentions⟩
    · have hsome : (resolvePointer options.components pointer).isSome := by rw [htarget]; rfl
      refine defined_of_defs (hc.defined p hp (List.not_mem_cons_of_ne_of_not_mem heq hpending))
        (AList.lookup_insert_ne fun hname => heq ?_) fun _ _ _ _ h => h
      exact (hc.apart pointer p hreached (.inr hp) hsome (hc.resolved p hp) hname.symm).symm

theorem Consistent.leave {pointer : String} (hc : Consistent options reached (pointer :: pending) c)
    (hreached : reached pointer) (hsome : (resolvePointer options.components pointer).isSome)
    (hfree : ∀ p ∈ c.byComponent, p ∉ pointer :: pending → ¬Refers options p pointer) :
    Consistent options reached pending
      { c with
        byComponent := c.byComponent.erase pointer
        defs := c.defs.erase (componentName pointer) } where
  named p name h := by
    by_cases hp : p = pointer
    · subst hp
      rw [AList.lookup_erase] at h
      cases h
    · rw [AList.lookup_erase_ne hp] at h
      exact hc.named p name h
  rooted p hp := hc.rooted p (AList.mem_erase.mp hp).2
  resolved p hp := hc.resolved p (AList.mem_erase.mp hp).2
  apart p q hp hq := hc.apart p q hp (hq.imp_right fun hq => (AList.mem_erase.mp hq).2)
  defined p hp hpending := by
    obtain ⟨hne, hold⟩ : p ≠ pointer ∧ p ∈ c.byComponent := AList.mem_erase.mp hp
    have hopen : p ∉ pointer :: pending := List.not_mem_cons_of_ne_of_not_mem hne hpending
    refine defined_of_defs (hc.defined p hold hopen) (AList.lookup_erase_ne fun hname => hne ?_) ?_
    · exact (hc.apart pointer p hreached (.inr hold) hsome (hc.resolved p hold) hname.symm).symm
    · intro other target htarget hmentions hother
      refine AList.mem_erase.mpr ⟨?_, hother⟩
      rintro rfl
      exact hfree p hold hopen ⟨target, htarget, hmentions⟩

def entered (c : SchemaCompiler) (pointer : String) : SchemaCompiler :=
  { c with
    byComponent := c.byComponent.insert pointer (componentName pointer)
    defs := c.defs.insert (componentName pointer) (.obj []) }

theorem Grown.kept_entered {added : String → Prop} {pointer : String} {t : SchemaCompiler}
    (h : Grown added (entered c pointer) t) : ∀ p ∈ c.byComponent, p ∈ t.byComponent :=
  fun p hp => h.kept p ((AList.mem_insert _).mpr (.inr hp))

theorem Grown.new_entered {pointer : String} {target : Json} {t : SchemaCompiler}
    (htarget : resolvePointer options.components pointer = some target)
    (h : Grown (Reaches options target) (entered c pointer) t) :
    ∀ p ∈ t.byComponent, p ∈ c.byComponent ∨ ReflTransGen (Refers options) pointer p := by
  intro p hp
  obtain hp | hp := h.new p hp
  · obtain rfl | hp := (AList.mem_insert _).mp hp
    · exact .inr .refl
    · exact .inl hp
  · exact .inr (reaches_target htarget hp).to_reflTransGen

theorem Grown.frame_entered {added : String → Prop} {pointer : String} {t : SchemaCompiler}
    (h : Grown added (entered c pointer) t) (hrooted : "#/".isPrefixOf pointer) {name : String}
    (hname : ∀ p, "#/".isPrefixOf p → name ≠ componentName p) : t.defs.lookup name = c.defs.lookup name :=
  (h.frame name hname).trans (AList.lookup_insert_ne (hname pointer hrooted))

theorem outcome_componentDef {compile : Json → String → Nat → CompileM Json} {pointer : String} {target : Json}
    (hlookup : c.byComponent.lookup pointer = none)
    (htarget : resolvePointer options.components pointer = some target) (place : String) :
    outcome (componentDef options compile pointer place) c =
      match outcome (compile target pointer 0) (entered c pointer) with
      | (.ok node, t) =>
        (.ok (componentName pointer), { t with defs := t.defs.insert (componentName pointer) node })
      | (.error e, t) =>
        (.error e,
          { t with byComponent := t.byComponent.erase pointer, defs := t.defs.erase (componentName pointer) }) := by
  unfold componentDef
  rw [outcome_bind_ok (outcome_get c), hlookup]
  simp only [htarget]
  rw [outcome_bind_ok (outcome_modify _ c)]
  cases hresult : outcome (compile target pointer 0) (entered c pointer) with
  | mk result t =>
    cases result with
    | ok node => exact outcome_tryCatch_ok (outcome_bind_ok hresult _) _
    | error e => exact outcome_tryCatch_error (outcome_bind_error hresult _) _

theorem componentDef_meets {calls : Nat} (hcompile : Compiles options reached (compile options calls))
    (hspared : Spared options reached) {pointer : String} (hrooted : "#/".isPrefixOf pointer)
    (hreached : ∀ p, ReflTransGen (Refers options) pointer p → reached p)
    (hc : Consistent options reached pending c) (place : String) :
    Meets (contract options reached pending (ReflTransGen (Refers options) pointer) (BadComponent options pointer)) c
      (componentDef options (compile options calls) pointer place)
      fun name c' => name = componentName pointer ∧ pointer ∈ c'.byComponent := by
  cases hlookup : c.byComponent.lookup pointer with
  | some existing =>
    have hmem : pointer ∈ c.byComponent := AList.lookup_isSome.mp (by rw [hlookup]; rfl)
    refine .get_bind ?_
    rw [hlookup]
    exact Meets.pure hc ⟨hc.named _ _ hlookup, hmem⟩
  | none =>
    have hnew : pointer ∉ c.byComponent := AList.lookup_eq_none.mp hlookup
    cases htarget : resolvePointer options.components pointer with
    | none =>
      have hbad : BadComponent options pointer := by
        intro target h
        rw [htarget] at h
        cases h
      refine .get_bind ?_
      rw [hlookup]
      simp only [htarget]
      exact Meets.refuse hc hbad
    | some target =>
      have hsome : (resolvePointer options.components pointer).isSome := by rw [htarget]; rfl
      have henter : Consistent options reached (pointer :: pending) (entered c pointer) :=
        hc.enter hrooted (hreached _ .refl) hsome hnew (.obj [])
      have hrun := hcompile _ target pointer 0 _ (fun p hp => hreached p (reaches_target htarget hp).to_reflTransGen)
        henter
      have hcomponent := @outcome_componentDef options c (compile options calls) pointer target hlookup htarget place
      cases hresult : outcome (compile options calls target pointer 0) (entered c pointer) with
      | mk result t =>
        rw [hresult] at hcomponent
        cases result with
        | ok node =>
          obtain ⟨ht, hgrown, hmentions, htranslates, -⟩ := hrun.ok hresult
          have hform : Form options target node := ⟨calls, pointer, 0, _, t, henter.named, hresult⟩
          refine .of_ok hcomponent (ht.settle (hreached _ .refl) htarget hform htranslates hmentions)
            ⟨hgrown.kept_entered, fun p hp => Grown.new_entered htarget hgrown p hp, hgrown.counter, fun name hname => ?_⟩ ⟨rfl, ?_⟩
          · exact (AList.lookup_insert_ne (hname pointer hrooted)).trans (hgrown.frame_entered hrooted hname)
          · exact hgrown.kept pointer ((AList.mem_insert _).mpr (.inl rfl))
        | error e =>
          refine .of_error hcomponent ((hrun.error hresult).imp_right ?_)
          rintro ⟨ht, hgrown, hfault⟩
          refine ⟨ht.leave (hreached _ .refl) hsome ?_, ⟨?_, ?_, hgrown.counter, ?_⟩, ?_⟩
          · intro p hp hopen hrefers
            obtain hold | hto := Grown.new_entered htarget hgrown p hp
            · obtain ⟨target', -, htarget', -, -, -, hmentions⟩ := hc.defined p hold fun h =>
                hopen (List.mem_cons_of_mem _ h)
              obtain ⟨target'', htarget'', hpointer⟩ := hrefers
              obtain rfl : target' = target'' := Option.some.inj (htarget'.symm.trans htarget'')
              exact hnew (hmentions pointer hpointer)
            · exact hspared pointer target (hreached _ .refl) htarget (.tail' hto hrefers) hfault
          · intro p hp
            refine AList.mem_erase.mpr ⟨?_, hgrown.kept_entered p hp⟩
            rintro rfl
            exact hnew hp
          · exact fun p hp => Grown.new_entered htarget hgrown p (AList.mem_erase.mp hp).2
          · exact fun name hname => (AList.lookup_erase_ne (hname pointer hrooted)).trans
              (hgrown.frame_entered hrooted hname)
          · intro target' htarget'
            obtain rfl : target = target' := Option.some.inj (htarget.symm.trans htarget')
            exact hfault

/-! ### Keywords -/

def schemaKeywords : List String :=
  ["properties", "patternProperties", "additionalProperties", "propertyNames", "not", "if", "then", "else", "contains",
    "items", "prefixItems", "allOf", "anyOf", "oneOf"]

theorem schemaKeywords_asserted : ∀ keyword ∈ schemaKeywords,
    ¬(keyword = "$ref" ∨ ANNOTATIONS.contains keyword ∨ "x-".isPrefixOf keyword) ∧ ASSERTIONS.contains keyword := by
  decide +kernel

theorem schemaKeywords_cases : ∀ keyword ∈ schemaKeywords,
    (keyword = "properties" ∨ keyword = "patternProperties") ∨
      ["additionalProperties", "propertyNames", "not", "if", "then", "else", "contains"].contains keyword ∨
      keyword = "items" ∨ ["prefixItems", "allOf", "anyOf", "oneOf"].contains keyword := by
  decide

theorem subschemas_plain {keyword : String} (h : keyword ∉ schemaKeywords) (value : Json) :
    subschemas (keyword, value) = [] := by
  simp only [schemaKeywords, List.mem_cons, List.not_mem_nil, or_false, not_or] at h
  simp [subschemas, h]

def Covers (member : String × Json) (c : SchemaCompiler) : Prop :=
  ∀ sub ∈ subschemas member, ∀ p, Mentions sub p → p ∈ c.byComponent

theorem covers_plain {keyword : String} (h : keyword ∉ schemaKeywords) (value : Json) (c : SchemaCompiler) :
    Covers (keyword, value) c := by
  intro sub hsub
  rw [subschemas_plain h] at hsub
  cases hsub

theorem Translates.setMember {schema : Json} {out : List (String × Json)} (h : Translates schema (.obj out))
    {key : String} {value : Json} (hkey : "$ref" ≠ key) (hvalue : ∀ sub ∈ subschemas (key, value), Translates schema sub) :
    Translates schema (.obj (setMember out key value)) := by
  intro name hname
  obtain hname | ⟨sub, hsub, hname⟩ := mentions_setMember hkey hname
  · exact h name hname
  · exact hvalue sub hsub name hname

theorem Translates.inside {members : List (String × Json)} {member : String × Json} {sub node : Json}
    (hmember : member ∈ members) (hsub : sub ∈ subschemas member) (h : Translates sub node) :
    Translates (.obj members) node := by
  intro name hname
  obtain ⟨p, hp, rfl⟩ := h name hname
  exact ⟨p, .inside hmember hsub hp, rfl⟩

section
variable {compile : Json → String → Nat → CompileM Json} {members : List (String × Json)} {depth : Nat}

abbrev schemaContract (options : CompileOptions) (reached : String → Prop) (pending : List String)
    (members : List (String × Json)) (depth : Nat) : Contract SchemaCompiler CompileError :=
  contract options reached pending (Reaches options (.obj members)) (Faulty options (.obj members) depth)

theorem sub_meets (hcompile : Compiles options reached compile)
    (hreached : ∀ p, Reaches options (.obj members) p → reached p) {member : String × Json} (hmember : member ∈ members)
    {sub : Json} (hsub : sub ∈ subschemas member) (place : String) (hc : Consistent options reached pending c) :
    Meets (schemaContract options reached pending members depth) c (compile sub place (depth + 1)) fun node c' =>
      (∀ p, Mentions sub p → p ∈ c'.byComponent) ∧ Translates sub node ∧ ∃ members, node = .obj members :=
  Meets.widen (hcompile pending sub place (depth + 1) c (fun p hp => hreached p (hp.inside hmember hsub)) hc)
    (fun _ hp => hp.inside hmember hsub) (Faulty.inside hmember hsub) fun _ _ h => h

theorem compileItems_meets (hcompile : Compiles options reached compile)
    (hreached : ∀ p, Reaches options (.obj members) p → reached p) {member : String × Json} (hmember : member ∈ members)
    {items : List Json} (hitems : ∀ sub ∈ items, sub ∈ subschemas member) (place : String)
    (hc : Consistent options reached pending c) :
    Meets (schemaContract options reached pending members depth) c (compileItems compile place depth items)
      fun node c' => (∀ sub ∈ items, ∀ p, Mentions sub p → p ∈ c'.byComponent) ∧
        ∃ nodes, node = .arr nodes ∧ ∀ n ∈ nodes, Translates (.obj members) n := by
  have hrows : ∀ row ∈ items.zipIdx, row.1 ∈ items := fun row hrow => List.fst_mem_of_mem_zipIdx hrow
  have hloop := @Meets.mapM _ _ _ _ (schemaContract options reached pending members depth) c items.zipIdx
    (fun row => compile row.1 s!"{place}[{row.2}]" (depth + 1))
    (fun row c' => ∀ p, Mentions row.1 p → p ∈ c'.byComponent) (fun row node => Translates row.1 node)
    (fun row s t hgrown h p hp => hgrown.kept p (h p hp))
    (fun row hrow s hs => (sub_meets hcompile hreached hmember (hitems _ (hrows row hrow)) _ hs).imp
      fun _ _ _ h => ⟨h.1, h.2.1⟩) hc
  refine .bind hloop fun nodes t ht _ hQ => .pure ht ⟨fun sub hsub => ?_, nodes, rfl, fun n hn => ?_⟩
  · obtain ⟨row, hrow, rfl⟩ := List.mem_map.mp ((List.zipIdx_map_fst 0 items).symm ▸ hsub)
    exact hQ.1 row hrow
  · obtain ⟨row, hrow, h⟩ := hQ.2 n hn
    exact h.inside hmember (hitems _ (hrows row hrow))

theorem lint_meets (hc : Consistent options reached pending c) {keyword pattern place patternPlace : String}
    (hbad : ¬Linted options pattern → fault) :
    Meets (contract options reached pending added fault) c (lint options keyword pattern place patternPlace)
      fun _ _ => True := by
  unfold lint
  split
  next => exact .pure hc trivial
  next hne =>
    refine Meets.refuse hc (hbad fun h => ?_)
    exact hne (h patternPlace)

theorem compileType_meets (hc : Consistent options reached pending c) {value : Json} (hmember : ("type", value) ∈ members)
    (place : String) : Meets (schemaContract options reached pending members depth) c (compileType options place value)
      fun _ _ => True := by
  unfold compileType
  refine Meets.filterM (fun t hmem s hs => ?_) hc
  have ht : t ∈ types value := by cases value <;> exact hmem
  split
  next name =>
    split
    next => exact .pure hs trivial
    next hsimple =>
      split
      next => exact .pure hs trivial
      next hfile =>
        refine Meets.refuse hs (.member hmember (.type ht fun name' h => ?_))
        cases h
        exact ⟨hsimple, hfile⟩
  next hstr => exact Meets.refuse hs (.member hmember (.type ht fun name h => absurd h (hstr name)))

theorem set_plain (hc : Consistent options reached pending c) {out : List (String × Json)}
    (hout : Translates (.obj members) (.obj out)) {keyword : String} (hplain : keyword ∉ schemaKeywords)
    (href : "$ref" ≠ keyword) (value stored : Json) :
    Meets (schemaContract options reached pending members depth) c (pure (setMember out keyword stored))
      fun out' c' => Translates (.obj members) (.obj out') ∧ Covers (keyword, value) c' := by
  refine .pure hc ⟨hout.setMember href fun sub hsub => ?_, covers_plain hplain value c⟩
  rw [subschemas_plain hplain] at hsub
  cases hsub

theorem compileKeyword_meets (hcompile : Compiles options reached compile)
    (hreached : ∀ p, Reaches options (.obj members) p → reached p) {member : String × Json} (hmember : member ∈ members)
    {out : List (String × Json)} (hout : Translates (.obj members) (.obj out)) (place : String)
    (hc : Consistent options reached pending c) :
    Meets (schemaContract options reached pending members depth) c (compileKeyword options compile place depth out member)
      fun out' c' => Translates (.obj members) (.obj out') ∧ Covers member c' := by
  obtain ⟨keyword, value⟩ := member
  unfold compileKeyword
  dsimp only
  refine .ite (fun hskip => ?_) fun hskip => ?_
  · exact .pure hc ⟨hout, covers_plain (fun hmem => (schemaKeywords_asserted keyword hmem).1 hskip) value c⟩
  cases hrefused : REFUSED.lookup keyword with
  | some reason => exact Meets.refuse hc (.member hmember (.refused (by rw [hrefused]; rfl)))
  | none =>
  dsimp only
  refine .ite (fun hunknown => ?_) fun _ => .ite (fun htype => ?_) fun _ => .ite (fun hmaps => ?_) fun hmaps =>
    .ite (fun hsingle => ?_) fun hsingle => .ite (fun hitems => ?_) fun hitems => .ite (fun hlists => ?_) fun hlists =>
    .ite (fun hpattern => ?_) fun _ => .ite (fun hrequired => ?_) fun _ => .ite (fun henum => ?_) fun _ => ?_
  · exact .pure hc ⟨hout, covers_plain (fun hmem => hunknown (schemaKeywords_asserted keyword hmem).2) value c⟩
  · subst htype
    refine .bind (compileType_meets hc hmember place) fun kept t ht _ _ => ?_
    split
    next => exact .pure ht ⟨hout, covers_plain (by decide) value t⟩
    next => exact set_plain ht hout (by decide) (by decide) value _
  · have hsubs : ∀ subs, subschemas (keyword, .obj subs) = subs.map (·.2) := fun subs => by
      unfold subschemas
      exact if_pos hmaps
    have href : "$ref" ≠ keyword := by rintro rfl; exact absurd hmaps (by decide)
    split
    next subs =>
      have hsub : ∀ row ∈ subs, row.2 ∈ subschemas (keyword, .obj subs) := fun row hrow => by
        rw [hsubs]
        exact List.mem_map.mpr ⟨row, hrow, rfl⟩
      have hstable : ∀ (row : String × Json) s t, Grown (Reaches options (.obj members)) s t →
          (∀ p, Mentions row.2 p → p ∈ s.byComponent) → ∀ p, Mentions row.2 p → p ∈ t.byComponent :=
        fun row s t hgrown h p hp => hgrown.kept p (h p hp)
      have hone : ∀ row ∈ subs, ∀ place' s, Consistent options reached pending s →
          Meets (schemaContract options reached pending members depth) s
            (do let node ← compile row.2 place' (depth + 1); return (row.1, node))
            fun node t => (∀ p, Mentions row.2 p → p ∈ t.byComponent) ∧ Translates row.2 node.2 := by
        intro row hrow place' s hs
        refine .bind (sub_meets hcompile hreached hmember (hsub row hrow) place' hs) fun node t ht _ hQ => ?_
        exact .pure ht ⟨hQ.1, hQ.2.1⟩
      refine .bind (Meets.mapM hstable (fun row hrow s hs => ?_) hc :
        Meets _ c _ fun (nodes : List (String × Json)) t => (∀ row ∈ subs, ∀ p, Mentions row.2 p → p ∈ t.byComponent) ∧
          ∀ node ∈ nodes, ∃ row ∈ subs, Translates row.2 node.2) fun nodes t ht _ hQ => ?_
      · split
        next hpatterns =>
          subst hpatterns
          refine .bind (lint_meets hs fun h => .member hmember (.property hrow h)) fun _ t ht _ _ => ?_
          exact hone row hrow _ t ht
        next => exact hone row hrow _ s hs
      · refine .pure ht ⟨hout.setMember href fun sub h => ?_, fun sub h => ?_⟩
        · rw [hsubs] at h
          obtain ⟨node, hnode, rfl⟩ := List.mem_map.mp h
          obtain ⟨row, hrow, h⟩ := hQ.2 node hnode
          exact h.inside hmember (hsub row hrow)
        · rw [hsubs] at h
          obtain ⟨row, hrow, rfl⟩ := List.mem_map.mp h
          exact hQ.1 row hrow
    next hvalue => exact Meets.refuse hc (.member hmember (.notObject hmaps fun subs h => hvalue subs h))
  · have hsubs : ∀ v, subschemas (keyword, v) = [v] := fun v => by
      unfold subschemas
      exact (if_neg hmaps).trans (if_pos hsingle)
    have href : "$ref" ≠ keyword := by rintro rfl; exact absurd hsingle (by decide)
    have hsub : value ∈ subschemas (keyword, value) := by rw [hsubs]; exact List.mem_singleton_self value
    refine .bind (sub_meets hcompile hreached hmember hsub _ hc) fun node t ht _ hQ => ?_
    obtain ⟨hcovers, htranslates, -⟩ := hQ
    refine .pure ht ⟨hout.setMember href fun sub h => ?_, fun sub h => ?_⟩
    · rw [hsubs, List.mem_singleton] at h
      subst h
      exact htranslates.inside hmember hsub
    · rw [hsubs, List.mem_singleton] at h
      subst h
      exact hcovers
  · subst hitems
    split
    next items =>
      refine .bind (compileItems_meets hcompile hreached hmember (fun _ h => h) _ hc) fun node t ht _ hQ => ?_
      obtain ⟨hcovers, nodes, rfl, htranslates⟩ := hQ
      exact .pure ht ⟨hout.setMember (by decide) htranslates, hcovers⟩
    next hvalue =>
      have hsub : value ∈ subschemas ("items", value) := by
        cases value with
        | arr items => exact absurd rfl (hvalue items)
        | _ => exact List.mem_singleton_self _
      refine .bind (sub_meets hcompile hreached hmember hsub _ hc) fun node t ht _ hQ => ?_
      obtain ⟨hcovers, htranslates, subs, rfl⟩ := hQ
      refine .pure ht ⟨hout.setMember (by decide) fun sub h => ?_, fun sub h => ?_⟩
      · obtain rfl : sub = .obj subs := List.mem_singleton.mp h
        exact htranslates.inside hmember hsub
      · have heq : sub = value := by
          cases value with
          | arr items => exact absurd rfl (hvalue items)
          | _ => exact List.mem_singleton.mp h
        subst heq
        exact hcovers
  · have hsubs : ∀ items, subschemas (keyword, .arr items) = items := fun items => by
      unfold subschemas
      exact (if_neg hmaps).trans ((if_neg hsingle).trans ((if_neg hitems).trans (if_pos hlists)))
    have href : "$ref" ≠ keyword := by rintro rfl; exact absurd hlists (by decide)
    split
    next items =>
      refine .bind (compileItems_meets hcompile hreached hmember (fun _ h => by rw [hsubs]; exact h) _ hc)
        fun node t ht _ hQ => ?_
      obtain ⟨hcovers, nodes, rfl, htranslates⟩ := hQ
      refine .pure ht ⟨hout.setMember href fun sub h => ?_, fun sub h => ?_⟩
      · rw [hsubs] at h
        exact htranslates sub h
      · rw [hsubs] at h
        exact hcovers sub h
    next hvalue =>
      refine Meets.refuse hc (.member hmember (.notArray ?_ fun items h => hvalue items h))
      have hmem : keyword ∈ ["prefixItems", "allOf", "anyOf", "oneOf"] := List.contains_iff_mem.mp hlists
      exact List.mem_append_left ["required", "enum"] hmem
  · subst hpattern
    split
    next pattern =>
      refine .bind (lint_meets hc fun h => .member hmember (.pattern h)) fun _ t ht _ _ => ?_
      exact set_plain ht hout (by decide) (by decide) _ _
    next hvalue => exact Meets.refuse hc (.member hmember (.notString fun pattern h => hvalue pattern h))
  · subst hrequired
    split
    next items => exact set_plain hc hout (by decide) (by decide) _ _
    next hvalue => exact Meets.refuse hc (.member hmember (.notArray (by decide) fun items h => hvalue items h))
  · subst henum
    split
    next items => exact set_plain hc hout (by decide) (by decide) _ _
    next hvalue => exact Meets.refuse hc (.member hmember (.notArray (by decide) fun items h => hvalue items h))
  · have hplain : keyword ∉ schemaKeywords := fun hmem => by
      obtain h | h | h | h := schemaKeywords_cases keyword hmem
      · exact hmaps h
      · exact hsingle h
      · exact hitems h
      · exact hlists h
    exact set_plain hc hout hplain (fun h => hskip (.inl h.symm)) value value

end

theorem translates_nil (schema : Json) : Translates schema (.obj []) := by
  intro name h
  cases h with
  | here h => cases h
  | inside hmember _ _ => cases hmember

theorem compileRef_meets {calls depth : Nat} {members : List (String × Json)}
    (hcompile : Compiles options reached (compile options calls)) (hspared : Spared options reached)
    (hreached : ∀ p, Reaches options (.obj members) p → reached p) (place : String)
    (hc : Consistent options reached pending c) :
    Meets (schemaContract options reached pending members depth) c
      (compileRef options (compile options calls) members place) fun ref c' =>
        Translates (.obj members) (.obj ref) ∧
          ∀ p, members.lookup "$ref" = some (.str p) → p ∈ c'.byComponent := by
  unfold compileRef
  split
  next ref hlookup =>
    have hfirst : ∀ p, ReflTransGen (Refers options) ref p → Reaches options (.obj members) p :=
      fun p hp => ⟨ref, .here hlookup, hp⟩
    split
    next houtside => exact Meets.refuse hc (.outside hlookup houtside)
    next hrooted =>
      have hcomponent := componentDef_meets hcompile hspared (not_not.mp hrooted) (fun p hp => hreached p (hfirst p hp)) hc
        place
      have hfault : BadComponent options ref → Faulty options (.obj members) depth := by
        intro hbad
        cases htarget : resolvePointer options.components ref with
        | none => exact .unresolved hlookup htarget
        | some target => exact .component hlookup htarget (hbad target htarget)
      refine .bind (Meets.widen hcomponent hfirst hfault fun _ _ h => h) fun name t ht _ hQ => ?_
      obtain ⟨rfl, hmem⟩ := hQ
      refine .pure ht ⟨fun name h => ?_, fun p hp => ?_⟩
      · cases h with
        | here h => exact ⟨ref, .here hlookup, (Json.str.inj (Option.some.inj h)).symm⟩
        | inside hmember hsub _ =>
          obtain rfl := List.mem_singleton.mp hmember
          cases hsub
      · rw [hlookup] at hp
        cases hp
        exact hmem
  next hnone =>
    refine .pure hc ⟨translates_nil _, fun p hp => absurd hp (hnone p)⟩

theorem compile_meets (hspared : Spared options reached) (calls : Nat) :
    Compiles options reached (compile options calls) := by
  induction calls with
  | zero => exact fun pending schema place depth c _ hc => .throw (.inl rfl)
  | succ calls ih =>
    intro pending schema place depth c hreached hc
    unfold compile
    dsimp only
    by_cases hdeep : options.maxDepth < depth
    · rw [if_pos hdeep]
      refine .bind (Meets.refuse hc (.deep hdeep) : Meets _ c _ fun _ _ => False) fun _ _ _ _ h => h.elim
    rw [if_neg hdeep]
    cases schema with
    | bool b =>
      cases b with
      | true => exact .pure hc ⟨nofun, translates_nil _, [], rfl⟩
      | false =>
        refine .pure hc ⟨nofun, fun name h => ?_, _, rfl⟩
        cases h with
        | here h => cases h
        | inside hmember hsub h =>
          obtain rfl := List.mem_singleton.mp hmember
          obtain rfl : _ = Json.obj [] := List.mem_singleton.mp hsub
          obtain ⟨p, hp, -⟩ := translates_nil (.bool false) name h
          cases hp
    | obj members =>
      refine .bind (compileRef_meets ih hspared hreached place hc) fun ref t ht _ hQ => ?_
      obtain ⟨htranslates, href⟩ := hQ
      split
      next hsiblings =>
        refine .pure ht ⟨fun p hp => ?_, htranslates, ref, rfl⟩
        cases hp with
        | here h => exact href p h
        | @inside _ member sub _ hmember hsub h =>
          obtain ⟨keyword, value⟩ := member
          have hplain : keyword ∉ schemaKeywords := by
            intro hkeyword
            have hnot := List.filter_eq_nil_iff.mp hsiblings.2 _ hmember
            obtain ⟨hasserted, -⟩ := schemaKeywords_asserted keyword hkeyword
            exact hnot (by simpa using ⟨fun h => hasserted (.inl h), fun h => hasserted (.inr (.inl (by simpa using h)))⟩)
          rw [subschemas_plain hplain] at hsub
          cases hsub
      next =>
        have hstable : ∀ member s t, Grown (Reaches options (.obj members)) s t → Covers member s → Covers member t :=
          fun member s t hgrown h sub hsub p hp => hgrown.kept p (h sub hsub p hp)
        have hloop : Meets (schemaContract options reached pending members depth) t
            (members.foldlM (compileKeyword options (compile options calls) place depth) ref)
            fun out u => Translates (.obj members) (.obj out) ∧ ∀ member ∈ members, Covers member u :=
          .foldlM hstable (fun out member hmember s hs hout =>
            compileKeyword_meets ih hreached hmember hout place hs) ht htranslates
        refine .bind hloop fun out u hu hgrown hQ => .pure hu
          ⟨fun p hp => ?_, fun name h => hQ.1 name (mentions_resolveDialect h), _, rfl⟩
        cases hp with
        | here h => exact hgrown.kept p (href p h)
        | inside hmember hsub h => exact hQ.2 _ hmember _ hsub p h
    | _ => exact Meets.refuse hc (.shape nofun nofun)

/-! ### Runs -/

def fresh : SchemaCompiler := ⟨∅, 0, ∅⟩

/-- Schemas are hoisted one after another into one compiler, each of them under the condition; those that are
returned have a name. A schema that is refused leaves what it has changed. -/
inductive Run (options : CompileOptions) (cond : SchemaCompiler → Json → Prop) :
    List (String × Json) → SchemaCompiler → Prop
  | fresh : Run options cond [] fresh
  | returned {done : List (String × Json)} {c c' : SchemaCompiler} {schema : Json} {calls : Nat} {place name : String}
    (h : Run options cond done c) (hcond : cond c schema)
    (hrun : outcome (hoist options calls schema place) c = (.ok name, c')) : Run options cond ((name, schema) :: done) c'
  | refused {done : List (String × Json)} {c c' : SchemaCompiler} {schema : Json} {calls : Nat}
    {place keyword site reason : String} (h : Run options cond done c) (hcond : cond c schema)
    (hrun : outcome (hoist options calls schema place) c = (.error (.unsupported keyword site reason), c')) :
    Run options cond done c'

def Leads (c : SchemaCompiler) : String → String → Prop :=
  ReflTransGen fun entry other => ∃ node, c.defs.lookup entry = some node ∧ Mentions node other

structure Intact (options : CompileOptions) (c : SchemaCompiler) (name : String) (schema : Json) : Prop where
  own : ∃ node, c.defs.lookup name = some node ∧ Form options schema node
  closed : ∀ entry, Leads c name entry → entry ∈ c.defs
  component : ∀ p, Reaches options schema p → ∃ target node, resolvePointer options.components p = some target ∧
    c.defs.lookup (componentName p) = some node ∧ Form options target node

/-- The names of what the schema reaches are apart, and no component it reaches is refused and on a cycle. -/
structure Sound (options : CompileOptions) (c : SchemaCompiler) (schema : Json) : Prop where
  apart : Apart options (Reaches options schema) c
  spared : Spared options (Reaches options schema)

def Hoisted (options : CompileOptions) (c : SchemaCompiler) (name : String) (schema : Json) : Prop :=
  (∃ i ≤ c.counter, name = "s" ++ toString i) ∧ ∃ node, c.defs.lookup name = some node ∧ Form options schema node ∧
    Translates schema node ∧ ∀ p, Mentions schema p → p ∈ c.byComponent

structure Settled (options : CompileOptions) (done : List (String × Json)) (c : SchemaCompiler) : Prop where
  named : Named c
  rooted : ∀ p ∈ c.byComponent, "#/".isPrefixOf p
  resolved : ∀ p ∈ c.byComponent, (resolvePointer options.components p).isSome
  defined : ∀ p ∈ c.byComponent, Defined options c p
  hoisted : ∀ name schema, (name, schema) ∈ done → Hoisted options c name schema

theorem underscored_cons {ch : Char} (h : ¬isAlphanumeric ch) (rest : List Char) :
    ∃ more, underscored (ch :: rest) = '_' :: more := by
  induction rest generalizing ch with
  | nil =>
    rw [underscored, if_neg h]
    exact ⟨[], rfl⟩
  | cons next rest ih =>
    rw [underscored, if_neg h]
    by_cases hnext : isAlphanumeric next
    · rw [if_pos hnext]
      exact ⟨_, rfl⟩
    · rw [if_neg hnext]
      exact ih hnext

theorem hoistedName_ne {pointer : String} (hrooted : "#/".isPrefixOf pointer) (text : String) :
    "s" ++ text ≠ componentName pointer := by
  obtain ⟨rest, hrest⟩ : "#/".toList <+: pointer.toList := String.startsWith_string_iff.mp hrooted
  have htext : pointer.toList = '#' :: '/' :: rest := hrest.symm
  obtain ⟨more, hmore⟩ := @underscored_cons '#' (by decide) ('/' :: rest)
  intro heq
  have hlist := congrArg String.toList heq
  rw [componentName, htext, hmore, String.toList_append, String.toList_ofList, String.toList_ofList] at hlist
  exact absurd (List.cons.inj hlist).1 (by decide)

theorem Settled.consistent {done : List (String × Json)} (h : Settled options done c)
    (hapart : Apart options reached c) : Consistent options reached [] c :=
  ⟨h.named, h.rooted, h.resolved, hapart, fun p hp _ => h.defined p hp⟩

theorem Settled.grown {done : List (String × Json)} (h : Settled options done c) {c' : SchemaCompiler}
    (hc' : Consistent options reached [] c') (hgrown : Grown added c c') : Settled options done c' where
  named := hc'.named
  rooted := hc'.rooted
  resolved := hc'.resolved
  defined p hp := hc'.defined p hp List.not_mem_nil
  hoisted name schema hmem := by
    obtain ⟨⟨i, hi, rfl⟩, node, hlookup, hform, htranslates, hmentions⟩ := h.hoisted name schema hmem
    refine ⟨⟨i, hgrown.counter ▸ hi, rfl⟩, node, ?_, hform, htranslates, fun p hp => hgrown.kept p (hmentions p hp)⟩
    rw [hgrown.frame _ fun p hp => hoistedName_ne hp _]
    exact hlookup

theorem Settled.hoist {done : List (String × Json)} (h : Settled options done c) {schema node : Json}
    (hform : Form options schema node) (htranslates : Translates schema node)
    (hmentions : ∀ p, Mentions schema p → p ∈ c.byComponent) :
    Settled options (("s" ++ toString (c.counter + 1), schema) :: done)
      { c with counter := c.counter + 1, defs := c.defs.insert ("s" ++ toString (c.counter + 1)) node } where
  named := h.named
  rooted := h.rooted
  resolved := h.resolved
  defined p hp := defined_of_defs (h.defined p hp)
    (AList.lookup_insert_ne fun heq => hoistedName_ne (h.rooted p hp) _ heq.symm) fun _ _ _ _ hother => hother
  hoisted name schema' hmem := by
    obtain heq | hmem := List.mem_cons.mp hmem
    · cases heq
      exact ⟨⟨_, Nat.le_refl _, rfl⟩, node, AList.lookup_insert _, hform, htranslates, hmentions⟩
    · obtain ⟨⟨i, hi, rfl⟩, node', hlookup, hrest⟩ := h.hoisted name schema' hmem
      refine ⟨⟨i, Nat.le_succ_of_le hi, rfl⟩, node', ?_, hrest⟩
      rw [AList.lookup_insert_ne]
      · exact hlookup
      · intro heq
        have hnumber := JsNumber.toString_injective ((String.append_right_inj "s").mp heq)
        omega

theorem settled_fresh (options : CompileOptions) : Settled options [] fresh where
  named p name h := by cases h
  rooted p hp := absurd hp (AList.notMem_empty p)
  resolved p hp := absurd hp (AList.notMem_empty p)
  defined p hp := absurd hp (AList.notMem_empty p)
  hoisted _ _ := nofun

theorem hoist_meets {schema : Json} (hsound : Sound options c schema) {done : List (String × Json)}
    (h : Settled options done c) {calls : Nat} {place : String} :
    (∀ {name c'}, outcome (hoist options calls schema place) c = (.ok name, c') →
      Settled options ((name, schema) :: done) c') ∧
    ∀ {e c'}, outcome (hoist options calls schema place) c = (.error e, c') → e = .stack ∨ Settled options done c' := by
  have hmeets := compile_meets hsound.spared calls [] schema place 0 c (fun _ hp => hp) (h.consistent hsound.apart)
  cases hresult : outcome (compile options calls schema place 0) c with
  | mk result t =>
    cases result with
    | ok node =>
      obtain ⟨ht, hgrown, hmentions, htranslates, -⟩ := hmeets.ok hresult
      have hform : Form options schema node := ⟨calls, place, 0, c, t, h.named, hresult⟩
      have hhoist : outcome (hoist options calls schema place) c = (.ok ("s" ++ toString (t.counter + 1)),
          { t with counter := t.counter + 1, defs := t.defs.insert ("s" ++ toString (t.counter + 1)) node }) :=
        outcome_bind_ok hresult _
      rw [hhoist]
      refine ⟨fun heq => ?_, fun heq => ?_⟩
      · cases heq
        exact (h.grown ht hgrown).hoist hform htranslates hmentions
      · cases heq
    | error e =>
      have hhoist : outcome (hoist options calls schema place) c = (.error e, t) := outcome_bind_error hresult _
      rw [hhoist]
      refine ⟨fun heq => ?_, fun heq => ?_⟩
      · cases heq
      · cases heq
        exact (hmeets.error hresult).imp_right fun ⟨ht, hgrown, _⟩ => h.grown ht hgrown

theorem Run.settled {done : List (String × Json)} (h : Run options (Sound options) done c) :
    Settled options done c := by
  induction h with
  | fresh => exact settled_fresh options
  | returned _ hcond hrun ih => exact (hoist_meets hcond ih).1 hrun
  | refused _ hcond hrun ih => exact ((hoist_meets hcond ih).2 hrun).resolve_left nofun

theorem Settled.leads {done : List (String × Json)} (h : Settled options done c) {name entry : String} {node : Json}
    (hlookup : c.defs.lookup name = some node)
    (hnode : ∀ other, Mentions node other → ∃ p ∈ c.byComponent, other = componentName p)
    (hto : Leads c name entry) : ∃ node, c.defs.lookup entry = some node ∧
      ∀ other, Mentions node other → ∃ p ∈ c.byComponent, other = componentName p := by
  induction hto with
  | refl => exact ⟨node, hlookup, hnode⟩
  | tail _ hstep ih =>
    obtain ⟨last, hlast, hclosed⟩ := ih
    obtain ⟨last', hlast', hmentions⟩ := hstep
    obtain rfl : last = last' := Option.some.inj (hlast.symm.trans hlast')
    obtain ⟨p, hp, rfl⟩ := hclosed _ hmentions
    obtain ⟨target, form, -, hform, -, htranslates, hmemo⟩ := h.defined p hp
    refine ⟨form, hform, fun other hother => ?_⟩
    obtain ⟨q, hq, rfl⟩ := htranslates other hother
    exact ⟨q, hmemo q hq, rfl⟩

theorem Settled.reaches {done : List (String × Json)} (h : Settled options done c) {schema : Json} {p : String}
    (hmentions : ∀ q, Mentions schema q → q ∈ c.byComponent) (hp : Reaches options schema p) : p ∈ c.byComponent := by
  obtain ⟨first, hfirst, hto⟩ := hp
  induction hto with
  | refl => exact hmentions first hfirst
  | tail _ hrefers ih =>
    obtain ⟨target, htarget, hother⟩ := hrefers
    obtain ⟨target', -, htarget', -, -, -, hmemo⟩ := h.defined _ ih
    obtain rfl : target = target' := Option.some.inj (htarget.symm.trans htarget')
    exact hmemo _ hother

def plainDocument : CompileOptions where
  dialect := .draft2020
  components := .obj [("A", .bool true)]
  maxDepth := 64
  lintPattern _ _ := []
  text _ := ""

/-- A document with two components that refer to each other, one of which is refused for what it has besides. -/
def lateRefusal : CompileOptions where
  dialect := .draft2020
  components := .obj
    [("A", .obj [("items", .obj [("$ref", .str "#/B")]), ("dependentSchemas", .obj [])]),
      ("B", .obj [("not", .obj [("$ref", .str "#/A")])])]
  maxDepth := 64
  lintPattern _ _ := []
  text _ := ""

def afterRefusal : Except CompileError String × SchemaCompiler :=
  outcome (hoist lateRefusal 9 (.obj [("$ref", .str "#/A")]) "first") fresh

def afterReturn : Except CompileError String × SchemaCompiler :=
  outcome (hoist lateRefusal 9 (.obj [("$ref", .str "#/B")]) "second") afterRefusal.2

def isUnsupported : Except CompileError String → Bool
  | .error (.unsupported _ _ _) => true
  | _ => false

end Apim.JsonSchema
