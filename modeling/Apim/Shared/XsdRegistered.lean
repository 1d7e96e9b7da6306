import Apim.Shared.XsdMeaning

/-!
# What the bundle has of simple types

Where no type adds values or patterns to a base that has some, and the definitions refer to each other in
no circle (`Proper`), every simple type that is registered is what its definition says (`Inv`). Each call
of the compiler keeps that and the types there are (`compiler_sound`): the simple types in progress come
after what is being compiled, so a base is never one of them.
-/

namespace Apim.Xsd
open Overlay (Dict)
open Xml (XmlNode)
open Stateful (Contract Carries)

/-! ### What the bundle has -/

section
variable (indexes : Indexes)

def NodeOf (s : State) (ref : String) (node : XmlNode) : Prop :=
  (∃ entry, indexes.namedTypeNodes.lookup ref = some entry ∧ entry.node = node) ∨
    ∃ n, ref = inlineRef (n + 1) ∧ s.inlined[n]? = some node

structure Inv (s : State) : Prop where
  known : ∀ ref type, s.types.lookup ref = some type → ∃ node, NodeOf indexes s ref node
  simple : ∀ ref node type, NodeOf indexes s ref node → s.types.lookup ref = some type →
    node.name = "simpleType" → ∃ st depth, type = .simple st ∧ Fits s.arrays st.facets ∧
      meaning indexes depth node = some (st.form s.arrays)
  complex : ∀ ref node type, NodeOf indexes s ref node → s.types.lookup ref = some type →
    node.name ≠ "simpleType" → ∃ ct, type = .complex ct

end

structure Later (s s' : State) : Prop where
  types : ∀ ref type, s.types.lookup ref = some type → s'.types.lookup ref = some type
  inlined : s.inlined <+: s'.inlined
  busy : s'.inProgress = s.inProgress

theorem Later.refl (s : State) : Later s s := ⟨fun _ _ h => h, List.prefix_rfl, rfl⟩

variable {s : State}

theorem Later.trans {t u : State} (h : Later s t) (hthen : Later t u) : Later s u :=
  ⟨fun ref type hlookup => hthen.types ref type (h.types ref type hlookup), h.inlined.trans hthen.inlined,
    hthen.busy.trans h.busy⟩

variable {s' : State} {ref : String} {node : XmlNode}

theorem NodeOf.later {indexes : Indexes} (h : NodeOf indexes s ref node)
    (hlater : s.inlined <+: s'.inlined) : NodeOf indexes s' ref node := by
  rcases h with hnamed | ⟨n, href, hnode⟩
  · exact Or.inl hnamed
  · refine Or.inr ⟨n, href, ?_⟩
    obtain ⟨more, hmore⟩ := hlater
    have hn : n < s.inlined.length := (List.getElem?_eq_some_iff.mp hnode).1
    rw [← hmore, List.getElem?_append_left hn, hnode]

section
variable (indexes : Indexes) (rank : String → Nat)

def IsSimple (qname : String) : Prop :=
  ∃ entry, indexes.namedTypeNodes.lookup qname = some entry ∧ entry.node.name = "simpleType"

def Idle (busy : List String) : Prop := ∀ p ∈ busy, ¬IsSimple indexes p

def MayName (qname : String) (busy : List String) : Prop :=
  ∀ p ∈ busy, IsSimple indexes p → Below indexes rank (rank p) qname

def MayDefine (node : XmlNode) (busy : List String) : Prop :=
  ∀ p ∈ busy, IsSimple indexes p → Uses indexes rank (rank p) node

def contract (ok : List String → Prop) : Contract State where
  inv s := Inv indexes s ∧ ok s.inProgress
  rel := Later
  refl := Later.refl
  trans := Later.trans

/-- Every definition in the schemas is a simple one that refers to earlier simple types, and adds to
no base what it has; and no name looks like the reference of an inline type. -/
structure Proper (part : XmlNode → Prop) : Prop where
  uses : ∀ node, part node → node.name = "simpleType" → ∃ bound, Uses indexes rank bound node
  named : ∀ qname entry, indexes.namedTypeNodes.lookup qname = some entry →
    entry.node.name = "simpleType" → Uses indexes rank (rank qname) entry.node
  names : ∀ qname entry, indexes.namedTypeNodes.lookup qname = some entry → ∀ n, qname ≠ inlineRef n
  clean : ∀ node, part node → node.name = "simpleType" → Clean indexes node

structure Parts (part : XmlNode → Prop) : Prop where
  children : ∀ node, part node → ∀ child ∈ node.children, part child
  declared : ∀ entries ∈ [indexes.globalElementNodes, indexes.namedTypeNodes, indexes.groupNodes,
    indexes.attributeGroupNodes, indexes.attributeNodes], ∀ qname entry,
      entries.lookup qname = some entry → part entry.node

structure Sound (part : XmlNode → Prop) (calls : Calls) : Prop where
  element : ∀ qname, Carries (contract indexes (Idle indexes)) (calls.globalElement qname)
  named : ∀ qname, Carries (contract indexes (MayName indexes rank qname)) (calls.namedType qname)
  namedRef : ∀ qname s ref s', Inv indexes s → MayName indexes rank qname s.inProgress →
    calls.namedType qname s = .ok (ref, s') → ref = qname ∧
      (builtinName qname = none → (∀ n, qname ≠ inlineRef n) →
        (∃ entry, indexes.namedTypeNodes.lookup qname = some entry) ∧
          (IsSimple indexes qname → (s'.types.lookup qname).isSome))
  inline : ∀ node source place, part node →
    Carries (contract indexes (MayDefine indexes rank node)) (calls.inlineType node source place)
  inlineRef : ∀ node source place s ref s', part node → Inv indexes s →
    MayDefine indexes rank node s.inProgress → calls.inlineType node source place s = .ok (ref, s') →
      NodeOf indexes s' ref node ∧ (s'.types.lookup ref).isSome

end

variable {bound fuel : Nat} {source : SchemaSource} {place : String}

section
variable {indexes : Indexes} {rank : String → Nat} {part : XmlNode → Prop} {calls : Calls}

theorem carries_busy {α : Type} {ok ok' : List String → Prop} {m : M α} (h : ∀ busy, ok busy → ok' busy)
    (hm : Carries (contract indexes ok') m) : Carries (contract indexes ok) m := by
  intro s a s' hs hrun
  obtain ⟨⟨hinv, -⟩, hlater⟩ := hm s a s' ⟨hs.1, h _ hs.2⟩ hrun
  refine ⟨⟨hinv, ?_⟩, hlater⟩
  rw [hlater.busy]
  exact hs.2

theorem mayName_of_idle {busy : List String} (h : Idle indexes busy) (qname : String) :
    MayName indexes rank qname busy := fun p hp hsimple => absurd hsimple (h p hp)

theorem mayDefine_of_idle {busy : List String} (h : Idle indexes busy) (node : XmlNode) :
    MayDefine indexes rank node busy := fun p hp hsimple => absurd hsimple (h p hp)

theorem mem_childrenNamed {child : XmlNode} {name : String}
    (h : child ∈ node.childrenNamed XSD_NS name) : child ∈ node.children :=
  List.mem_of_mem_filter h

theorem mem_of_firstNamed {inner : XmlNode} {name : String} (h : firstNamed? node name = some inner) :
    inner ∈ node.children :=
  mem_childrenNamed (List.mem_of_mem_head? h)

/-! ### Complex types -/

theorem typeRefOf_carries (hcalls : Sound indexes rank part calls) (hparts : Parts indexes part)
    (hnode : part node) (source : SchemaSource) (place : String) :
    Carries (contract indexes (Idle indexes)) (typeRefOf calls node source place) := by
  have hinline : ∀ {name : String} {inner : XmlNode}, firstNamed? node name = some inner →
      Carries (contract indexes (Idle indexes)) (calls.inlineType inner source place) := fun hinner =>
    carries_busy (fun _ hidle => mayDefine_of_idle hidle _)
      (hcalls.inline _ _ _ (hparts.children _ hnode _ (mem_of_firstNamed hinner)))
  unfold typeRefOf
  split
  · dsimp only
    split
    · exact .pure _
    · exact .bind (carries_busy (fun _ hidle => mayName_of_idle hidle _) (hcalls.named _)) fun _ => .pure _
  · split
    · next hinner => exact hinline hinner
    · split
      · next hinner => exact hinline hinner
      · exact .pure _

theorem elementDecl_carries (hcalls : Sound indexes rank part calls) (hparts : Parts indexes part)
    (hnode : part node) (source : SchemaSource) (qname : String) :
    Carries (contract indexes (Idle indexes)) (elementDecl calls node source qname) :=
  .bind (typeRefOf_carries hcalls hparts hnode source _) fun _ => .pure _

theorem collectAttributes_carries (hcalls : Sound indexes rank part calls) (hparts : Parts indexes part)
    (place : String) (depth : Nat) {holder : XmlNode} (hholder : part holder) (source : SchemaSource)
    (into : XsdComplexType) : Carries (contract indexes (Idle indexes))
      (collectAttributes indexes calls place depth holder source into) := by
  induction depth generalizing holder source into with
  | zero => exact .throw _
  | succ depth ih =>
    rw [collectAttributes]
    refine .foldlM (fun out child hchild => ?_) _
    have hpart := hparts.children _ hholder _ hchild
    split
    · exact .pure _
    split
    · exact .pure _
    split
    · split
      · exact .pure _
      · split
        · exact .throw _
        · next hentry => exact ih (hparts.declared _ (by simp) _ _ hentry) _ _
    split
    · exact .pure _
    dsimp only
    split
    · split
      · exact .throw _
      · next hentry =>
        exact .bind (typeRefOf_carries hcalls hparts (hparts.declared _ (by simp) _ _ hentry) _ _)
          fun _ => .pure _
    · split
      · exact .pure _
      · exact .bind (typeRefOf_carries hcalls hparts hpart _ _) fun _ => .pure _

theorem localElementQName_carries (node : XmlNode) (source : SchemaSource) :
    Carries (contract indexes (Idle indexes)) (localElementQName node source) := by
  unfold localElementQName
  split
  · exact .throw _
  · exact .pure _

theorem particleOf_carries (hcalls : Sound indexes rank part calls) (hparts : Parts indexes part)
    (place : String) (fuel : Nat) :
    (∀ {holder : XmlNode}, part holder → ∀ source depth, Carries (contract indexes (Idle indexes))
      (particleOf indexes calls place fuel holder source depth)) ∧
    ∀ {node : XmlNode}, part node → ∀ kind source depth, Carries (contract indexes (Idle indexes))
      (modelGroup indexes calls place fuel kind node source depth) := by
  induction fuel with
  | zero => exact ⟨fun _ _ _ => .throw _, fun _ _ _ _ => .throw _⟩
  | succ fuel ih =>
    obtain ⟨ihParticle, ihGroup⟩ := ih
    refine ⟨fun {holder} hholder source depth => ?_, fun {node} hnode kind source depth => ?_⟩
    · rw [particleOf]
      split
      · exact .throw _
      dsimp only
      split
      · exact .pure _
      · next child hfirst =>
        have hchild := hparts.children _ hholder _ (List.mem_of_find?_eq_some hfirst)
        split
        · exact .map _ (ihGroup hchild _ _ _)
        · split
          · exact .throw _
          · next hentry =>
            exact .bind (ihParticle (hparts.declared _ (by simp) _ _ hentry) _ _) fun _ => .pure _
    · rw [modelGroup]
      refine .bind (.foldlM (fun items child hchild => ?_) _) fun _ => .pure _
      have hpart := hparts.children _ hnode _ hchild
      split
      · exact .pure _
      split
      · split
        · exact .bind (hcalls.element _) fun _ => .pure _
        · exact .bind (localElementQName_carries _ _) fun _ =>
            .bind (elementDecl_carries hcalls hparts hpart _ _) fun _ => .pure _
      split
      · exact .bind (ihGroup hpart _ _ _) fun _ => .pure _
      split
      · split
        · exact .pure _
        · split
          · exact .throw _
          · next hentry =>
            exact .bind (ihParticle (hparts.declared _ (by simp) _ _ hentry) _ _) fun _ => .pure _
      split
      · exact .pure _
      · exact .pure _

theorem get_carries {ok : List String → Prop} {α : Type} {f : State → M α}
    (hf : ∀ s, Carries (contract indexes ok) (f s)) : Carries (contract indexes ok) (get >>= f) :=
  fun s a s' hs hrun => hf s s a s' hs hrun

theorem complexType_carries (hcalls : Sound indexes rank part calls) (hparts : Parts indexes part)
    (fuel : Nat) (hnode : part node) (source : SchemaSource) (place : String) :
    Carries (contract indexes (Idle indexes)) (complexType indexes calls fuel node source place) := by
  have hnamed : ∀ qname, Carries (contract indexes (Idle indexes)) (calls.namedType qname) := fun qname =>
    carries_busy (fun _ hidle => mayName_of_idle hidle _) (hcalls.named qname)
  have hderivation : ∀ {content derivation : XmlNode} {name : String}, firstNamed? node name = some content →
      (firstNamed? content "extension").or (firstNamed? content "restriction") = some derivation →
      part derivation := by
    intro content derivation name hcontent hderivation
    have hpart := hparts.children _ hnode _ (mem_of_firstNamed hcontent)
    rcases Option.or_eq_some_iff.mp hderivation with h | ⟨-, h⟩
    · exact hparts.children _ hpart _ (mem_of_firstNamed h)
    · exact hparts.children _ hpart _ (mem_of_firstNamed h)
  unfold complexType
  dsimp only
  split
  · next hcontent =>
    split
    · exact .throw _
    · next hfirst =>
      have hcollect := fun into =>
        collectAttributes_carries hcalls hparts place 17 (hderivation hcontent hfirst) source into
      split
      · exact .bind (.pure _) fun _ => hcollect _
      · exact .bind (hnamed _) fun _ => hcollect _
  · split
    · next hcontent =>
      split
      · exact .throw _
      · next hfirst =>
        have hpart := hderivation hcontent hfirst
        have hcollect := fun into =>
          collectAttributes_carries hcalls hparts place 17 hpart source into
        refine .bind ((particleOf_carries hcalls hparts _ _).1 hpart _ _) fun own => ?_
        split
        · refine .bind (hnamed _) fun _ => get_carries fun _ => ?_
          split
          · exact hcollect _
          · exact hcollect _
        · exact hcollect _
    · exact .bind ((particleOf_carries hcalls hparts _ _).1 hnode _ _) fun _ =>
        collectAttributes_carries hcalls hparts _ _ hnode _ _

/-! ### Simple types -/

theorem Uses.named (h : Uses indexes rank bound node) :
    ∀ qname ∈ namedRefs node, Below indexes rank bound qname := by
  cases h with
  | intro _ _ hnamed _ => exact hnamed

theorem Uses.inline (h : Uses indexes rank bound node) :
    ∀ inner ∈ inlineRefs node, Uses indexes rank bound inner := by
  cases h with
  | intro _ _ _ hinline => exact hinline

theorem Uses.name (h : Uses indexes rank bound node) : node.name = "simpleType" := by
  cases h with
  | intro _ hname _ _ => exact hname

theorem Uses.mono {bound' : Nat} (h : Uses indexes rank bound node) (hle : bound ≤ bound') :
    Uses indexes rank bound' node := by
  induction h with
  | intro node hname hnamed _ ih =>
    refine .intro node hname (fun qname hqname => ?_) ih
    rcases hnamed qname hqname with hbuiltin | ⟨href, hentry⟩
    · exact Or.inl hbuiltin
    · exact Or.inr ⟨href, fun entry h => ⟨(hentry entry h).1, Nat.lt_of_lt_of_le (hentry entry h).2 hle⟩⟩

theorem namedRef_carries (hcalls : Sound indexes rank part calls) {node : XmlNode} {qname : String}
    (h : qname ∈ namedRefs node) :
    Carries (contract indexes (MayDefine indexes rank node)) (calls.namedType qname) :=
  carries_busy (fun _ hmay p hp hsimple => (hmay p hp hsimple).named qname h) (hcalls.named qname)

theorem inlineRef_carries (hcalls : Sound indexes rank part calls) {node inner : XmlNode}
    (h : inner ∈ inlineRefs node) (hpart : part inner) (source : SchemaSource) (place : String) :
    Carries (contract indexes (MayDefine indexes rank node)) (calls.inlineType inner source place) :=
  carries_busy (fun _ hmay p hp hsimple => (hmay p hp hsimple).inline inner h)
    (hcalls.inline inner source place hpart)

theorem freeze_empty (arrays : List (List String)) : Facets.freeze arrays {} = {} := rfl

theorem fits_empty (arrays : List (List String)) : Fits arrays {} := ⟨nofun, nofun, nofun⟩

theorem inherited_simple {base : XsdSimpleType Nat} (h : s.types.lookup ref = some (.simple base)) :
    inherited ref s = .ok ((base.builtin, base.facets), s) := by
  show (inherited ref).run s = _
  simp only [inherited, StateT.run_bind, StateT.run_get, pure_bind, h, StateT.run_pure]
  rfl

theorem inherited_spec {start : String × Facets Nat} (hinv : Inv indexes s)
    (hnode : NodeOf indexes s ref node) (hname : node.name = "simpleType")
    (hregistered : (s.types.lookup ref).isSome) (h : inherited ref s = .ok (start, s')) :
    s' = s ∧ Fits s.arrays start.2 ∧ ∃ depth,
      (meaning indexes depth node).map (fun base => (base.builtin, base.facets)) =
        some (start.1, start.2.freeze s.arrays) := by
  obtain ⟨type, htype⟩ := Option.isSome_iff_exists.mp hregistered
  obtain ⟨st, depth, rfl, hfits, hmeaning⟩ := hinv.simple _ _ _ hnode htype hname
  rw [inherited_simple htype] at h
  cases h
  exact ⟨rfl, hfits, depth, by rw [hmeaning]; rfl⟩

theorem baseOf_spec (hcalls : Sound indexes rank part calls) (hparts : Parts indexes part)
    {restriction : XmlNode} (hnode : part node) (huses : Uses indexes rank bound node)
    (hlist : firstNamed? node "list" = none) (hunion : firstNamed? node "union" = none)
    (hrestriction : firstNamed? node "restriction" = some restriction) {start : String × Facets Nat}
    (hinv : Inv indexes s) (hmay : MayDefine indexes rank node s.inProgress)
    (h : baseOf calls restriction source place s = .ok (start, s')) :
    Inv indexes s' ∧ Later s s' ∧ Fits s'.arrays start.2 ∧ ∃ depth,
      begins indexes (meaning indexes depth) restriction =
        some (start.1, start.2.freeze s'.arrays) := by
  rw [baseOf] at h
  cases hbase : given? restriction "base" with
  | some base =>
    rw [hbase] at h
    dsimp only at h
    have hmem : restriction.resolveQName base ∈ namedRefs node := by
      rw [namedRefs, hlist, hunion, hrestriction]
      dsimp only
      rw [hbase]
      exact List.mem_singleton_self _
    cases hbuiltin : builtinName (restriction.resolveQName base) with
    | some builtin =>
      rw [hbuiltin] at h
      obtain ⟨rfl, rfl⟩ := Stateful.pure_eq_ok.mp h
      refine ⟨hinv, .refl s, fits_empty _, 0, ?_⟩
      rw [begins, hbase]
      dsimp only
      rw [hbuiltin, freeze_empty]
    | none =>
      rw [hbuiltin] at h
      obtain ⟨ref, mid, hcall, hinherit⟩ := Stateful.bind_eq_ok.mp h
      obtain ⟨⟨hmid, -⟩, hlater⟩ := namedRef_carries hcalls hmem _ _ _ ⟨hinv, hmay⟩ hcall
      obtain ⟨rfl, href⟩ := hcalls.namedRef _ _ _ _ hinv
        (fun p hp hsimple => (hmay p hp hsimple).named _ hmem) hcall
      obtain ⟨hnot, hbelow⟩ : (∀ n, restriction.resolveQName base ≠ inlineRef n) ∧ _ :=
        (huses.named _ hmem).resolve_left (by rw [hbuiltin]; exact Bool.false_ne_true)
      obtain ⟨⟨entry, hentry⟩, hregistered⟩ := href hbuiltin hnot
      have hname := (hbelow entry hentry).1
      obtain ⟨rfl, hfits, depth, hmeaning⟩ := inherited_spec hmid (Or.inl ⟨entry, hentry, rfl⟩) hname
        (hregistered ⟨entry, hentry, hname⟩) hinherit
      refine ⟨hmid, hlater, hfits, depth, ?_⟩
      rw [begins, hbase]
      dsimp only
      rw [hbuiltin, hentry]
      show (meaning indexes depth entry.node >>= fun base => some (base.builtin, base.facets)) = _
      rw [← hmeaning]
      cases meaning indexes depth entry.node <;> rfl
  | none =>
    rw [hbase] at h
    dsimp only at h
    cases hinner : firstNamed? restriction "simpleType" with
    | none =>
      rw [hinner] at h
      obtain ⟨rfl, rfl⟩ := Stateful.pure_eq_ok.mp h
      refine ⟨hinv, .refl s, fits_empty _, 0, ?_⟩
      rw [begins, hbase]
      dsimp only
      rw [hinner, freeze_empty]
    | some inner =>
      rw [hinner] at h
      have hmem : inner ∈ inlineRefs node := by
        rw [inlineRefs, hlist, hunion, hrestriction]
        dsimp only
        rw [if_pos hbase, hinner]
        exact List.mem_singleton_self _
      have hpart : part inner := hparts.children _ (hparts.children _ hnode _
        (mem_of_firstNamed hrestriction)) _ (mem_of_firstNamed hinner)
      obtain ⟨ref, mid, hcall, hinherit⟩ := Stateful.bind_eq_ok.mp h
      obtain ⟨⟨hmid, -⟩, hlater⟩ :=
        inlineRef_carries hcalls hmem hpart _ _ _ _ _ ⟨hinv, hmay⟩ hcall
      obtain ⟨hnodeOf, hregistered⟩ := hcalls.inlineRef _ _ _ _ _ _ hpart hinv
        (fun p hp hsimple => (hmay p hp hsimple).inline _ hmem) hcall
      obtain ⟨rfl, hfits, depth, hmeaning⟩ :=
        inherited_spec hmid hnodeOf (huses.inline _ hmem).name hregistered hinherit
      refine ⟨hmid, hlater, hfits, depth, ?_⟩
      rw [begins, hbase]
      dsimp only
      rw [hinner]
      exact hmeaning

theorem Inv.extends {new : List (List String)} (h : Inv indexes s) (hextends : Extends s.arrays new) :
    Inv indexes { s with arrays := new } where
  known := h.known
  simple ref node type hnode hlookup hname := by
    obtain ⟨st, depth, htype, hfits, hmeaning⟩ := h.simple ref node type hnode hlookup hname
    exact ⟨st, depth, htype, hfits.extends hextends, by rw [hmeaning, form_extends hfits hextends]⟩
  complex := h.complex

theorem simpleType_spec (hcalls : Sound indexes rank part calls) (hparts : Parts indexes part)
    (hnode : part node) (huses : Uses indexes rank bound node) (hclean : Clean indexes node)
    {st : XsdSimpleType Nat} (hinv : Inv indexes s)
    (hmay : MayDefine indexes rank node s.inProgress)
    (h : simpleType calls node source place s = .ok (st, s')) :
    Inv indexes s' ∧ Later s s' ∧ Fits s'.arrays st.facets ∧ ∃ depth,
      meaning indexes depth node = some (st.form s'.arrays) := by
  rw [simpleType] at h
  cases hlist : firstNamed? node "list" with
  | some list =>
    rw [hlist] at h
    have hmeaning : meaning indexes 1 node = some ⟨"string", .list, {}⟩ := by
      rw [meaning, hlist]
      rfl
    have hcall : ∀ {m : M String}, Carries (contract indexes (MayDefine indexes rank node)) m →
        (m >>= fun itemRef => (pure { builtin := "string", variety := .list, itemRef := some itemRef } :
          M (XsdSimpleType Nat))) s = .ok (st, s') →
        Inv indexes s' ∧ Later s s' ∧ Fits s'.arrays st.facets ∧ ∃ depth,
          meaning indexes depth node = some (st.form s'.arrays) := by
      intro m hm hrun
      obtain ⟨ref, mid, hcall, hpure⟩ := Stateful.bind_eq_ok.mp hrun
      obtain ⟨rfl, rfl⟩ := Stateful.pure_eq_ok.mp hpure
      obtain ⟨⟨hmid, -⟩, hlater⟩ := hm _ _ _ ⟨hinv, hmay⟩ hcall
      exact ⟨hmid, hlater, fits_empty _, 1, hmeaning⟩
    dsimp only at h
    cases hitem : given? list "itemType" with
    | some itemType =>
      rw [hitem] at h
      have hmem : list.resolveQName itemType ∈ namedRefs node := by
        rw [namedRefs, hlist]
        dsimp only
        rw [hitem]
        exact List.mem_singleton_self _
      exact hcall (namedRef_carries hcalls hmem) h
    | none =>
      rw [hitem] at h
      dsimp only at h
      cases hinner : firstNamed? list "simpleType" with
      | none => rw [hinner] at h; cases h
      | some inner =>
        rw [hinner] at h
        have hmem : inner ∈ inlineRefs node := by
          rw [inlineRefs, hlist]
          dsimp only
          rw [if_pos hitem, hinner]
          exact List.mem_singleton_self _
        exact hcall (inlineRef_carries hcalls hmem (hparts.children _ (hparts.children _ hnode _
          (mem_of_firstNamed hlist)) _ (mem_of_firstNamed hinner)) _ _) h
  | none =>
    rw [hlist] at h
    dsimp only at h
    cases hunion : firstNamed? node "union" with
    | some union =>
      rw [hunion] at h
      dsimp only at h
      have hmeaning : meaning indexes 1 node = some ⟨"string", .union, {}⟩ := by
        rw [meaning, hlist, hunion]
        rfl
      obtain ⟨named, mid, hnamed, hrest⟩ := Stateful.bind_eq_ok.mp h
      obtain ⟨inline, last, hinline, hpure⟩ := Stateful.bind_eq_ok.mp hrest
      obtain ⟨rfl, rfl⟩ := Stateful.pure_eq_ok.mp hpure
      have hfirst : Carries (contract indexes (MayDefine indexes rank node)) _ :=
        .mapM fun raw hraw => @namedRef_carries _ _ _ _ hcalls node (union.resolveQName (String.ofList raw))
          (by rw [namedRefs, hlist, hunion]; exact List.mem_map_of_mem hraw)
      obtain ⟨⟨hmid, hmayMid⟩, hlater⟩ := hfirst _ _ _ ⟨hinv, hmay⟩ hnamed
      have hsecond : Carries (contract indexes (MayDefine indexes rank node)) _ :=
        .mapM fun inner hinner => @inlineRef_carries _ _ _ _ hcalls node inner
          (by rw [inlineRefs, hlist, hunion]; exact hinner)
          (hparts.children _ (hparts.children _ hnode _ (mem_of_firstNamed hunion)) _
            (mem_childrenNamed hinner)) source (place ++ "/union")
      obtain ⟨⟨hlast, -⟩, hlater'⟩ := hsecond _ _ _ ⟨hmid, hmayMid⟩ hinline
      exact ⟨hlast, hlater.trans hlater', fits_empty _, 1, hmeaning⟩
    | none =>
      rw [hunion] at h
      dsimp only at h
      cases hrestriction : firstNamed? node "restriction" with
      | none => rw [hrestriction] at h; cases h
      | some restriction =>
        rw [hrestriction] at h
        obtain ⟨⟨builtin, facets⟩, mid, hbase, hrest⟩ := Stateful.bind_eq_ok.mp h
        obtain ⟨facets', last, hfold, hpure⟩ := Stateful.bind_eq_ok.mp hrest
        obtain ⟨rfl, rfl⟩ := Stateful.pure_eq_ok.mp hpure
        obtain ⟨hmid, hlater, hfits, depth, hbegins⟩ := baseOf_spec hcalls hparts hnode huses hlist hunion
          hrestriction hinv hmay hbase
        obtain ⟨hvalues, hpatterns⟩ := hclean _ hrestriction _ _ hbegins
        have hadded := foldlM_addFacet (.refl mid.arrays) hfits
          (fun hhas a ha => by
            have hnone := Option.map_eq_none_iff.mp (hvalues hhas)
            rw [hnone] at ha
            cases ha)
          (fun hhas a ha => by
            have hnone := Option.map_eq_none_iff.mp (hpatterns hhas)
            rw [hnone] at ha
            cases ha) hfold
        obtain ⟨hstore, hkept, hfits', hresult, -, -⟩ := hadded
        refine ⟨?_, ?_, hfits', depth + 1, ?_⟩
        · rw [hstore]
          exact hmid.extends hkept
        · refine hlater.trans ⟨fun ref type hlookup => ?_, ?_, ?_⟩
          · rw [hstore]
            exact hlookup
          · rw [hstore]
          · rw [hstore]
        · simp only [meaning, hlist, hunion, hrestriction, Option.isSome_none, Bool.false_eq_true, if_false,
            Option.bind_eq_bind, Option.bind_some, hbegins, hresult]
          rfl

/-! ### The calls -/

theorem namedType_cases {qname : String} (h : namedType indexes calls fuel qname s = .ok (ref, s')) :
    ref = qname ∧
      (s' = s ∧ ((s.types.lookup qname).isSome ∨ (builtinName qname).isSome ∨
          (∃ entry, indexes.namedTypeNodes.lookup qname = some entry) ∧ qname ∈ s.inProgress) ∨
        ∃ entry type mid, indexes.namedTypeNodes.lookup qname = some entry ∧
          s.types.lookup qname = none ∧ builtinName qname = none ∧ qname ∉ s.inProgress ∧
          compileType indexes calls fuel entry.node entry.source qname
            { s with inProgress := qname :: s.inProgress } = .ok (type, mid) ∧
          s' = { mid with
            types := mid.types.insert qname type, inProgress := mid.inProgress.erase qname }) := by
  rw [namedType] at h
  obtain ⟨now, mid, hget, hrest⟩ := Stateful.bind_eq_ok.mp h
  cases hget
  split at hrest
  · next hregistered =>
    obtain ⟨rfl, rfl⟩ := Stateful.pure_eq_ok.mp hrest
    exact ⟨rfl, Or.inl ⟨rfl, Or.inl hregistered⟩⟩
  next hunregistered =>
  split at hrest
  · next hbuiltin =>
    obtain ⟨rfl, rfl⟩ := Stateful.pure_eq_ok.mp hrest
    exact ⟨rfl, Or.inl ⟨rfl, Or.inr (Or.inl hbuiltin)⟩⟩
  next hbuiltin =>
  cases hentry : indexes.namedTypeNodes.lookup qname with
  | none => rw [hentry] at hrest; cases hrest
  | some entry =>
  rw [hentry] at hrest
  obtain ⟨now, mid, hget, hrest⟩ := Stateful.bind_eq_ok.mp hrest
  cases hget
  split at hrest
  · next hbusy =>
    obtain ⟨rfl, rfl⟩ := Stateful.pure_eq_ok.mp hrest
    exact ⟨rfl, Or.inl ⟨rfl, Or.inr (Or.inr ⟨⟨entry, rfl⟩, hbusy⟩)⟩⟩
  next hbusy =>
  obtain ⟨_, marked, hmark, hrest⟩ := Stateful.bind_eq_ok.mp hrest
  cases hmark
  obtain ⟨type, compiled, hcompile, hrest⟩ := Stateful.bind_eq_ok.mp hrest
  obtain ⟨_, registered, hregister, hrest⟩ := Stateful.bind_eq_ok.mp hrest
  cases hregister
  obtain ⟨rfl, rfl⟩ := Stateful.pure_eq_ok.mp hrest
  exact ⟨rfl, Or.inr ⟨entry, type, compiled, rfl, Option.not_isSome_iff_eq_none.mp hunregistered,
    Option.not_isSome_iff_eq_none.mp hbuiltin, hbusy, hcompile, rfl⟩⟩

theorem inlineType_cases (h : inlineType indexes calls fuel node source place s = .ok (ref, s')) :
    ref = inlineRef (s.inlined.length + 1) ∧ ∃ type mid,
      compileType indexes calls fuel node source place { s with inlined := s.inlined ++ [node] } =
        .ok (type, mid) ∧
      s' = { mid with types := mid.types.insert ref type } := by
  rw [inlineType] at h
  obtain ⟨now, mid, hget, hrest⟩ := Stateful.bind_eq_ok.mp h
  cases hget
  obtain ⟨_, marked, hmark, hrest⟩ := Stateful.bind_eq_ok.mp hrest
  cases hmark
  obtain ⟨type, compiled, hcompile, hrest⟩ := Stateful.bind_eq_ok.mp hrest
  obtain ⟨_, registered, hregister, hrest⟩ := Stateful.bind_eq_ok.mp hrest
  cases hregister
  obtain ⟨rfl, rfl⟩ := Stateful.pure_eq_ok.mp hrest
  exact ⟨rfl, type, compiled, hcompile, rfl⟩

theorem globalElement_cases {qname : String} {u : Unit}
    (h : globalElement indexes calls qname s = .ok (u, s')) :
    s' = s ∨ ∃ entry decl mid, indexes.globalElementNodes.lookup qname = some entry ∧
      elementDecl calls entry.node entry.source qname
        { s with elements := s.elements.insert qname ⟨qname, ANY_TYPE, false, none⟩ } = .ok (decl, mid) ∧
      s' = { mid with elements := mid.elements.insert qname decl } := by
  rw [globalElement] at h
  obtain ⟨now, mid, hget, hrest⟩ := Stateful.bind_eq_ok.mp h
  cases hget
  split at hrest
  · obtain ⟨-, rfl⟩ := Stateful.pure_eq_ok.mp hrest
    exact Or.inl rfl
  cases hentry : indexes.globalElementNodes.lookup qname with
  | none => rw [hentry] at hrest; cases hrest
  | some entry =>
  rw [hentry] at hrest
  obtain ⟨_, marked, hmark, hrest⟩ := Stateful.bind_eq_ok.mp hrest
  cases hmark
  obtain ⟨decl, compiled, hcompile, hrest⟩ := Stateful.bind_eq_ok.mp hrest
  cases hrest
  exact Or.inr ⟨entry, decl, compiled, rfl, hcompile, rfl⟩

theorem compileType_spec (hcalls : Sound indexes rank part calls) (hparts : Parts indexes part)
    (hproper : Proper indexes rank part) (hnode : part node) {type : XsdType Nat}
    (hinv : Inv indexes s) (hmay : MayDefine indexes rank node s.inProgress)
    (hidle : node.name ≠ "simpleType" → Idle indexes s.inProgress)
    (h : compileType indexes calls fuel node source place s = .ok (type, s')) :
    Inv indexes s' ∧ Later s s' ∧ (node.name = "simpleType" → ∃ st depth, type = .simple st ∧
      Fits s'.arrays st.facets ∧ meaning indexes depth node = some (st.form s'.arrays)) ∧
      (node.name ≠ "simpleType" → ∃ ct, type = .complex ct) := by
  rw [compileType] at h
  split at h
  · next hname =>
    obtain ⟨st, hrun, rfl⟩ := Stateful.map_eq_ok.mp h
    obtain ⟨bound, huses⟩ := hproper.uses node hnode hname
    obtain ⟨hinv', hlater, hfits, depth, hmeaning⟩ :=
      simpleType_spec hcalls hparts hnode huses (hproper.clean node hnode hname) hinv hmay hrun
    exact ⟨hinv', hlater, fun _ => ⟨st, depth, rfl, hfits, hmeaning⟩, fun hcomplex => absurd hname hcomplex⟩
  · next hname =>
    obtain ⟨complex, hrun, rfl⟩ := Stateful.map_eq_ok.mp h
    obtain ⟨⟨hinv', -⟩, hlater⟩ :=
      complexType_carries hcalls hparts fuel hnode source place _ _ _ ⟨hinv, hidle hname⟩ hrun
    exact ⟨hinv', hlater, fun hsimple => absurd hsimple hname, fun _ => ⟨complex, rfl⟩⟩

theorem inlineRef_injective {m n : Nat} (h : inlineRef m = inlineRef n) : m = n :=
  JsNumber.toString_injective ((String.append_right_inj "#").mp h)

theorem nodeOf_unique (hproper : Proper indexes rank part) {node' : XmlNode}
    (h : NodeOf indexes s ref node) (h' : NodeOf indexes s ref node') : node = node' := by
  rcases h with ⟨entry, hentry, rfl⟩ | ⟨n, rfl, hn⟩
  · rcases h' with ⟨entry', hentry', rfl⟩ | ⟨n, rfl, -⟩
    · rw [Option.some.inj (hentry.symm.trans hentry')]
    · exact absurd rfl (hproper.names _ _ hentry _)
  · rcases h' with ⟨entry', hentry', -⟩ | ⟨n', href, hn'⟩
    · exact absurd rfl (hproper.names _ _ hentry' _)
    · have hsame : n = n' := Nat.succ_injective (inlineRef_injective href)
      subst hsame
      exact Option.some.inj (hn.symm.trans hn')

theorem Inv.register (hproper : Proper indexes rank part)
    {type : XsdType Nat} (h : Inv indexes s) (hnode : NodeOf indexes s ref node)
    (htype : node.name = "simpleType" → ∃ st depth, type = .simple st ∧ Fits s.arrays st.facets ∧
      meaning indexes depth node = some (st.form s.arrays))
    (hcomplex : node.name ≠ "simpleType" → ∃ ct, type = .complex ct) :
    Inv indexes { s with types := s.types.insert ref type } where
  known ref' type' hlookup := by
    by_cases href : ref' = ref
    · rw [href]
      exact ⟨node, hnode⟩
    · rw [AList.lookup_insert_ne href] at hlookup
      exact h.known ref' type' hlookup
  simple ref' node' type' hnode' hlookup hname := by
    by_cases href : ref' = ref
    · subst href
      rw [AList.lookup_insert] at hlookup
      rw [← Option.some.inj hlookup]
      have hsame : node' = node := nodeOf_unique hproper hnode' hnode
      rw [hsame] at hname ⊢
      exact htype hname
    · rw [AList.lookup_insert_ne href] at hlookup
      exact h.simple ref' node' type' hnode' hlookup hname
  complex ref' node' type' hnode' hlookup hname := by
    by_cases href : ref' = ref
    · subst href
      rw [AList.lookup_insert] at hlookup
      rw [← Option.some.inj hlookup]
      have hsame : node' = node := nodeOf_unique hproper hnode' hnode
      rw [hsame] at hname
      exact hcomplex hname
    · rw [AList.lookup_insert_ne href] at hlookup
      exact h.complex ref' node' type' hnode' hlookup hname

theorem globalElement_sound (hcalls : Sound indexes rank part calls) (hparts : Parts indexes part)
    (qname : String) : Carries (contract indexes (Idle indexes)) (globalElement indexes calls qname) := by
  intro s u s' hs h
  rcases globalElement_cases h with rfl | ⟨entry, decl, mid, hentry, hcompile, rfl⟩
  · exact ⟨hs, .refl s'⟩
  · have hpart := hparts.declared _ (by simp) _ _ hentry
    have hmarked : Inv indexes
        { s with elements := s.elements.insert qname ⟨qname, ANY_TYPE, false, none⟩ } :=
      ⟨hs.1.known, hs.1.simple, hs.1.complex⟩
    obtain ⟨⟨hinv, hidle⟩, hlater⟩ := elementDecl_carries hcalls hparts hpart entry.source qname
      _ _ _ ⟨hmarked, hs.2⟩ hcompile
    exact ⟨⟨⟨hinv.known, hinv.simple, hinv.complex⟩, hidle⟩, ⟨hlater.types, hlater.inlined, hlater.busy⟩⟩

theorem namedType_sound (hcalls : Sound indexes rank part calls) (hparts : Parts indexes part)
    (hproper : Proper indexes rank part) {qname : String} (hinv : Inv indexes s)
    (hmay : MayName indexes rank qname s.inProgress)
    (h : namedType indexes calls fuel qname s = .ok (ref, s')) :
    Inv indexes s' ∧ Later s s' ∧ ref = qname ∧
      (builtinName qname = none → (∀ n, qname ≠ inlineRef n) →
        (∃ entry, indexes.namedTypeNodes.lookup qname = some entry) ∧
          (IsSimple indexes qname → (s'.types.lookup qname).isSome)) := by
  obtain ⟨rfl, ⟨rfl, hsame⟩ | ⟨entry, type, mid, hentry, hnew, hbuiltin, hfree, hcompile, rfl⟩⟩ :=
    namedType_cases h
  · refine ⟨hinv, .refl s', rfl, fun hbuiltin hnot => ?_⟩
    rcases hsame with hregistered | hbuiltin' | ⟨hentry, hbusy⟩
    · obtain ⟨type, htype⟩ := Option.isSome_iff_exists.mp hregistered
      obtain ⟨node, ⟨entry, hentry, -⟩ | ⟨n, href, -⟩⟩ := hinv.known _ _ htype
      · exact ⟨⟨entry, hentry⟩, fun _ => hregistered⟩
      · exact absurd href (hnot _)
    · rw [hbuiltin] at hbuiltin'
      cases hbuiltin'
    · refine ⟨hentry, fun hsimple => ?_⟩
      rcases hmay _ hbusy hsimple with hbuiltin' | ⟨-, hbelow⟩
      · rw [hbuiltin] at hbuiltin'
        cases hbuiltin'
      · obtain ⟨entry, hentry⟩ := hentry
        exact absurd (hbelow entry hentry).2 (Nat.lt_irrefl _)
  · have hpart := hparts.declared _ (by simp) _ _ hentry
    have hbelow : ∀ p ∈ s.inProgress, IsSimple indexes p →
        entry.node.name = "simpleType" ∧ rank ref < rank p := by
      intro p hp hsimple
      rcases hmay p hp hsimple with hbuiltin' | ⟨-, hbelow⟩
      · rw [hbuiltin] at hbuiltin'
        cases hbuiltin'
      · exact hbelow entry hentry
    have hdefine : MayDefine indexes rank entry.node (ref :: s.inProgress) := by
      intro p hp hsimple
      rcases List.mem_cons.mp hp with rfl | hp
      · obtain ⟨entry', hentry', hname⟩ := hsimple
        rw [Option.some.inj (hentry.symm.trans hentry')]
        exact hproper.named _ _ hentry' hname
      · obtain ⟨hname, hlt⟩ := hbelow p hp hsimple
        exact (hproper.named _ _ hentry hname).mono (Nat.le_of_lt hlt)
    have hidle : entry.node.name ≠ "simpleType" → Idle indexes (ref :: s.inProgress) :=
      fun hname p hp hsimple => hname (hdefine p hp hsimple).name
    have hmarked : Inv indexes { s with inProgress := ref :: s.inProgress } :=
      ⟨hinv.known, hinv.simple, hinv.complex⟩
    obtain ⟨hmid, hlater, htype, hcomplex⟩ :=
      compileType_spec hcalls hparts hproper hpart hmarked hdefine hidle hcompile
    have hregister := hmid.register hproper (Or.inl ⟨entry, hentry, rfl⟩) htype hcomplex
    refine ⟨⟨hregister.known, hregister.simple, hregister.complex⟩, ⟨fun other type' hlookup => ?_, hlater.inlined, ?_⟩, rfl,
      fun _ _ => ⟨⟨entry, hentry⟩, fun _ => ?_⟩⟩
    · have hne : other ≠ ref := by
        rintro rfl
        rw [hnew] at hlookup
        cases hlookup
      rw [AList.lookup_insert_ne hne]
      exact hlater.types other type' hlookup
    · show mid.inProgress.erase ref = s.inProgress
      rw [hlater.busy]
      exact List.erase_cons_head ..
    · rw [AList.lookup_insert]
      rfl

theorem inlineType_sound (hcalls : Sound indexes rank part calls) (hparts : Parts indexes part)
    (hproper : Proper indexes rank part) (hnode : part node) (hinv : Inv indexes s)
    (hmay : MayDefine indexes rank node s.inProgress)
    (h : inlineType indexes calls fuel node source place s = .ok (ref, s')) :
    Inv indexes s' ∧ Later s s' ∧ NodeOf indexes s' ref node ∧ (s'.types.lookup ref).isSome := by
  obtain ⟨rfl, type, mid, hcompile, rfl⟩ := inlineType_cases h
  have hbegun : Inv indexes { s with inlined := s.inlined ++ [node] } := by
    have hmore : s.inlined <+: s.inlined ++ [node] := List.prefix_append _ _
    have hbefore : ∀ ref node' type, NodeOf indexes { s with inlined := s.inlined ++ [node] } ref node' →
        s.types.lookup ref = some type → NodeOf indexes s ref node' := by
      intro ref node' type hnode' hlookup
      obtain ⟨known, hknown⟩ := hinv.known ref type hlookup
      rw [nodeOf_unique hproper hnode' (hknown.later hmore)]
      exact hknown
    refine ⟨fun ref type hlookup => ?_, fun ref node' type hnode' hlookup hname => ?_,
      fun ref node' type hnode' hlookup hname => ?_⟩
    · obtain ⟨node', hnode'⟩ := hinv.known ref type hlookup
      exact ⟨node', hnode'.later hmore⟩
    · exact hinv.simple ref node' type (hbefore _ _ _ hnode' hlookup) hlookup hname
    · exact hinv.complex ref node' type (hbefore _ _ _ hnode' hlookup) hlookup hname
  have hidle : node.name ≠ "simpleType" → Idle indexes s.inProgress :=
    fun hname p hp hsimple => hname (hmay p hp hsimple).name
  obtain ⟨hmid, hlater, htype, hcomplex⟩ := compileType_spec hcalls hparts hproper hnode hbegun hmay hidle hcompile
  have hnodeOf : NodeOf indexes mid (inlineRef (s.inlined.length + 1)) node := by
    refine NodeOf.later (Or.inr ⟨s.inlined.length, rfl, ?_⟩) hlater.inlined
    exact List.getElem?_concat_length
  refine ⟨hmid.register hproper hnodeOf htype hcomplex, ⟨fun other type' hlookup => ?_, ?_, hlater.busy⟩, hnodeOf, ?_⟩
  · have hne : other ≠ inlineRef (s.inlined.length + 1) := by
      rintro rfl
      obtain ⟨known, ⟨entry, hentry, -⟩ | ⟨n, href, hn⟩⟩ := hinv.known _ _ hlookup
      · exact hproper.names _ _ hentry _ rfl
      · have hsame : s.inlined.length = n := Nat.succ_injective (inlineRef_injective href)
        rw [← hsame, List.getElem?_eq_none le_rfl] at hn
        cases hn
    rw [AList.lookup_insert_ne hne]
    exact hlater.types other type' hlookup
  · exact (List.prefix_append _ _).trans hlater.inlined
  · rw [AList.lookup_insert]
    rfl

theorem compiler_sound (hparts : Parts indexes part) (hproper : Proper indexes rank part) (fuel : Nat) :
    Sound indexes rank part (compiler indexes fuel) := by
  induction fuel with
  | zero =>
    refine ⟨fun _ => .throw _, fun _ => .throw _, fun _ _ _ _ _ _ h => ?_, fun _ _ _ _ => .throw _,
      fun _ _ _ _ _ _ _ _ _ h => ?_⟩
    · cases h
    · cases h
  | succ fuel ih =>
    refine ⟨globalElement_sound ih hparts, fun qname s ref s' hs h => ?_, fun qname s ref s' hinv hmay h => ?_,
      fun node source place hnode s ref s' hs h => ?_, fun node source place s ref s' hnode hinv hmay h => ?_⟩
    · obtain ⟨hinv, hlater, -⟩ := namedType_sound ih hparts hproper hs.1 hs.2 h
      exact ⟨⟨hinv, by rw [hlater.busy]; exact hs.2⟩, hlater⟩
    · exact (namedType_sound ih hparts hproper hinv hmay h).2.2
    · obtain ⟨hinv, hlater, -⟩ := inlineType_sound ih hparts hproper hnode hs.1 hs.2 h
      exact ⟨⟨hinv, by rw [hlater.busy]; exact hs.2⟩, hlater⟩
    · exact (inlineType_sound ih hparts hproper hnode hinv hmay h).2.2

theorem request_carries (hparts : Parts indexes part) (hproper : Proper indexes rank part) (fuel : Nat)
    (request : Request) : Carries (contract indexes (Idle indexes)) (request.run indexes fuel) := by
  have hsound := compiler_sound hparts hproper fuel
  cases request with
  | element qname => exact hsound.element qname
  | type qname =>
    have hnamed := carries_busy (fun _ hidle => mayName_of_idle hidle qname) (hsound.named qname)
    exact .bind hnamed fun _ => .pure _

end

end Apim.Xsd
