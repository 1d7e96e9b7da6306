import Apim.Shared.XmlPieces

/-!
# Prefixes and the elements that declare them

What a prefix means is said by the elements around it: the innermost of them that declares it gives the
URI (`meaning`). The scan keeps the declarations of the open elements on a stack, and the tree finds them
on the way to the root; both look a prefix up in plain objects (`shared/xml.ts:145-159`, `361-376`).
-/

namespace Apim.Xml
open Guard

/-! ### Enclosing elements -/

def entered (opened : List StartTag) : Event → List StartTag
  | .start tag => if tag.selfClosing then opened else tag :: opened
  | .close => opened.tail
  | .text _ => opened
  | .cdata _ => opened

def openBehind (opened : List StartTag) (events : List Event) : List StartTag :=
  events.foldl entered opened

def scopeOf (opened : List StartTag) (tag : StartTag) : List Entries :=
  (tag :: opened).map StartTag.declarations

def Located (events : List Event) (scope : List Entries) (tag : StartTag) : Prop :=
  ∃ before after, events = before ++ .start tag :: after ∧ scope = scopeOf (openBehind [] before) tag

/-- What a prefix means: `xml` is bound by itself, and no prefix may be without a declaration. -/
def meaning (scope : List Entries) (name : String) : Option String :=
  match scope.findSome? fun entries => entries.lookup name with
  | some uri => some uri
  | none => if name = "xml" then some XML_NS else if name = "" then some "" else none

def StartTag.uses (tag : StartTag) : List (String × String) :=
  ((splitName tag.raw.toList).1, tag.ns) ::
    (tag.attributes.filter fun a => a.qualifier ≠ "").map fun a => (a.qualifier, a.ns)

def Resolved (scope : List Entries) (tag : StartTag) : Prop :=
  ∀ use ∈ tag.uses, meaning scope use.1 = some use.2

mutual
def XmlNode.placed (ancestors : List Entries) : XmlNode → List (List Entries × XmlNode)
  | .mk tag scope children text =>
    (tag.declarations :: ancestors, .mk tag scope children text) ::
      XmlNode.placedAll (tag.declarations :: ancestors) children

def XmlNode.placedAll (ancestors : List Entries) : List XmlNode → List (List Entries × XmlNode)
  | [] => []
  | node :: nodes => node.placed ancestors ++ XmlNode.placedAll ancestors nodes
end

/-- `resolveQName` finds what the scan finds for a prefix, where that finds anything. -/
def Agrees (scope : List Entries) (node : XmlNode) : Prop :=
  ∀ value uri, resolveNs scope (splitName value.toList).1 = .ok uri →
    node.resolveQName value = qnameOf uri (splitName value.toList).2

section
variable (charCode : Text → Option Int) (limits : Limits)

/-- The prefixes of an accepted document, whole or cut off, are resolved by the elements around them,
and so they are in its tree. -/
structure NamespacesResolved (input : Text) : Prop where
  tags : (∀ message, (scan charCode limits input).2 ≠ .failed message) →
    ∀ scope tag, Located (scan charCode limits input).1 scope tag → Resolved scope tag
  nodes : ∀ root, parseDocument charCode limits input = .ok root → ∀ p ∈ root.placed [],
    Located (scan charCode limits input).1 p.1 p.2.tag ∧ Agrees p.1 p.2 ∧
      p.2.resolveQName p.2.tag.raw = p.2.qname

end

/-! ### Lookups -/

variable {scope : List Entries}

theorem resolveNs_eq_ok {name uri : String} :
    resolveNs scope name = .ok uri ↔
      binding scope name = some uri ∨ (binding scope name = none ∧ name = "" ∧ uri = "") := by
  unfold resolveNs
  cases binding scope name with
  | some found => simp
  | none =>
    by_cases hname : name = ""
    · simp [hname, eq_comm]
    · simp [hname]

theorem resolveNs_plain {name uri : String} (h : inherited name = none) :
    resolveNs scope name = .ok uri ↔ meaning scope name = some uri := by
  have hbinding : binding scope name = (scope.findSome? fun entries => entries.lookup name).or
      (if name = "xml" then some XML_NS else none) := by
    simp only [binding, h, Option.or_none, Option.none_or]
  rw [resolveNs_eq_ok, hbinding, meaning]
  cases scope.findSome? fun entries => entries.lookup name with
  | some found => simp
  | none =>
    by_cases hxml : name = "xml"
    · simp [hxml]
    · by_cases hname : name = ""
      · simp [hname]
      · simp [hxml, hname]

theorem resolveNs_inherited {entries : Entries} {name shown uri : String}
    (h : inherited name = some shown) :
    resolveNs (entries :: scope) name = .ok uri ↔ (entries.lookup name).getD shown = uri := by
  have hbinding : binding (entries :: scope) name = some ((entries.lookup name).getD shown) := by
    unfold binding
    rw [h, List.findSome?_cons]
    cases entries.lookup name <;> rfl
  rw [resolveNs_eq_ok, hbinding]
  simp

/-! ### The scan -/

structure Bound (scope : List Entries) (tag : StartTag) : Prop where
  name : tag.name = (splitName tag.raw.toList).2
  depth : scope.length = tag.depth + 1
  uses : ∀ use ∈ tag.uses, resolveNs scope use.1 = .ok use.2

def Along (P : List Entries → StartTag → Prop) : List StartTag → List Event → Prop
  | _, [] => True
  | opened, event :: events =>
    (∀ tag, event = .start tag → P (scopeOf opened tag) tag) ∧ Along P (entered opened event) events

variable {opened : List StartTag}

theorem Along.append {P : List Entries → StartTag → Prop} {front back : List Event}
    (hfront : Along P opened front) (hback : Along P (openBehind opened front) back) :
    Along P opened (front ++ back) := by
  induction front generalizing opened with
  | nil => exact hback
  | cons event front ih => exact ⟨hfront.1, ih hfront.2 hback⟩

theorem Along.at {P : List Entries → StartTag → Prop} {before after : List Event} {tag : StartTag}
    (h : Along P opened (before ++ .start tag :: after)) :
    P (scopeOf (openBehind opened before) tag) tag := by
  induction before generalizing opened with
  | nil => exact h.1 tag rfl
  | cons event before ih => exact ih h.2

theorem along_textEvents (P : List Entries → StartTag → Prop) (opened : List StartTag) (text : Text) :
    Along P opened (textEvents text) ∧ openBehind opened (textEvents text) = opened := by
  unfold textEvents
  split
  · exact ⟨trivial, rfl⟩
  · exact ⟨⟨nofun, trivial⟩, rfl⟩

section
variable {charCode : Text → Option Int} {limits : Limits}

theorem resolveAttribute_ns {declared : List Entries} {a : RawAttribute} {x : XmlAttribute}
    (h : resolveAttribute declared a = .ok x) (hqualified : x.qualifier ≠ "") :
    resolveNs declared x.qualifier = .ok x.ns := by
  by_cases hplain : (splitName a.name).1 = ""
  · simp [resolveAttribute, hplain] at h
    rw [← h] at hqualified
    exact absurd rfl hqualified
  · simp only [resolveAttribute, if_neg hplain, bind_eq_ok, pure_eq_ok] at h
    obtain ⟨ns, hns, rfl⟩ := h
    exact hns

theorem exists_of_mapM {declared : List Entries} {raws : List RawAttribute} {resolved : List XmlAttribute}
    (h : raws.mapM (resolveAttribute declared) = .ok resolved) {x : XmlAttribute} (hx : x ∈ resolved) :
    ∃ a, resolveAttribute declared a = .ok x := by
  have hpairs := mapM_eq_ok.mp h
  clear h
  induction hpairs with
  | nil => exact absurd hx List.not_mem_nil
  | @cons a y raws resolved hone _ ih =>
    obtain rfl | hmem := List.mem_cons.mp hx
    · exact ⟨a, hone⟩
    · exact ih hmem

structure ScanState.Follows (s : ScanState) (opened : List StartTag) : Prop where
  declared : s.declared = opened.map StartTag.declarations
  openTags : s.openTags.length = opened.length

theorem bound_event {s : ScanState} (hfollows : s.Follows opened)
    {tag : WrittenTag} {raws : List RawAttribute} {ns : String} {resolved : List XmlAttribute}
    (hns : resolveNs (declarationsOf raws :: s.declared) (splitName tag.name).1 = .ok ns)
    (hresolved : (raws.filter fun a => (declares a).isNone).mapM
      (resolveAttribute (declarationsOf raws :: s.declared)) = .ok resolved) :
    Bound (declarationsOf raws :: s.declared) (tag.event s raws ns resolved) := by
  have hraw : (tag.event s raws ns resolved).raw.toList = tag.name := String.toList_ofList
  have hdepth : (declarationsOf raws :: s.declared).length = (tag.event s raws ns resolved).depth + 1 := by
    rw [List.length_cons, hfollows.declared, List.length_map, ← hfollows.openTags]
    rfl
  refine ⟨by rw [hraw]; rfl, hdepth, fun use huse => ?_⟩
  obtain heq | hmem := List.mem_cons.mp huse
  · rw [heq, hraw]
    exact hns
  · obtain ⟨x, hx, rfl⟩ := List.mem_map.mp hmem
    obtain ⟨hx, hqualified⟩ := List.mem_filter.mp hx
    obtain ⟨a, ha⟩ := exists_of_mapM hresolved hx
    exact resolveAttribute_ns ha (by simpa using hqualified)

theorem along_takes {s s' : ScanState} {piece : Piece} {events : List Event}
    (h : Takes charCode limits s piece events s') (hfollows : s.Follows opened) :
    Along Bound opened events ∧ s'.Follows (openBehind opened events) := by
  obtain ⟨hdeclared, hopenTags⟩ := hfollows
  cases h with
  | declaration hdeclaration hroot => exact ⟨trivial, hdeclared, hopenTags⟩
  | comment => exact ⟨trivial, hdeclared, hopenTags⟩
  | cdata =>
    split
    · exact ⟨trivial, hdeclared, hopenTags⟩
    · exact ⟨⟨nofun, trivial⟩, hdeclared, hopenTags⟩
  | @close inside openTags hopen =>
    refine ⟨⟨nofun, trivial⟩, ?_, ?_⟩
    · show s.declared.tail = opened.tail.map StartTag.declarations
      rw [hdeclared, List.map_tail]
    · show openTags.length = opened.tail.length
      rw [List.length_tail, ← hopenTags, hopen]
      rfl
  | @start tag raws ns resolved hread hcount hdepth hns hresolved =>
    refine ⟨⟨fun found hfound => ?_, trivial⟩, ?_⟩
    · cases hfound
      have hbound := bound_event ⟨hdeclared, hopenTags⟩ hns hresolved
      rw [hdeclared] at hbound
      exact hbound
    · cases hclosing : tag.selfClosing with
      | true =>
        constructor
        · simp [ScanState.enter, WrittenTag.event, openBehind, entered, hclosing, hdeclared]
        · simp [ScanState.enter, WrittenTag.event, openBehind, entered, hclosing, hopenTags]
      | false =>
        constructor
        · simp [ScanState.enter, WrittenTag.event, openBehind, entered, hclosing, hdeclared]
        · simp [ScanState.enter, WrittenTag.event, openBehind, entered, hclosing, hopenTags]

theorem openBehind_append (opened : List StartTag) (front back : List Event) :
    openBehind opened (front ++ back) = openBehind (openBehind opened front) back := List.foldl_append

theorem along_scanFrom (turns : Nat) {s : ScanState} (hfollows : s.Follows opened) (input : Text) :
    Along Bound opened (scanFrom charCode limits turns s input).1 := by
  induction turns generalizing s opened input with
  | zero => exact trivial
  | succ turns ih =>
    cases @turnOf charCode limits turns s input with
    | done hinput h =>
      rw [h]
      exact trivial
    | tail hinput htext h =>
      rw [h]
      exact (along_textEvents Bound opened input).1
    | @ends text tail ending htext hinput hends h =>
      rw [h]
      exact (along_textEvents Bound opened text).1
    | @goes text rest piece events s' htext hinput hvalid htakes h =>
      obtain ⟨htexts, hbehind⟩ := along_textEvents Bound opened text
      obtain ⟨hevents, hfollows'⟩ := along_takes htakes hfollows
      have hrest := ih hfollows' rest
      rw [h]
      refine Along.append (Along.append htexts ?_) ?_
      · rw [hbehind]
        exact hevents
      · rw [openBehind_append, hbehind]
        exact hrest

theorem bound_of_located {input : Text} {tag : StartTag}
    (h : Located (scan charCode limits input).1 scope tag) : Bound scope tag := by
  obtain ⟨before, after, hevents, rfl⟩ := h
  have halong : Along Bound [] (scan charCode limits input).1 := by
    unfold scan
    split
    · exact trivial
    · exact along_scanFrom _ ⟨rfl, rfl⟩ input
  rw [hevents] at halong
  exact halong.at

end

/-! ### The tree -/

def Stands (events : List Event) (p : List Entries × XmlNode) : Prop :=
  p.2.scope = p.1 ∧ Located events p.1 p.2.tag

def StandAll (events : List Event) (ancestors : List Entries) (nodes : List XmlNode) : Prop :=
  ∀ p ∈ XmlNode.placedAll ancestors nodes, Stands events p

theorem placedAll_append (ancestors : List Entries) (front back : List XmlNode) :
    XmlNode.placedAll ancestors (front ++ back) =
      XmlNode.placedAll ancestors front ++ XmlNode.placedAll ancestors back := by
  induction front with
  | nil => rfl
  | cons node front ih => rw [List.cons_append, XmlNode.placedAll, XmlNode.placedAll, ih, List.append_assoc]

def enclosing (frames : List Frame) : List Entries := frames.map fun frame => frame.tag.declarations

def FramesStand (events : List Event) : List Frame → Prop
  | [] => True
  | frame :: frames =>
    frame.scope = frame.tag.declarations :: enclosing frames ∧
      Located events frame.scope frame.tag ∧ StandAll events frame.scope frame.children ∧
      FramesStand events frames

structure Builder.Stands (events : List Event) (builder : Builder) : Prop where
  roots : StandAll events [] builder.roots
  frames : FramesStand events builder.frames

section
variable {events : List Event} {builder : Builder}

theorem scope_eq_enclosing (h : builder.Stands events) : builder.scope = enclosing builder.frames := by
  obtain ⟨roots, frames⟩ := builder
  cases frames with
  | nil => rfl
  | cons frame frames => exact h.frames.1

theorem Builder.Stands.add (h : builder.Stands events) {node : XmlNode}
    (hnode : ∀ p ∈ node.placed (enclosing builder.frames), Xml.Stands events p) :
    (builder.add node).Stands events := by
  obtain ⟨roots, frames⟩ := builder
  have hall : ∀ {nodes : List XmlNode}, StandAll events (enclosing frames) nodes →
      StandAll events (enclosing frames) (nodes ++ [node]) := by
    intro nodes hnodes p hp
    rw [placedAll_append, List.mem_append] at hp
    obtain hp | hp := hp
    · exact hnodes p hp
    · rw [XmlNode.placedAll, XmlNode.placedAll, List.append_nil] at hp
      exact hnode p hp
  cases frames with
  | nil => exact ⟨hall h.roots, trivial⟩
  | cons frame frames =>
    obtain ⟨hscope, hlocated, hchildren, hframes⟩ := h.frames
    refine ⟨h.roots, hscope, hlocated, ?_, hframes⟩
    rw [hscope] at hchildren ⊢
    exact hall hchildren

theorem stands_node {frame : Frame} {ancestors : List Entries}
    (hscope : frame.scope = frame.tag.declarations :: ancestors)
    (hlocated : Located events frame.scope frame.tag)
    (hchildren : StandAll events frame.scope frame.children) :
    ∀ p ∈ frame.node.placed ancestors, Xml.Stands events p := by
  intro p hp
  rw [Frame.node, XmlNode.placed, List.mem_cons, ← hscope] at hp
  obtain rfl | hp := hp
  · exact ⟨rfl, hlocated⟩
  · exact hchildren p hp

theorem Builder.Stands.close (h : builder.Stands events) : builder.close.Stands events := by
  obtain ⟨roots, frames⟩ := builder
  cases frames with
  | nil => exact h
  | cons frame frames =>
    obtain ⟨hscope, hlocated, hchildren, hframes⟩ := h.frames
    have hrest : ({ roots := roots, frames := frames } : Builder).Stands events := ⟨h.roots, hframes⟩
    exact hrest.add (stands_node hscope hlocated hchildren)

theorem Builder.Stands.addText (h : builder.Stands events) (text : Text) :
    (builder.addText text).Stands events := by
  obtain ⟨roots, frames⟩ := builder
  cases frames with
  | nil => exact h
  | cons frame frames =>
    obtain ⟨hscope, hlocated, hchildren, hframes⟩ := h.frames
    exact ⟨h.roots, hscope, hlocated, hchildren, hframes⟩

theorem Builder.Stands.finish (h : builder.Stands events) : StandAll events [] builder.finish := by
  have hclosed : ∀ (rows : List Frame) {builder : Builder}, builder.Stands events →
      (rows.foldl (fun (builder : Builder) _ => builder.close) builder).Stands events := by
    intro rows
    induction rows with
    | nil => exact id
    | cons row rows ih => exact fun h => ih h.close
  exact (hclosed builder.frames h).roots

theorem frames_add (builder : Builder) (node : XmlNode) :
    (builder.add node).frames.map Frame.tag = builder.frames.map Frame.tag := by
  obtain ⟨roots, frames⟩ := builder
  cases frames <;> rfl

theorem frames_close (builder : Builder) :
    builder.close.frames.map Frame.tag = (builder.frames.map Frame.tag).tail := by
  obtain ⟨roots, frames⟩ := builder
  cases frames with
  | nil => rfl
  | cons frame frames => exact frames_add _ _

theorem frames_addText (builder : Builder) (text : Text) :
    (builder.addText text).frames.map Frame.tag = builder.frames.map Frame.tag := by
  obtain ⟨roots, frames⟩ := builder
  cases frames <;> rfl

theorem stands_event {charCode : Text → Option Int} {builder' : Builder} {before after : List Event}
    {event : Event} (hevents : events = before ++ event :: after) (h : builder.Stands events)
    (hframes : builder.frames.map Frame.tag = openBehind [] before)
    (hrun : Builder.event charCode builder event = .ok builder') :
    builder'.Stands events ∧ builder'.frames.map Frame.tag = openBehind [] (before ++ [event]) := by
  have hbehind : openBehind [] (before ++ [event]) = entered (builder.frames.map Frame.tag) event := by
    rw [openBehind_append, hframes]
    rfl
  have henclosing : enclosing builder.frames = (openBehind [] before).map StartTag.declarations := by
    rw [← hframes, enclosing, List.map_map]
    rfl
  rw [hbehind]
  cases event with
  | start tag =>
    have hlocated : Located events (tag.declarations :: enclosing builder.frames) tag :=
      ⟨before, after, hevents, by rw [henclosing]; rfl⟩
    have hscope := scope_eq_enclosing h
    cases hrun
    cases hclosing : tag.selfClosing with
    | true =>
      simp only [if_true, entered, hclosing, frames_add, and_true]
      refine h.add (stands_node (by rw [hscope]) ?_ (fun p hp => absurd hp List.not_mem_nil))
      rw [hscope]
      exact hlocated
    | false =>
      simp only [Bool.false_eq_true, if_false, entered, hclosing, List.map_cons, and_true]
      refine ⟨h.roots, by rw [hscope], ?_, fun p hp => absurd hp List.not_mem_nil, h.frames⟩
      rw [hscope]
      exact hlocated
  | close =>
    cases hrun
    exact ⟨h.close, frames_close builder⟩
  | text raw =>
    rw [Builder.event, bind_eq_ok] at hrun
    obtain ⟨text, -, heq⟩ := hrun
    cases heq
    exact ⟨h.addText text, frames_addText builder text⟩
  | cdata text =>
    cases hrun
    exact ⟨h.addText text, frames_addText builder text⟩

theorem stands_foldlM {charCode : Text → Option Int} {builder' : Builder} {before after : List Event}
    (hevents : events = before ++ after) (h : builder.Stands events)
    (hframes : builder.frames.map Frame.tag = openBehind [] before)
    (hrun : after.foldlM (Builder.event charCode) builder = .ok builder') : builder'.Stands events := by
  induction after generalizing builder before with
  | nil =>
    cases hrun
    exact h
  | cons event after ih =>
    rw [List.foldlM_cons, bind_eq_ok] at hrun
    obtain ⟨next, hevent, hrest⟩ := hrun
    obtain ⟨hnext, hframes'⟩ := stands_event hevents h hframes hevent
    refine ih ?_ hnext hframes' hrest
    rw [hevents, List.append_assoc]
    rfl

end

section
variable {charCode : Text → Option Int} {limits : Limits} {input : Text}

theorem stands_of_parseDocument {root : XmlNode} (h : parseDocument charCode limits input = .ok root) :
    ∀ p ∈ root.placed [], Stands (scan charCode limits input).1 p := by
  cases hscan : scan charCode limits input with | mk events ending => ?_
  unfold parseDocument at h
  rw [hscan] at h
  simp only [bind_eq_ok] at h
  obtain ⟨builder, hbuilder, h⟩ := h
  have hempty : ({} : Builder).Stands events := ⟨fun p hp => absurd hp List.not_mem_nil, trivial⟩
  have hstart : events = [] ++ events := rfl
  have hstands := (stands_foldlM hstart hempty rfl hbuilder).finish
  cases ending with
  | failed message => cases h
  | truncated => cases h
  | finished =>
    simp only at h
    split at h
    case h_2 => cases h
    next first others hfinish =>
    cases h
    rw [hfinish] at hstands
    exact fun p hp => hstands p (List.mem_append_left _ hp)

end

/-! ### What a prefix is reported with -/

def OwnName (scope : List Entries) (tag : StartTag) (name : String) : Prop :=
  inherited name = none ∨ (tag.declarations.lookup name).isSome = true ∨
    meaning scope name = inherited name

theorem resolved_iff {tag : StartTag} (h : Bound (scopeOf opened tag) tag) :
    Resolved (scopeOf opened tag) tag ↔ ∀ use ∈ tag.uses, OwnName (scopeOf opened tag) tag use.1 := by
  have hone : ∀ use ∈ tag.uses, (meaning (scopeOf opened tag) use.1 = some use.2 ↔
      OwnName (scopeOf opened tag) tag use.1) := by
    intro use huse
    have hbound := h.uses use huse
    cases hinherited : inherited use.1 with
    | none => exact ⟨fun _ => .inl hinherited, fun _ => (resolveNs_plain hinherited).mp hbound⟩
    | some shown =>
      have hfound := (resolveNs_inherited hinherited).mp hbound
      cases hown : tag.declarations.lookup use.1 with
      | some uri =>
        rw [hown, Option.getD_some] at hfound
        have hmeaning : meaning (scopeOf opened tag) use.1 = some uri := by
          rw [meaning, scopeOf, List.map_cons, List.findSome?_cons, hown]
        refine ⟨fun _ => .inr (.inl (by rw [hown]; rfl)), fun _ => ?_⟩
        rw [hmeaning, hfound]
      | none =>
        rw [hown, Option.getD_none] at hfound
        rw [← hfound]
        constructor
        · intro hmeaning
          exact .inr (.inr (by rw [hmeaning, hinherited]))
        · rintro (hnone | hsome | hmeaning)
          · rw [hinherited] at hnone
            cases hnone
          · rw [hown] at hsome
            cases hsome
          · rw [hmeaning, hinherited]
  exact ⟨fun hall use huse => (hone use huse).mp (hall use huse),
    fun hall use huse => (hone use huse).mpr (hall use huse)⟩

theorem agrees_of_scope {node : XmlNode} (h : node.scope = scope) : Agrees scope node := by
  intro value uri hresolve
  have hbinding : (binding scope (splitName value.toList).1).getD "" = uri := by
    obtain hsome | ⟨hnone, -, huri⟩ := resolveNs_eq_ok.mp hresolve
    · rw [hsome, Option.getD_some]
    · rw [hnone, Option.getD_none, huri]
  unfold XmlNode.resolveQName
  rw [h]
  exact congrArg (qnameOf · _) hbinding

section
variable (charCode : Text → Option Int) (limits : Limits)

def OwnNames (input : Text) : Prop :=
  (∀ message, (scan charCode limits input).2 ≠ .failed message) →
    ∀ scope tag, Located (scan charCode limits input).1 scope tag →
      ∀ use ∈ tag.uses, OwnName scope tag use.1

end

end Apim.Xml
