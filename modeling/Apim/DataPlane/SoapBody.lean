import Apim.Lib.Guard
import Apim.Shared.XmlWriter

/-!
# The body element of an envelope, written again

Validation is handed the first element of a SOAP body as a text of its own
(`data-plane/src/pipeline.ts:2288-2337`). `serialize` writes it and `parseDocument` reads it again; what
the second reading makes of an element is `reread`.
-/

namespace Apim.DataPlane
open Xml
open Routing (isSpace utf16Length)

inductive Element where
  | mk (ns name : String) (attributes nsAttributes : Entries) (text : Text) (children : List Element)

mutual
def elementOf : XmlNode → Element
  | .mk tag scope children text =>
    let node := XmlNode.mk tag scope [] text
    .mk node.ns node.name node.attributes node.nsAttributes text (elementsOf children)

def elementsOf : List XmlNode → List Element
  | [] => []
  | node :: nodes => elementOf node :: elementsOf nodes
end

def nsQualifier (i : Nat) : Text := 'n' :: (toString i).toList

/-- `qname` split at its first closing brace: `slice(1, close)` and `slice(close + 1)`, with -1 for
`close` where there is none. -/
def splitQName (qname : String) : Text × Text :=
  match cut ['\x7d'] qname.toList with
  | some (before, behind) => (before.drop 1, behind)
  | none => ((qname.toList.drop 1).dropLast, qname.toList)

def nsAttributeTexts (entry : (String × String) × Nat) : List RawAttribute :=
  let ((qname, value), i) := entry
  let (ns, name) := splitQName qname
  [⟨"xmlns:".toList ++ nsQualifier i, ns⟩, ⟨nsQualifier i ++ ':' :: name, value.toList⟩]

/-- `attributes` of `serialize`, in their order. `inherited` is the default namespace in scope. -/
def writtenAttributes (inherited : Option String) (ns : String) (attributes nsAttributes : Entries) :
    List RawAttribute :=
  (if ns ≠ "" ∧ inherited ≠ some ns then [⟨"xmlns".toList, ns.toList⟩] else []) ++
    attributes.map (fun entry => ⟨entry.1.toList, entry.2.toList⟩) ++
    nsAttributes.zipIdx.flatMap nsAttributeTexts

def scopeWithin (inherited : Option String) (ns : String) : Option String :=
  if ns ≠ "" then some ns else inherited

mutual
def serialize (inherited : Option String) : Element → Text
  | .mk ns name attributes nsAttributes text children =>
    '<' :: (name.toList ++ (attributesText (writtenAttributes inherited ns attributes nsAttributes) ++
      '>' :: (escapeXml text ++ (serializeAll (scopeWithin inherited ns) children ++
        '<' :: '/' :: (name.toList ++ ['>'])))))

def serializeAll (inherited : Option String) : List Element → Text
  | [] => []
  | element :: elements => serialize inherited element ++ serializeAll inherited elements
end

def soapBodyChild (charCode : Text → Option Int) (limits : Limits) (envelope : Text) : Option Text :=
  match parseDocument charCode limits envelope with
  | .error _ => none
  | .ok root =>
    let body := root.children.find? fun child => child.name == "Body"
    (body.bind fun body => body.children.head?).map fun first => serialize none (elementOf first)

/-! ### What the second reading makes of an element -/

mutual
def reread (limits : Limits) (declared : List Entries) (depth count : Nat)
    (inherited : Option String) : Element → Option (XmlNode × Nat)
  | .mk ns name attributes nsAttributes text children => do
    let tag ← tagOf limits declared count depth name.toList
      (writtenAttributes inherited ns attributes nsAttributes)
    let (nodes, count) ← rereadAll limits (tag.declarations :: declared) (depth + 1) (count + 1)
      (scopeWithin inherited ns) children
    some (.mk tag (tag.declarations :: declared) nodes (if text.all isSpace then [] else text), count)

def rereadAll (limits : Limits) (declared : List Entries) (depth count : Nat)
    (inherited : Option String) : List Element → Option (List XmlNode × Nat)
  | [] => some ([], count)
  | element :: elements => do
    let (node, count) ← reread limits declared depth count inherited element
    let (nodes, count) ← rereadAll limits declared depth count inherited elements
    some (node :: nodes, count)
end

mutual
def eventsOf : XmlNode → List Xml.Event
  | .mk tag _ children text =>
    .start tag :: (textEvents (escapeXml text) ++ (eventsOfAll children ++ [.close]))

def eventsOfAll : List XmlNode → List Xml.Event
  | [] => []
  | node :: nodes => eventsOf node ++ eventsOfAll nodes
end

mutual
def Element.size : Element → Nat
  | .mk _ _ _ _ _ children => 1 + sizeAll children

def sizeAll : List Element → Nat
  | [] => 0
  | element :: elements => element.size + sizeAll elements
end

mutual
def Tokens (inherited : Option String) : Element → Prop
  | .mk ns name attributes nsAttributes _ children =>
    NameChars name.toList ∧
      (∀ a ∈ writtenAttributes inherited ns attributes nsAttributes, NameChars a.name) ∧
      TokensAll (scopeWithin inherited ns) children

def TokensAll (inherited : Option String) : List Element → Prop
  | [] => True
  | element :: elements => Tokens inherited element ∧ TokensAll inherited elements
end

/-! ### The scan of what was written -/

theorem exists_serializeAll (inherited : Option String) (elements : List Element) (rest : Text) :
    ∃ tail, serializeAll inherited elements ++ '<' :: rest = '<' :: tail := by
  cases elements with
  | nil => exact ⟨rest, rfl⟩
  | cons element elements =>
    obtain ⟨ns, name, attributes, nsAttributes, text, children⟩ := element
    exact ⟨_, rfl⟩

theorem textEvents_kept (text : Text) :
    textEvents (escapeXml (if text.all isSpace then [] else text)) = textEvents (escapeXml text) := by
  by_cases hblank : text.all isSpace = true
  · have hescaped : (escapeXml text).all isSpace = true := (all_isSpace_escapeXml text).trans hblank
    rw [if_pos hblank, textEvents, textEvents, if_pos hescaped]
    rfl
  · rw [if_neg hblank]

def behind (s : ScanState) (count : Nat) : ScanState :=
  { s with elements := count, sawRoot := true }

section
variable (charCode : Text → Option Int) (limits : Limits)

theorem markup_written (s : ScanState) {name : Text} (hname : NameChars name)
    {attributes : List RawAttribute} (hnames : ∀ a ∈ attributes, NameChars a.name) (rest : Text) :
    markup charCode limits s ('<' :: (name ++ (attributesText attributes ++ '>' :: rest))) =
      startTag charCode limits s (name ++ (attributesText attributes ++ '>' :: rest)) := by
  have hhead : ∃ c tail, name ++ (attributesText attributes ++ '>' :: rest) = c :: tail ∧
      c ≠ '?' ∧ c ≠ '!' ∧ c ≠ '/' := by
    cases name with
    | cons c name =>
      have hc := hname c List.mem_cons_self
      refine ⟨c, _, rfl, ?_, ?_, ?_⟩
      · exact fun h => absurd hc (by rw [h]; decide)
      · exact fun h => absurd hc (by rw [h]; decide)
      · exact fun h => absurd hc (by rw [h]; decide)
    | nil =>
      cases attributes with
      | nil => exact ⟨'>', rest, rfl, by decide, by decide, by decide⟩
      | cons a attributes => exact ⟨' ', _, rfl, by decide, by decide, by decide⟩
  obtain ⟨c, tail, heq, hquestion, hbang, hslash⟩ := hhead
  rw [heq]
  exact markup_startTag charCode limits s hquestion hbang hslash tail

mutual
theorem scanFrom_serialize (turns : Nat) (s : ScanState) (inherited : Option String) :
    (element : Element) → Tokens inherited element → (rest : Text) →
    match reread limits s.declared s.openTags.length s.elements inherited element with
    | some (node, count) =>
      scanFrom charCode limits (turns + 2 * element.size) s (serialize inherited element ++ rest) =
        after (eventsOf node) (scanFrom charCode limits turns (behind s count) rest)
    | none => ∃ message, (scanFrom charCode limits (turns + 2 * element.size) s
        (serialize inherited element ++ rest)).2 = .failed message
  | .mk ns name attributes nsAttributes text children, htokens, rest => by
    obtain ⟨hname, hnames, hchildren⟩ := htokens
    generalize hwritten : writtenAttributes inherited ns attributes nsAttributes = written at hnames
    have hturns : turns + 2 * (Element.mk ns name attributes nsAttributes text children).size =
        turns + 1 + 2 * sizeAll children + 1 := by
      simp only [Element.size]
      omega
    obtain ⟨inner, hinner⟩ := exists_serializeAll (scopeWithin inherited ns) children
      ('/' :: (name.toList ++ '>' :: rest))
    have htext : serialize inherited (.mk ns name attributes nsAttributes text children) ++ rest =
        '<' :: (name.toList ++ (attributesText written ++ '>' :: (escapeXml text ++ '<' :: inner))) := by
      rw [← hinner, ← hwritten]
      simp [serialize]
    have hstart := startTag_written charCode limits s hname hnames (escapeXml text ++ '<' :: inner)
    have hmarkup := markup_written charCode limits s hname hnames (escapeXml text ++ '<' :: inner)
    rw [hturns, htext, scanFrom_markup, hmarkup, reread, hwritten]
    cases htag : tagOf limits s.declared s.elements s.openTags.length name.toList written with
    | none =>
      rw [htag] at hstart
      obtain ⟨message, hstart⟩ := hstart
      rw [hstart]
      exact ⟨message, rfl⟩
    | some tag =>
      rw [htag] at hstart
      have hrest := scanFrom_serializeAll (turns + 1) (s.opened name.toList tag)
        (scopeWithin inherited ns) rfl children hchildren ('<' :: '/' :: (name.toList ++ '>' :: rest))
      have hcount : turns + 1 + 2 * sizeAll children = turns + 2 * sizeAll children + 1 := by omega
      rw [hcount] at hrest ⊢
      rw [hstart]
      simp only [scanFrom_text charCode limits _ _ (lt_notMem_escapeXml text)]
      simp only [ScanState.opened, List.length_cons] at hrest
      simp only [ScanState.opened, Option.bind_eq_bind, Option.bind_some]
      cases hnodes : rereadAll limits (tag.declarations :: s.declared) (s.openTags.length + 1)
          (s.elements + 1) (scopeWithin inherited ns) children with
      | none =>
        rw [hnodes] at hrest
        obtain ⟨message, hrest⟩ := hrest
        rw [hinner] at hrest
        simp only [Option.bind_none]
        exact ⟨message, by simpa using hrest⟩
      | some result =>
        obtain ⟨nodes, count⟩ := result
        rw [hnodes] at hrest
        have hend := endTag_written (behind (s.opened name.toList tag) count) hname rfl rest
        have hlast := scanFrom_markup charCode limits turns
          (behind (s.opened name.toList tag) count) ('/' :: (name.toList ++ '>' :: rest))
        rw [markup_endTag, hend] at hlast
        simp only [ScanState.opened, behind, List.tail_cons] at hlast hrest
        simp only [hlast, hinner, after_after] at hrest
        simp only [Option.bind_some, hrest, after_after, behind]
        rw [eventsOf, textEvents_kept]
        simp

theorem scanFrom_serializeAll (turns : Nat) (s : ScanState) (inherited : Option String)
    (hroot : s.sawRoot = true) :
    (elements : List Element) → TokensAll inherited elements → (rest : Text) →
    match rereadAll limits s.declared s.openTags.length s.elements inherited elements with
    | some (nodes, count) =>
      scanFrom charCode limits (turns + 2 * sizeAll elements) s (serializeAll inherited elements ++ rest) =
        after (eventsOfAll nodes) (scanFrom charCode limits turns (behind s count) rest)
    | none => ∃ message, (scanFrom charCode limits (turns + 2 * sizeAll elements) s
        (serializeAll inherited elements ++ rest)).2 = .failed message
  | [], _, rest => by
    have hs : behind s s.elements = s := by
      unfold behind
      rw [← hroot]
    simp [rereadAll, serializeAll, sizeAll, eventsOfAll, hs]
  | element :: elements, htokens, rest => by
    obtain ⟨helement, helements⟩ := htokens
    have hfirst := scanFrom_serialize (turns + 2 * sizeAll elements) s inherited element helement
      (serializeAll inherited elements ++ rest)
    have hturns : turns + 2 * sizeAll (element :: elements) =
        turns + 2 * sizeAll elements + 2 * element.size := by
      simp only [sizeAll]
      omega
    rw [hturns, serializeAll, List.append_assoc, rereadAll]
    cases hnode : reread limits s.declared s.openTags.length s.elements inherited element with
    | none =>
      rw [hnode] at hfirst
      exact hfirst
    | some result =>
      obtain ⟨node, count⟩ := result
      rw [hnode] at hfirst
      have hrest := scanFrom_serializeAll turns (behind s count) inherited rfl elements helements rest
      simp only [behind] at hrest hfirst
      simp only [hfirst, Option.bind_eq_bind, Option.bind_some]
      cases hnodes : rereadAll limits s.declared s.openTags.length count inherited elements with
      | none =>
        rw [hnodes] at hrest
        obtain ⟨message, hrest⟩ := hrest
        simp only [Option.bind_none]
        exact ⟨message, by simpa using hrest⟩
      | some result =>
        obtain ⟨nodes, count'⟩ := result
        rw [hnodes] at hrest
        simp only [Option.bind_some, hrest, after_after, behind, eventsOfAll]
end

/-! ### The tree built of the events -/

def Frame.addAll (frame : Frame) (nodes : List XmlNode) : Frame :=
  { frame with children := frame.children ++ nodes }

theorem foldlM_textEvents (builder : Builder) (text : Text) (events : List Xml.Event) :
    (textEvents (escapeXml text) ++ events).foldlM (Builder.event charCode) builder =
      events.foldlM (Builder.event charCode)
        (builder.addText (if text.all isSpace then [] else text)) := by
  unfold textEvents
  rw [all_isSpace_escapeXml]
  by_cases hblank : text.all isSpace = true
  · rw [if_pos hblank, if_pos hblank]
    have hkept : builder.addText [] = builder := by
      unfold Builder.addText
      cases hframes : builder.frames with
      | nil => rfl
      | cons frame frames =>
        simp only [List.append_nil]
        rw [← hframes]
    rw [hkept]
    rfl
  · rw [if_neg hblank, if_neg hblank, List.cons_append, List.foldlM_cons, Builder.event,
      decodeEntities_escapeXml]
    rfl

mutual
theorem foldlM_eventsOf {depth count count' : Nat} {inherited : Option String} (builder : Builder) :
    (element : Element) → {node : XmlNode} → (events : List Xml.Event) →
    reread limits builder.scope depth count inherited element = some (node, count') →
    (eventsOf node ++ events).foldlM (Builder.event charCode) builder =
      events.foldlM (Builder.event charCode) (builder.add node)
  | .mk ns name attributes nsAttributes text children, node, events, h => by
    simp only [reread, Option.bind_eq_bind, Option.bind_eq_some_iff, Option.some.injEq,
      Prod.mk.injEq, Prod.exists] at h
    obtain ⟨tag, htag, nodes, _, hnodes, rfl, rfl⟩ := h
    have hopen : tag.selfClosing = false := by
      obtain ⟨-, ns, resolved, -, -, rfl⟩ := tagOf_eq_some.mp htag
      rfl
    generalize hkept : (if text.all isSpace then [] else text) = kept
    have hchildren := foldlM_eventsOfAll builder.frames builder.roots
      (⟨tag, tag.declarations :: builder.scope, [], kept⟩ : Frame) children
      (Xml.Event.close :: events) hnodes
    have hevents : eventsOf (.mk tag (tag.declarations :: builder.scope) nodes kept) ++ events =
        .start tag :: (textEvents (escapeXml text) ++ (eventsOfAll nodes ++ .close :: events)) := by
      rw [eventsOf, ← hkept, textEvents_kept]
      simp
    rw [hevents, List.foldlM_cons, Builder.event, hopen]
    show List.foldlM _ _ _ = _
    rw [foldlM_textEvents, hkept]
    show List.foldlM _ (⟨builder.roots, _ :: builder.frames⟩ : Builder) _ = _
    simp only [List.nil_append]
    rw [hchildren, List.foldlM_cons, Builder.event]
    show List.foldlM _ _ _ = _
    simp [Builder.close, Frame.addAll, Frame.node]

theorem foldlM_eventsOfAll {depth count count' : Nat} {inherited : Option String}
    (frames : List Frame) (roots : List XmlNode) (frame : Frame) :
    (elements : List Element) → {nodes : List XmlNode} → (events : List Xml.Event) →
    rereadAll limits frame.scope depth count inherited elements = some (nodes, count') →
    (eventsOfAll nodes ++ events).foldlM (Builder.event charCode) ⟨roots, frame :: frames⟩ =
      events.foldlM (Builder.event charCode) ⟨roots, Frame.addAll frame nodes :: frames⟩
  | [], nodes, events, h => by
    simp only [rereadAll, Option.some.injEq, Prod.mk.injEq] at h
    obtain ⟨rfl, -⟩ := h
    simp [eventsOfAll, Frame.addAll]
  | element :: elements, nodes, events, h => by
    simp only [rereadAll, Option.bind_eq_bind, Option.bind_eq_some_iff, Option.some.injEq,
      Prod.mk.injEq, Prod.exists] at h
    obtain ⟨node, _, hnode, rest, _, hrest, rfl, rfl⟩ := h
    have hfirst := foldlM_eventsOf ⟨roots, frame :: frames⟩ element (eventsOfAll rest ++ events) hnode
    have hothers := foldlM_eventsOfAll frames roots (Frame.addAll frame [node]) elements events hrest
    rw [eventsOfAll, List.append_assoc, hfirst]
    show List.foldlM _ (⟨roots, Frame.addAll frame [node] :: frames⟩ : Builder) _ = _
    rw [hothers]
    simp [Frame.addAll]
end

mutual
theorem size_le_length (inherited : Option String) : (element : Element) →
    2 * element.size ≤ (serialize inherited element).length
  | .mk ns name attributes nsAttributes text children => by
    have hchildren := sizeAll_le_length (scopeWithin inherited ns) children
    simp only [Element.size, serialize, List.length_cons, List.length_append, List.length_nil]
    omega

theorem sizeAll_le_length (inherited : Option String) : (elements : List Element) →
    2 * sizeAll elements ≤ (serializeAll inherited elements).length
  | [] => Nat.le_refl 0
  | element :: elements => by
    have hfirst := size_le_length inherited element
    have hrest := sizeAll_le_length inherited elements
    simp only [sizeAll, serializeAll, List.length_append]
    omega
end

theorem parseDocument_failed {input : Text} {message : String}
    (h : (scan charCode limits input).2 = .failed message) :
    ∃ message, parseDocument charCode limits input = .error message := by
  unfold parseDocument
  cases hscan : scan charCode limits input with | mk events ending => ?_
  rw [hscan] at h
  simp only at h
  subst h
  cases hbuilder : events.foldlM (Builder.event charCode) {} with
  | error failure =>
    simp only [hbuilder]
    exact ⟨failure, rfl⟩
  | ok builder =>
    simp only [hbuilder]
    exact ⟨message, rfl⟩

theorem parseDocument_serialize {element : Element} (htokens : Tokens none element) (node : XmlNode) :
    parseDocument charCode limits (serialize none element) = .ok node ↔
      utf16Length (serialize none element) ≤ limits.maxBytes ∧
        ∃ count, reread limits [] 0 0 none element = some (node, count) := by
  by_cases hbytes : limits.maxBytes < utf16Length (serialize none element)
  · have hscan : (scan charCode limits (serialize none element)).2 =
        .failed s!"document longer than {limits.maxBytes} bytes" := by
      rw [scan, if_pos hbytes]
    obtain ⟨message, herror⟩ := parseDocument_failed charCode limits hscan
    rw [herror]
    constructor
    · intro h
      cases h
    · intro h
      exact absurd h.1 (by omega)
  have hsize := size_le_length none element
  obtain ⟨turns, hturns⟩ : ∃ turns, (serialize none element).length + 1 =
      turns + 1 + 2 * element.size :=
    ⟨(serialize none element).length - 2 * element.size, by omega⟩
  have hscan := scanFrom_serialize charCode limits (turns + 1) {} none element htokens []
  rw [List.append_nil, ← hturns] at hscan
  have hwhole : scan charCode limits (serialize none element) =
      scanFrom charCode limits ((serialize none element).length + 1) {} (serialize none element) := by
    rw [scan, if_neg hbytes]
  cases hread : reread limits [] 0 0 none element with
  | none =>
    have hfailed : ∃ message, (scan charCode limits (serialize none element)).2 = .failed message := by
      rw [hwhole]
      simpa [hread] using hscan
    obtain ⟨message, hfailed⟩ := hfailed
    obtain ⟨message, herror⟩ := parseDocument_failed charCode limits hfailed
    rw [herror]
    constructor
    · intro h
      cases h
    · rintro ⟨_, count, h⟩
      cases h
  | some result =>
    obtain ⟨root, count⟩ := result
    have hevents : scan charCode limits (serialize none element) = (eventsOf root, .finished) := by
      rw [hwhole]
      simp only [hread, List.length_nil] at hscan
      rw [hscan]
      simp [scanFrom, behind, after]
    have hbuilt := foldlM_eventsOf charCode limits {} element [] hread
    have hparsed : parseDocument charCode limits (serialize none element) = .ok root := by
      unfold parseDocument
      rw [hevents]
      rw [List.append_nil] at hbuilt
      show (List.foldlM (Builder.event charCode) {} (eventsOf root) >>= _) = _
      rw [hbuilt]
      rfl
    rw [hparsed]
    constructor
    · intro h
      cases h
      exact ⟨by omega, count, rfl⟩
    · rintro ⟨_, _, h⟩
      cases h
      rfl

end

end Apim.DataPlane
