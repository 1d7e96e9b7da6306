import Mathlib.Data.List.Forall2
import Mathlib.Data.List.TakeWhile
import Apim.Shared.XmlWriter

/-!
# The names of a parsed document

Every tag of a scan has names made of the characters of names, and so has every node of the tree that
`parseDocument` builds of it.
-/

namespace Apim.Xml
open Guard

structure StartTag.Named (tag : StartTag) : Prop where
  name : NameChars tag.name.toList
  attributes : ∀ a ∈ tag.attributes, NameChars a.name.toList

mutual
def XmlNode.Named : XmlNode → Prop
  | .mk tag _ children _ => tag.Named ∧ XmlNode.NamedAll children

def XmlNode.NamedAll : List XmlNode → Prop
  | [] => True
  | node :: nodes => node.Named ∧ XmlNode.NamedAll nodes
end

theorem nameChars_span (input : Text) : NameChars (span nameChar input).1 :=
  fun _ hc => List.mem_takeWhile_imp hc

theorem nameChars_splitName {name : Text} (h : NameChars name) :
    NameChars (splitName name).2.toList := by
  unfold splitName
  cases hcut : cut [':'] name with
  | none =>
    simp only [String.toList_ofList]
    exact h
  | some parts =>
    obtain ⟨before, behind⟩ := parts
    obtain ⟨heq, -⟩ := cut_length hcut
    simp only [String.toList_ofList]
    exact fun c hc => h c (by rw [heq]; simp [hc])

variable {input : Text} {events : List Event} {builder : Builder}

section
variable {charCode : Text → Option Int} {limits : Limits}

theorem readAttribute_named {rest : Text} {a : RawAttribute}
    (h : readAttribute charCode input = .ok (some (a, rest))) : NameChars a.name := by
  have hname := nameChars_span input
  unfold readAttribute at h
  obtain ⟨name, afterName⟩ := span nameChar input
  simp only at h hname
  split at h
  · cases h
  · split at h
    · split at h
      · split at h
        · split at h
          · cases h
          · simp only [bind_eq_ok, pure_eq_ok] at h
            obtain ⟨value, -, heq⟩ := h
            cases heq
            exact hname
        · cases h
      · cases h
    · cases h

theorem readAttributes_named {turns : Nat} {rest : Text} {attributes : List RawAttribute}
    {selfClosing : Bool}
    (h : readAttributes charCode turns input = .closed attributes selfClosing rest) :
    ∀ a ∈ attributes, NameChars a.name := by
  induction turns generalizing input attributes with
  | zero => cases h
  | succ turns ih =>
    rw [readAttributes] at h
    split at h
    · cases h
    · cases h
      simp
    · cases h
      simp
    · split at h
      · cases h
      · cases h
      next a behind hread =>
        cases hrest : readAttributes charCode turns behind with
        | closed others closing last =>
          rw [hrest] at h
          cases h
          intro b hb
          cases List.mem_cons.mp hb with
          | inl heq => exact heq ▸ readAttribute_named hread
          | inr hmem => exact ih hrest b hmem
        | unfinished =>
          rw [hrest] at h
          cases h
        | fails message =>
          rw [hrest] at h
          cases h

theorem resolveAttribute_name {declared : List Entries} {a : RawAttribute} {x : XmlAttribute}
    (h : resolveAttribute declared a = .ok x) : x.name = (splitName a.name).2 := by
  by_cases hplain : (splitName a.name).1 = ""
  · simp [resolveAttribute, hplain] at h
    rw [← h]
  · simp only [resolveAttribute, if_neg hplain, bind_eq_ok, pure_eq_ok] at h
    obtain ⟨ns, -, rfl⟩ := h
    rfl

theorem mapM_resolveAttribute_named {declared : List Entries} {attributes : List RawAttribute}
    {resolved : List XmlAttribute} (hnames : ∀ a ∈ attributes, NameChars a.name)
    (h : attributes.mapM (resolveAttribute declared) = .ok resolved) :
    ∀ x ∈ resolved, NameChars x.name.toList := by
  have hpairs := mapM_eq_ok.mp h
  clear h
  induction hpairs with
  | nil => simp
  | cons hone _ ih =>
    intro x hx
    cases List.mem_cons.mp hx with
    | inl heq =>
      rw [heq, resolveAttribute_name hone]
      exact nameChars_splitName (hnames _ List.mem_cons_self)
    | inr hmem => exact ih (fun a ha => hnames a (List.mem_cons_of_mem _ ha)) x hmem

def EventsNamed (events : List Event) : Prop := ∀ tag, Event.start tag ∈ events → tag.Named

theorem startTag_named {s s' : ScanState} {rest : Text}
    (h : startTag charCode limits s input = .goes events s' rest) : EventsNamed events := by
  have hchars := nameChars_span input
  unfold startTag at h
  obtain ⟨raw, afterName⟩ := span nameChar input
  simp only at h hchars
  split at h
  · cases h
  split at h
  · cases h
  split at h
  · cases h
  split at h
  · cases h
  split at h
  · cases h
  · cases h
  next attributes selfClosing behind hread =>
    split at h
    · cases h
    split at h
    · cases h
    next ns resolved hresolved =>
      cases h
      simp only [bind_eq_ok, pure_eq_ok] at hresolved
      obtain ⟨ns', -, resolved', hmapM, heq⟩ := hresolved
      cases heq
      intro tag htag
      cases List.mem_singleton.mp htag
      have hnames : ∀ a ∈ attributes.filter fun a => (declares a).isNone, NameChars a.name :=
        fun a ha => readAttributes_named hread a (List.mem_filter.mp ha).1
      exact ⟨nameChars_splitName hchars, mapM_resolveAttribute_named hnames hmapM⟩

theorem endTag_named {s s' : ScanState} {rest : Text} (h : endTag s input = .goes events s' rest) :
    EventsNamed events := by
  unfold endTag at h
  split at h
  · cases h
  split at h
  · cases h
  simp only at h
  split at h
  · cases h
  cases h
  intro tag htag
  cases List.mem_singleton.mp htag

theorem markup_named {s s' : ScanState} {rest : Text}
    (h : markup charCode limits s input = .goes events s' rest) : EventsNamed events := by
  have hnone : EventsNamed [] := fun tag htag => by cases htag
  unfold markup at h
  split at h
  · split at h
    · cases h
    split at h
    · cases h
    cases h
    exact hnone
  split at h
  · split at h
    · cases h
    cases h
    exact hnone
  split at h
  · split at h
    · cases h
    cases h
    intro tag htag
    split at htag
    · cases htag
    · cases List.mem_singleton.mp htag
  split at h
  · cases h
  split at h
  · exact endTag_named h
  · exact startTag_named h

theorem scanFrom_named (turns : Nat) (s : ScanState) (input : Text) :
    EventsNamed (scanFrom charCode limits turns s input).1 := by
  induction turns generalizing s input with
  | zero => exact fun tag htag => by cases htag
  | succ turns ih =>
    have htext : ∀ text : Text, EventsNamed (textEvents text) := by
      intro text tag htag
      unfold textEvents at htag
      split at htag
      · cases htag
      · cases List.mem_singleton.mp htag
    rw [scanFrom]
    split
    · exact fun tag htag => by cases htag
    simp only
    split
    · exact htext _
    split
    · exact htext _
    next events s' rest hmarkup =>
      intro tag htag
      simp only [List.append_assoc, List.mem_append] at htag
      obtain hbefore | hevents | hrest := htag
      · exact htext _ tag hbefore
      · exact markup_named hmarkup tag hevents
      · exact ih s' rest tag hrest

theorem scan_named (input : Text) : EventsNamed (scan charCode limits input).1 := by
  unfold scan
  split
  · exact fun tag htag => by cases htag
  · exact scanFrom_named _ _ _

/-! ### The tree -/

theorem XmlNode.namedAll_iff {nodes : List XmlNode} :
    XmlNode.NamedAll nodes ↔ ∀ node ∈ nodes, node.Named := by
  induction nodes with
  | nil => simp [XmlNode.NamedAll]
  | cons node nodes ih => simp [XmlNode.NamedAll, ih]

structure Builder.Named (builder : Builder) : Prop where
  roots : ∀ node ∈ builder.roots, node.Named
  frames : ∀ frame ∈ builder.frames, frame.tag.Named ∧ ∀ node ∈ frame.children, node.Named

theorem Builder.Named.add (h : builder.Named) {node : XmlNode} (hnode : node.Named) :
    (builder.add node).Named := by
  unfold Builder.add
  obtain ⟨roots, frames⟩ := builder
  cases frames with
  | nil =>
    refine ⟨?_, h.frames⟩
    intro other hother
    cases List.mem_append.mp hother with
    | inl hold => exact h.roots other hold
    | inr hnew => exact List.mem_singleton.mp hnew ▸ hnode
  | cons frame frames =>
    have hframe := h.frames frame List.mem_cons_self
    refine ⟨h.roots, ?_⟩
    intro other hother
    cases List.mem_cons.mp hother with
    | inl heq =>
      rw [heq]
      refine ⟨hframe.1, ?_⟩
      intro child hchild
      cases List.mem_append.mp hchild with
      | inl hold => exact hframe.2 child hold
      | inr hnew => exact List.mem_singleton.mp hnew ▸ hnode
    | inr hmem => exact h.frames other (List.mem_cons_of_mem _ hmem)

theorem Builder.Named.close (h : builder.Named) : builder.close.Named := by
  unfold Builder.close
  obtain ⟨roots, frames⟩ := builder
  cases frames with
  | nil => exact h
  | cons frame frames =>
    have hframe := h.frames frame List.mem_cons_self
    have hrest : Builder.Named ⟨roots, frames⟩ :=
      ⟨h.roots, fun other hother => h.frames other (List.mem_cons_of_mem _ hother)⟩
    exact hrest.add ⟨hframe.1, XmlNode.namedAll_iff.mpr hframe.2⟩

theorem Builder.Named.addText (h : builder.Named) (text : Text) : (builder.addText text).Named := by
  unfold Builder.addText
  obtain ⟨roots, frames⟩ := builder
  cases frames with
  | nil => exact h
  | cons frame frames =>
    refine ⟨h.roots, ?_⟩
    intro other hother
    cases List.mem_cons.mp hother with
    | inl heq => exact heq ▸ h.frames frame List.mem_cons_self
    | inr hmem => exact h.frames other (List.mem_cons_of_mem _ hmem)

theorem Builder.Named.event {next : Builder} (h : builder.Named) {event : Event}
    (hevent : ∀ tag, event = .start tag → tag.Named)
    (hnext : Builder.event charCode builder event = .ok next) : next.Named := by
  cases event with
  | start tag =>
    have htag := hevent tag rfl
    rw [Builder.event] at hnext
    cases hnext
    split
    · exact h.add ⟨htag, trivial⟩
    · refine ⟨h.roots, ?_⟩
      intro other hother
      cases List.mem_cons.mp hother with
      | inl heq =>
        rw [heq]
        exact ⟨htag, fun child hchild => by cases hchild⟩
      | inr hmem => exact h.frames other hmem
  | close =>
    cases hnext
    exact h.close
  | text raw =>
    rw [Builder.event] at hnext
    simp only [bind_eq_ok, pure_eq_ok] at hnext
    obtain ⟨text, -, rfl⟩ := hnext
    exact h.addText text
  | cdata text =>
    cases hnext
    exact h.addText text

theorem Builder.Named.foldlM {final : Builder} (h : builder.Named) (hevents : EventsNamed events)
    (hfinal : events.foldlM (Builder.event charCode) builder = .ok final) : final.Named := by
  induction events generalizing builder with
  | nil =>
    rw [List.foldlM_nil, pure_eq_ok] at hfinal
    exact hfinal ▸ h
  | cons event events ih =>
    rw [List.foldlM_cons, bind_eq_ok] at hfinal
    obtain ⟨next, hnext, hrest⟩ := hfinal
    have hone : next.Named := h.event (fun tag heq => hevents tag (heq ▸ List.mem_cons_self)) hnext
    exact ih hone (fun tag htag => hevents tag (List.mem_cons_of_mem _ htag)) hrest

theorem Builder.Named.finish (h : builder.Named) : ∀ node ∈ builder.finish, node.Named := by
  have hfold : ∀ (frames : List Frame) (b : Builder), b.Named →
      (frames.foldl (fun (b : Builder) _ => b.close) b).Named := by
    intro frames
    induction frames with
    | nil => exact fun b hb => hb
    | cons frame frames ih => exact fun b hb => ih b.close hb.close
  exact (hfold builder.frames builder h).roots

theorem parseDocument_named {root : XmlNode} (h : parseDocument charCode limits input = .ok root) :
    root.Named := by
  have hempty : Builder.Named ({} : Builder) := by
    constructor
    · intro node hnode
      cases hnode
    · intro frame hframe
      cases hframe
  unfold parseDocument at h
  simp only [bind_eq_ok] at h
  obtain ⟨builder, hbuilder, hroot⟩ := h
  have hnamed := hempty.foldlM (scan_named input) hbuilder
  split at hroot
  · cases hroot
  · cases hroot
  split at hroot
  next node nodes hfinish =>
    cases hroot
    exact hnamed.finish _ (by rw [hfinish]; exact List.mem_cons_self)
  next => cases hroot

end

end Apim.Xml
