import Apim.Shared.XmlScopes

/-!
# The first element of the body

`scanEnvelope` reads the start of a document and stops at the first element behind a body that is one
level deeper (`shared/xml.ts:448-494`). The tags of a document come in its order (`tagsIn`), so the first
child of an element is the tag behind its own, one level deeper; the same holds of the tree.
-/

namespace Apim.Xml
open Guard
open Routing (utf16Length)

def tagsIn (events : List Event) : List StartTag :=
  events.filterMap fun event =>
    match event with
    | .start tag => some tag
    | _ => none

def versionBehind (version : Option String) (tags : List StartTag) : Option String :=
  tags.foldl (fun version tag => if tag.depth = 0 then some tag.ns else version) version

def IsEnvelope (tag : StartTag) : Prop :=
  (tag.ns = SOAP_11_ENVELOPE ∨ tag.ns = SOAP_12_ENVELOPE) ∧ tag.name = "Envelope"

def IsBody (version : Option String) (tag : StartTag) : Prop :=
  tag.depth = 1 ∧ tag.name = "Body" ∧ version = some tag.ns

structure FoundBehind (version : Option String) (between : List StartTag) (child : StartTag)
    (ns : String) : Prop where
  depth : child.depth = 2
  passed : ∀ tag ∈ between, tag.depth ≠ 2
  envelopes : ∀ tag ∈ between, tag.depth = 0 → IsEnvelope tag
  ns : ns = (versionBehind version between).getD SOAP_11_ENVELOPE

structure Found (version : Option String) (before : List StartTag) (body : StartTag)
    (between : List StartTag) (child : StartTag) (ns : String) : Prop where
  envelopes : ∀ tag ∈ before, tag.depth = 0 → IsEnvelope tag
  isBody : IsBody (versionBehind version before) body
  first : ∀ front tag back, before = front ++ tag :: back → ¬IsBody (versionBehind version front) tag
  child : FoundBehind (versionBehind version before) between child ns

/-! ### What the scan finds -/

theorem tagsIn_append (front back : List Event) : tagsIn (front ++ back) = tagsIn front ++ tagsIn back :=
  List.filterMap_append

theorem versionBehind_cons (version : Option String) (tag : StartTag) (tags : List StartTag) :
    versionBehind version (tag :: tags) =
      versionBehind (if tag.depth = 0 then some tag.ns else version) tags := rfl

variable {version : Option String} {tag : StartTag}

theorem foundBehind_cons {child : StartTag} {between : List StartTag} {ns : String} :
    FoundBehind version (tag :: between) child ns ↔ tag.depth ≠ 2 ∧ (tag.depth = 0 → IsEnvelope tag) ∧
      FoundBehind (if tag.depth = 0 then some tag.ns else version) between child ns := by
  constructor
  · intro h
    have hbetween := List.forall_mem_cons.mp h.passed
    have henvelopes := List.forall_mem_cons.mp h.envelopes
    exact ⟨hbetween.1, henvelopes.1, h.depth, hbetween.2, henvelopes.2, h.ns⟩
  · rintro ⟨htag, henvelope, h⟩
    exact ⟨h.depth, List.forall_mem_cons.mpr ⟨htag, h.passed⟩,
      List.forall_mem_cons.mpr ⟨henvelope, h.envelopes⟩, h.ns⟩

theorem found_cons {body child : StartTag} {before between : List StartTag} {ns : String} :
    Found version (tag :: before) body between child ns ↔ (tag.depth = 0 → IsEnvelope tag) ∧
      ¬IsBody version tag ∧
      Found (if tag.depth = 0 then some tag.ns else version) before body between child ns := by
  constructor
  · intro h
    have henvelopes := List.forall_mem_cons.mp h.envelopes
    refine ⟨henvelopes.1, h.first [] tag before rfl, henvelopes.2, h.isBody, ?_, h.child⟩
    intro front other back hbefore
    refine h.first (tag :: front) other back ?_
    rw [hbefore]
    rfl
  · rintro ⟨henvelope, hbody, h⟩
    refine ⟨List.forall_mem_cons.mpr ⟨henvelope, h.envelopes⟩, h.isBody, ?_, h.child⟩
    intro front other back hbefore
    cases front with
    | nil =>
      cases hbefore
      exact hbody
    | cons first front =>
      cases hbefore
      exact h.first front other back rfl

variable {events : List Event}

section
variable {ending : Ending} {ns : String} {child : StartTag}

theorem envelopeFrom_root {inBody : Bool} {r : EnvelopeScan} (hdepth : tag.depth = 0) :
    envelopeFrom ending version inBody (.start tag :: events) = .ok r ↔
      IsEnvelope tag ∧ envelopeFrom ending (some tag.ns) inBody events = .ok r := by
  rw [envelopeFrom, if_pos hdepth]
  unfold IsEnvelope
  by_cases hns : tag.ns = SOAP_11_ENVELOPE ∨ tag.ns = SOAP_12_ENVELOPE
  · rw [if_neg (by tauto)]
    by_cases hname : tag.name = "Envelope"
    · rw [if_neg (not_not_intro hname)]
      exact ⟨fun h => ⟨⟨hns, hname⟩, h⟩, fun h => h.2⟩
    · rw [if_pos hname]
      exact ⟨fun h => (nomatch h), fun h => absurd h.1.2 hname⟩
  · rw [if_pos (by tauto)]
    exact ⟨fun h => (nomatch h), fun h => absurd h.1.1 hns⟩

theorem envelopeFrom_nil (version : Option String) (inBody : Bool) :
    envelopeFrom ending version inBody [] ≠ .ok ⟨ns, some child⟩ := by
  unfold envelopeFrom
  cases ending with
  | failed message => exact nofun
  | finished =>
    cases version with
    | none => exact nofun
    | some version => exact fun h => nomatch h
  | truncated =>
    cases version with
    | none => exact nofun
    | some version => exact fun h => nomatch h

theorem envelopeFrom_behind :
    envelopeFrom ending version true events = .ok ⟨ns, some child⟩ ↔
      ∃ between after, tagsIn events = between ++ child :: after ∧ FoundBehind version between child ns := by
  induction events generalizing version with
  | nil =>
    refine ⟨fun h => absurd h (envelopeFrom_nil version true), fun ⟨between, after, h, _⟩ => ?_⟩
    cases between <;> cases h
  | cons event events ih =>
    cases event with
    | close => exact ih
    | text raw => exact ih
    | cdata text => exact ih
    | start tag =>
      have htags : tagsIn (.start tag :: events) = tag :: tagsIn events := rfl
      have hshift : (∃ between after, tagsIn events = between ++ child :: after ∧
          FoundBehind (if tag.depth = 0 then some tag.ns else version) between child ns) →
          tag.depth ≠ 2 → (tag.depth = 0 → IsEnvelope tag) →
          ∃ between after, tagsIn (.start tag :: events) = between ++ child :: after ∧
            FoundBehind version between child ns := by
        rintro ⟨between, after, hevents, hfound⟩ hdepth henvelope
        refine ⟨tag :: between, after, ?_, foundBehind_cons.mpr ⟨hdepth, henvelope, hfound⟩⟩
        rw [htags, hevents]
        rfl
      have hunshift : tag.depth ≠ 2 → (∃ between after, tagsIn (.start tag :: events) =
          between ++ child :: after ∧ FoundBehind version between child ns) →
          (tag.depth = 0 → IsEnvelope tag) ∧ ∃ between after, tagsIn events = between ++ child :: after ∧
            FoundBehind (if tag.depth = 0 then some tag.ns else version) between child ns := by
        rintro hdepth ⟨between, after, hevents, hfound⟩
        rw [htags] at hevents
        cases between with
        | nil =>
          cases hevents
          exact absurd hfound.depth hdepth
        | cons first between =>
          obtain ⟨rfl, htail⟩ := List.cons.inj hevents
          obtain ⟨-, henvelope, hrest⟩ := foundBehind_cons.mp hfound
          exact ⟨henvelope, between, after, htail, hrest⟩
      by_cases hroot : tag.depth = 0
      · have hne : tag.depth ≠ 2 := by omega
        rw [envelopeFrom_root hroot]
        simp only [if_pos hroot] at hshift hunshift
        constructor
        · exact fun h => hshift (ih.mp h.2) hne fun _ => h.1
        · intro h
          obtain ⟨henvelope, hrest⟩ := hunshift hne h
          exact ⟨henvelope hroot, ih.mpr hrest⟩
      · simp only [if_neg hroot] at hshift hunshift
        rw [envelopeFrom, if_neg hroot, if_neg (by simp)]
        by_cases hchild : tag.depth = 2
        · rw [if_pos (by simp [hchild])]
          constructor
          · intro h
            cases h
            exact ⟨[], tagsIn events, rfl, hchild, nofun, nofun, rfl⟩
          · rintro ⟨between, after, hevents, hfound⟩
            rw [htags] at hevents
            cases between with
            | nil =>
              cases hevents
              rw [hfound.ns]
              rfl
            | cons first between =>
              obtain ⟨rfl, -⟩ := List.cons.inj hevents
              exact absurd hchild (foundBehind_cons.mp hfound).1
        · rw [if_neg (by simp [hchild])]
          exact ⟨fun h => hshift (ih.mp h) hchild fun h => absurd h hroot,
            fun h => ih.mpr (hunshift hchild h).2⟩

theorem envelopeFrom_found :
    envelopeFrom ending version false events = .ok ⟨ns, some child⟩ ↔
      ∃ before body between after, tagsIn events = before ++ body :: (between ++ child :: after) ∧
        Found version before body between child ns := by
  induction events generalizing version with
  | nil =>
    refine ⟨fun h => absurd h (envelopeFrom_nil version false), fun ⟨before, _, _, _, h, _⟩ => ?_⟩
    cases before <;> cases h
  | cons event events ih =>
    cases event with
    | close => exact ih
    | text raw => exact ih
    | cdata text => exact ih
    | start tag =>
      have htags : tagsIn (.start tag :: events) = tag :: tagsIn events := rfl
      have hshift : (tag.depth = 0 → IsEnvelope tag) → ¬IsBody version tag →
          (∃ before body between after, tagsIn events = before ++ body :: (between ++ child :: after) ∧
            Found (if tag.depth = 0 then some tag.ns else version) before body between child ns) →
          ∃ before body between after,
            tagsIn (.start tag :: events) = before ++ body :: (between ++ child :: after) ∧
              Found version before body between child ns := by
        rintro henvelope hbody ⟨before, body, between, after, hevents, hfound⟩
        refine ⟨tag :: before, body, between, after, ?_, found_cons.mpr ⟨henvelope, hbody, hfound⟩⟩
        rw [htags, hevents]
        rfl
      have hunshift : ¬IsBody version tag → (∃ before body between after,
          tagsIn (.start tag :: events) = before ++ body :: (between ++ child :: after) ∧
            Found version before body between child ns) →
          (tag.depth = 0 → IsEnvelope tag) ∧ ∃ before body between after,
            tagsIn events = before ++ body :: (between ++ child :: after) ∧
              Found (if tag.depth = 0 then some tag.ns else version) before body between child ns := by
        rintro hbody ⟨before, body, between, after, hevents, hfound⟩
        rw [htags] at hevents
        cases before with
        | nil =>
          obtain ⟨rfl, -⟩ := List.cons.inj hevents
          exact absurd hfound.isBody hbody
        | cons first before =>
          obtain ⟨rfl, htail⟩ := List.cons.inj hevents
          obtain ⟨henvelope, -, hrest⟩ := found_cons.mp hfound
          exact ⟨henvelope, before, body, between, after, htail, hrest⟩
      by_cases hroot : tag.depth = 0
      · have hbody : ¬IsBody version tag := fun h => by have := h.1; omega
        rw [envelopeFrom_root hroot]
        simp only [if_pos hroot] at hshift hunshift
        constructor
        · exact fun h => hshift (fun _ => h.1) hbody (ih.mp h.2)
        · intro h
          obtain ⟨henvelope, hrest⟩ := hunshift hbody h
          exact ⟨henvelope hroot, ih.mpr hrest⟩
      · simp only [if_neg hroot] at hshift hunshift
        rw [envelopeFrom, if_neg hroot]
        by_cases hbody : IsBody version tag
        · have henter : (!false && tag.depth = 1 && tag.name = "Body" && version = some tag.ns) = true := by
            simp [hbody.1, hbody.2.1, hbody.2.2]
          rw [if_pos henter, envelopeFrom_behind]
          constructor
          · rintro ⟨between, after, hevents, hfound⟩
            refine ⟨[], tag, between, after, ?_, nofun, hbody, ?_, hfound⟩
            · rw [htags, hevents]
              rfl
            · intro front other back h
              cases front <;> cases h
          · rintro ⟨before, body, between, after, hevents, hfound⟩
            rw [htags] at hevents
            cases before with
            | nil =>
              obtain ⟨rfl, htail⟩ := List.cons.inj hevents
              exact ⟨between, after, htail, hfound.child⟩
            | cons first before =>
              obtain ⟨rfl, -⟩ := List.cons.inj hevents
              exact absurd hbody (found_cons.mp hfound).2.1
        · have hpass : ¬(!false && tag.depth = 1 && tag.name = "Body" && version = some tag.ns) = true := by
            intro h
            simp only [Bool.not_false, Bool.true_and, Bool.and_eq_true, decide_eq_true_eq] at h
            exact hbody ⟨h.1.1, h.1.2, h.2⟩
          rw [if_neg hpass, if_neg (by simp)]
          exact ⟨fun h => hshift (fun h => absurd h hroot) hbody (ih.mp h),
            fun h => ih.mpr (hunshift hbody h).2⟩

end

/-! ### A document and its start -/

section
variable {charCode : Text → Option Int} {limits : Limits}

theorem start_notMem_textEvents (text : Text) (tag : StartTag) : Event.start tag ∉ textEvents text := by
  unfold textEvents
  split
  · exact List.not_mem_nil
  · intro h
    cases List.mem_singleton.mp h

theorem split_append {α : Type} {front back before after : List α} {x : α}
    (h : front ++ back = before ++ x :: after) :
    (∃ mid, front = before ++ x :: mid) ∨ ∃ between, before = front ++ between ∧ back = between ++ x :: after := by
  obtain ⟨between, hbefore, hback⟩ | ⟨between, hfront, hafter⟩ := List.append_eq_append_iff.mp h
  · exact .inr ⟨between, hbefore, hback⟩
  · cases between with
    | nil =>
      rw [List.append_nil] at hfront
      exact .inr ⟨[], by rw [hfront, List.append_nil], hafter.symm⟩
    | cons y between =>
      obtain ⟨rfl, -⟩ := List.cons.inj hafter
      exact .inl ⟨between, hfront⟩

theorem scanFrom_more {turns turns' : Nat} (hturns : turns ≤ turns') {s : ScanState} {input : Text}
    (more : Text) {before after : List Event}
    (h : (scanFrom charCode limits turns s input).1 = before ++ .start tag :: after) :
    ∃ after', (scanFrom charCode limits turns' s (input ++ more)).1 = before ++ .start tag :: after' := by
  induction turns generalizing turns' s input before with
  | zero =>
    cases before <;> cases h
  | succ turns ih =>
    have hnone : ∀ text, textEvents text ≠ before ++ .start tag :: after := by
      intro text heq
      apply start_notMem_textEvents text tag
      rw [heq]
      exact List.mem_append_right _ List.mem_cons_self
    obtain ⟨turns', rfl⟩ : ∃ t, turns' = t + 1 := ⟨turns' - 1, by omega⟩
    cases @turnOf charCode limits turns s input with
    | done hinput hscan =>
      rw [hscan] at h
      cases before <;> cases h
    | tail hinput htext hscan =>
      rw [hscan] at h
      exact absurd h (hnone input)
    | @ends text tail ending htext hinput hends hscan =>
      rw [hscan] at h
      exact absurd h (hnone text)
    | @goes text rest piece events s' htext hinput hvalid htakes hscan =>
      have hmore : input ++ more = text ++ (piece.text ++ (rest ++ more)) := by
        rw [hinput, List.append_assoc, List.append_assoc]
      rw [hscan] at h
      rw [hmore, scanFrom_piece htext hvalid htakes]
      obtain ⟨mid, hfront⟩ | ⟨between, hbefore, hrest⟩ := split_append h
      · refine ⟨mid ++ (scanFrom charCode limits turns' s' (rest ++ more)).1, ?_⟩
        show textEvents text ++ events ++ (scanFrom charCode limits turns' s' (rest ++ more)).1 = _
        rw [hfront, List.append_assoc, List.cons_append]
      · have hle : turns ≤ turns' := by omega
        obtain ⟨after', hafter'⟩ := ih hle hrest
        refine ⟨after', ?_⟩
        show textEvents text ++ events ++ (scanFrom charCode limits turns' s' (rest ++ more)).1 = _
        rw [hafter', hbefore]
        simp only [List.append_assoc]

theorem utf16Length_append (front back : Text) :
    utf16Length (front ++ back) = utf16Length front + utf16Length back := by
  simp only [utf16Length, List.map_append, List.sum_append]

theorem scan_more {start more : Text} (hlength : utf16Length (start ++ more) ≤ limits.maxBytes)
    {before after : List Event} (h : (scan charCode limits start).1 = before ++ .start tag :: after) :
    ∃ after', (scan charCode limits (start ++ more)).1 = before ++ .start tag :: after' := by
  have hstart : utf16Length start ≤ limits.maxBytes := by
    rw [utf16Length_append] at hlength
    omega
  rw [scan, if_neg (by omega)] at h
  rw [scan, if_neg (by omega)]
  refine scanFrom_more ?_ more h
  rw [List.length_append]
  omega

theorem events_of_tags {before after : List StartTag} (h : tagsIn events = before ++ tag :: after) :
    ∃ front back, events = front ++ .start tag :: back ∧ tagsIn front = before := by
  induction events generalizing before with
  | nil => cases before <;> cases h
  | cons event events ih =>
    have hskip : tagsIn [event] = [] → ∃ front back, event :: events = front ++ .start tag :: back ∧
        tagsIn front = before := by
      intro hnone
      have hrest : tagsIn events = before ++ tag :: after := by
        rw [← h, ← List.singleton_append, tagsIn_append, hnone, List.nil_append]
      obtain ⟨front, back, hevents, htags⟩ := ih hrest
      refine ⟨event :: front, back, by rw [hevents]; rfl, ?_⟩
      rw [← List.singleton_append, tagsIn_append, hnone, htags, List.nil_append]
    cases event with
    | close => exact hskip rfl
    | text raw => exact hskip rfl
    | cdata text => exact hskip rfl
    | start found =>
      have hcons : found :: tagsIn events = before ++ tag :: after := h
      cases before with
      | nil =>
        obtain ⟨rfl, -⟩ := List.cons.inj hcons
        exact ⟨[], events, rfl, rfl⟩
      | cons first before =>
        obtain ⟨rfl, hrest⟩ := List.cons.inj hcons
        obtain ⟨front, back, hevents, htags⟩ := ih hrest
        refine ⟨.start found :: front, back, by rw [hevents]; rfl, ?_⟩
        show found :: tagsIn front = _
        rw [htags]

theorem scanEnvelope_found {start : Text} {ns : String} {child : StartTag} :
    scanEnvelope charCode limits start = .ok ⟨ns, some child⟩ ↔
      ∃ before body between after,
        tagsIn (scan charCode limits start).1 = before ++ body :: (between ++ child :: after) ∧
          Found none before body between child ns := by
  show envelopeFrom (scan charCode limits start).2 none false (scan charCode limits start).1 = _ ↔ _
  exact envelopeFrom_found

theorem scanEnvelope_more {start more : Text} (hlength : utf16Length (start ++ more) ≤ limits.maxBytes)
    {ns : String} {child : StartTag}
    (h : scanEnvelope charCode limits start = .ok ⟨ns, some child⟩) :
    scanEnvelope charCode limits (start ++ more) = .ok ⟨ns, some child⟩ := by
  obtain ⟨before, body, between, after, htags, hfound⟩ := scanEnvelope_found.mp h
  rw [← List.cons_append, ← List.append_assoc] at htags
  obtain ⟨front, back, hevents, hfront⟩ := events_of_tags htags
  obtain ⟨back', hevents'⟩ := scan_more hlength hevents
  refine scanEnvelope_found.mpr ⟨before, body, between, tagsIn back', ?_, hfound⟩
  rw [hevents', tagsIn_append, hfront, List.append_assoc]
  rfl

end

/-! ### The tree in its order -/

mutual
def XmlNode.tags : XmlNode → List StartTag
  | .mk tag _ children _ => tag :: XmlNode.tagsAll children

def XmlNode.tagsAll : List XmlNode → List StartTag
  | [] => []
  | node :: nodes => node.tags ++ XmlNode.tagsAll nodes
end

mutual
def XmlNode.Level (depth : Nat) : XmlNode → Prop
  | .mk tag _ children _ => tag.depth = depth ∧ XmlNode.LevelAll (depth + 1) children

def XmlNode.LevelAll (depth : Nat) : List XmlNode → Prop
  | [] => True
  | node :: nodes => node.Level depth ∧ XmlNode.LevelAll depth nodes
end

theorem tagsAll_append (front back : List XmlNode) :
    XmlNode.tagsAll (front ++ back) = XmlNode.tagsAll front ++ XmlNode.tagsAll back := by
  induction front with
  | nil => rfl
  | cons node front ih => rw [List.cons_append, XmlNode.tagsAll, XmlNode.tagsAll, ih, List.append_assoc]

theorem levelAll_append {depth : Nat} {front : List XmlNode} (hfront : XmlNode.LevelAll depth front)
    {node : XmlNode} (hnode : node.Level depth) : XmlNode.LevelAll depth (front ++ [node]) := by
  induction front with
  | nil => exact ⟨hnode, trivial⟩
  | cons first front ih => exact ⟨hfront.1, ih hfront.2⟩

mutual
theorem depth_of_level {depth : Nat} : (node : XmlNode) → node.Level depth →
    ∀ tag ∈ node.tags, depth ≤ tag.depth
  | .mk first scope children text, h, tag, htag => by
    obtain rfl | hmem := List.mem_cons.mp htag
    · exact Nat.le_of_eq h.1.symm
    · have hdeeper := depth_of_levelAll children h.2 tag hmem
      omega

theorem depth_of_levelAll {depth : Nat} : (nodes : List XmlNode) → XmlNode.LevelAll depth nodes →
    ∀ tag ∈ XmlNode.tagsAll nodes, depth ≤ tag.depth
  | [], _, tag, htag => absurd htag List.not_mem_nil
  | node :: nodes, h, tag, htag => by
    obtain hmem | hmem := List.mem_append.mp htag
    · exact depth_of_level node h.1 tag hmem
    · exact depth_of_levelAll nodes h.2 tag hmem
end

def framesTags : List Frame → List StartTag
  | [] => []
  | frame :: frames => framesTags frames ++ frame.tag :: XmlNode.tagsAll frame.children

def FramesLevel : List Frame → Prop
  | [] => True
  | frame :: frames =>
    frame.tag.depth = frames.length ∧ XmlNode.LevelAll (frames.length + 1) frame.children ∧
      FramesLevel frames

structure Builder.Ordered (tags : List StartTag) (builder : Builder) : Prop where
  tags : XmlNode.tagsAll builder.roots ++ framesTags builder.frames = tags
  roots : XmlNode.LevelAll 0 builder.roots
  frames : FramesLevel builder.frames

section
variable {tags : List StartTag} {builder : Builder}

theorem Builder.Ordered.add (h : builder.Ordered tags) {node : XmlNode}
    (hnode : node.Level builder.frames.length) : (builder.add node).Ordered (tags ++ node.tags) := by
  obtain ⟨roots, frames⟩ := builder
  obtain ⟨htags, hroots, hframes⟩ := h
  have hone : XmlNode.tagsAll [node] = node.tags := List.append_nil _
  cases frames with
  | nil =>
    refine ⟨?_, levelAll_append hroots hnode, trivial⟩
    show XmlNode.tagsAll (roots ++ [node]) ++ [] = _
    rw [tagsAll_append, hone, List.append_nil, ← htags]
    simp [framesTags]
  | cons frame frames =>
    obtain ⟨hdepth, hchildren, hframes⟩ := hframes
    refine ⟨?_, hroots, hdepth, levelAll_append hchildren hnode, hframes⟩
    show XmlNode.tagsAll roots ++ (framesTags frames ++
      frame.tag :: XmlNode.tagsAll (frame.children ++ [node])) = _
    rw [tagsAll_append, hone, ← htags]
    simp [framesTags]

theorem Builder.Ordered.close (h : builder.Ordered tags) : builder.close.Ordered tags := by
  obtain ⟨roots, frames⟩ := builder
  obtain ⟨htags, hroots, hframes⟩ := h
  cases frames with
  | nil => exact ⟨htags, hroots, hframes⟩
  | cons frame frames =>
    obtain ⟨hdepth, hchildren, hframes⟩ := hframes
    have hrest : ({ roots := roots, frames := frames } : Builder).Ordered
        (XmlNode.tagsAll roots ++ framesTags frames) := ⟨rfl, hroots, hframes⟩
    have hadded := @Builder.Ordered.add _ _ hrest frame.node ⟨hdepth, hchildren⟩
    have hall : XmlNode.tagsAll roots ++ framesTags frames ++ frame.node.tags = tags := by
      rw [← htags, List.append_assoc]
      rfl
    rw [hall] at hadded
    exact hadded

theorem Builder.Ordered.addText (h : builder.Ordered tags) (text : Text) :
    (builder.addText text).Ordered tags := by
  obtain ⟨roots, frames⟩ := builder
  cases frames with
  | nil => exact h
  | cons frame frames => exact ⟨h.tags, h.roots, h.frames⟩

theorem Builder.Ordered.finish (h : builder.Ordered tags) :
    XmlNode.tagsAll builder.finish = tags ∧ XmlNode.LevelAll 0 builder.finish := by
  have hclosed : ∀ (rows : List Frame) {builder : Builder}, builder.Ordered tags →
      (rows.foldl (fun (builder : Builder) _ => builder.close) builder).Ordered tags := by
    intro rows
    induction rows with
    | nil => exact id
    | cons row rows ih => exact fun h => ih h.close
  have hlength : ∀ (rows : List Frame) {builder : Builder}, builder.frames.length ≤ rows.length →
      (rows.foldl (fun (builder : Builder) _ => builder.close) builder).frames = [] := by
    intro rows
    induction rows with
    | nil => exact fun h => List.length_eq_zero_iff.mp (Nat.le_zero.mp h)
    | cons row rows ih =>
      intro builder h
      refine ih ?_
      have hframes := congrArg List.length (frames_close builder)
      rw [List.length_map, List.length_tail, List.length_map] at hframes
      rw [List.length_cons] at h
      show builder.close.frames.length ≤ rows.length
      omega
  have hfinal := hclosed builder.frames h
  have hnone := hlength builder.frames (Nat.le_refl _)
  have htags := hfinal.tags
  rw [hnone, framesTags, List.append_nil] at htags
  exact ⟨htags, hfinal.roots⟩

theorem ordered_event {charCode : Text → Option Int} {builder' : Builder}
    {before after : List Event} {event : Event} (hevents : events = before ++ event :: after)
    (hbound : ∀ scope tag, Located events scope tag → Bound scope tag)
    (hframes : builder.frames.map Frame.tag = openBehind [] before)
    (h : builder.Ordered (tagsIn before))
    (hrun : Builder.event charCode builder event = .ok builder') :
    builder'.Ordered (tagsIn (before ++ [event])) := by
  rw [tagsIn_append]
  cases event with
  | start tag =>
    have hdepth : tag.depth = builder.frames.length := by
      have htag := (hbound _ tag ⟨before, after, hevents, rfl⟩).depth
      have hopened := congrArg List.length hframes
      rw [scopeOf, List.length_map, List.length_cons] at htag
      rw [List.length_map] at hopened
      omega
    cases hrun
    cases hclosing : tag.selfClosing with
    | true =>
      have hnode : (Frame.node { tag := tag, scope := tag.declarations :: builder.scope }).Level
          builder.frames.length := ⟨hdepth, trivial⟩
      simp only [if_true]
      exact h.add hnode
    | false =>
      simp only [Bool.false_eq_true, if_false]
      refine ⟨?_, h.roots, hdepth, trivial, h.frames⟩
      rw [← h.tags, List.append_assoc]
      rfl
  | close =>
    cases hrun
    have htags : tagsIn [Event.close] = [] := rfl
    rw [htags, List.append_nil]
    exact h.close
  | text raw =>
    rw [Builder.event, bind_eq_ok] at hrun
    obtain ⟨text, -, heq⟩ := hrun
    cases heq
    have htags : tagsIn [Event.text raw] = [] := rfl
    rw [htags, List.append_nil]
    exact h.addText text
  | cdata text =>
    cases hrun
    have htags : tagsIn [Event.cdata text] = [] := rfl
    rw [htags, List.append_nil]
    exact h.addText text

theorem ordered_foldlM {charCode : Text → Option Int} {builder' : Builder}
    {before after : List Event} (hevents : events = before ++ after)
    (hbound : ∀ scope tag, Located events scope tag → Bound scope tag)
    (hstands : builder.Stands events)
    (hframes : builder.frames.map Frame.tag = openBehind [] before)
    (h : builder.Ordered (tagsIn before))
    (hrun : after.foldlM (Builder.event charCode) builder = .ok builder') :
    builder'.Ordered (tagsIn events) := by
  induction after generalizing builder before with
  | nil =>
    cases hrun
    rw [hevents, List.append_nil]
    exact h
  | cons event after ih =>
    rw [List.foldlM_cons, bind_eq_ok] at hrun
    obtain ⟨next, hevent, hrest⟩ := hrun
    obtain ⟨hnext, hframes'⟩ := stands_event hevents hstands hframes hevent
    have hordered := ordered_event hevents hbound hframes h hevent
    refine ih ?_ hnext hframes' hordered hrest
    rw [hevents, List.append_assoc]
    rfl

end

section
variable {charCode : Text → Option Int} {limits : Limits} {input : Text}

theorem tags_of_parseDocument {root : XmlNode} (h : parseDocument charCode limits input = .ok root) :
    ∃ others, tagsIn (scan charCode limits input).1 = root.tags ++ XmlNode.tagsAll others ∧
      root.Level 0 ∧ XmlNode.LevelAll 0 others := by
  have hbound : ∀ scope tag, Located (scan charCode limits input).1 scope tag → Bound scope tag :=
    fun scope tag => bound_of_located
  cases hscan : scan charCode limits input with | mk events ending => ?_
  rw [hscan] at hbound
  unfold parseDocument at h
  rw [hscan] at h
  simp only [bind_eq_ok] at h
  obtain ⟨builder, hbuilder, h⟩ := h
  have hempty : ({} : Builder).Stands events := ⟨fun p hp => absurd hp List.not_mem_nil, trivial⟩
  have hordered : ({} : Builder).Ordered (tagsIn []) := ⟨rfl, trivial, trivial⟩
  have hstart : events = [] ++ events := rfl
  obtain ⟨htags, hlevel⟩ := (ordered_foldlM hstart hbound hempty rfl hordered hbuilder).finish
  cases ending with
  | failed message => cases h
  | truncated => cases h
  | finished =>
    simp only at h
    split at h
    case h_2 => cases h
    next first others hfinish =>
    cases h
    rw [hfinish] at htags hlevel
    exact ⟨others, htags.symm, hlevel.1, hlevel.2⟩

end

theorem head_tag {node : XmlNode} : ∃ tail, node.tags = node.tag :: tail := by
  obtain ⟨tag, scope, children, text⟩ := node
  exact ⟨_, rfl⟩

theorem child_of_tags {P : StartTag → Bool} {nodes : List XmlNode} (h : XmlNode.LevelAll 1 nodes)
    {more before after : List StartTag} {body child : StartTag} (hmore : ∀ tag ∈ more.head?, tag.depth = 0)
    (htags : XmlNode.tagsAll nodes ++ more = before ++ body :: child :: after)
    (hshallow : ∀ tag ∈ before, tag.depth ≠ 0) (hbody : body.depth = 1) (hP : P body = true)
    (hchild : child.depth = 2) (hfirst : ∀ tag ∈ before, tag.depth = 1 → P tag = false) :
    ∃ node first, nodes.find? (fun node => P node.tag) = some node ∧ node.children.head? = some first ∧
      first.tag = child := by
  induction nodes generalizing before with
  | nil =>
    have hempty : more = before ++ body :: child :: after := htags
    cases before with
    | nil =>
      have hzero := hmore body (by rw [hempty]; rfl)
      omega
    | cons tag before =>
      exact absurd (hmore tag (by rw [hempty]; rfl)) (hshallow tag List.mem_cons_self)
  | cons node nodes ih =>
    obtain ⟨tag, scope, children, text⟩ := node
    obtain ⟨⟨hdepth, hchildren⟩, hnodes⟩ := h
    have hcons : tag :: (XmlNode.tagsAll children ++ (XmlNode.tagsAll nodes ++ more)) =
        before ++ body :: child :: after := by
      rw [← htags]
      simp [XmlNode.tagsAll, XmlNode.tags]
    cases before with
    | nil =>
      obtain ⟨rfl, hrest⟩ := List.cons.inj hcons
      have hfound : (XmlNode.mk tag scope children text :: nodes).find? (fun node => P node.tag) =
          some (.mk tag scope children text) := List.find?_cons_of_pos hP
      cases children with
      | cons first others =>
        obtain ⟨tail, htail⟩ := @head_tag first
        rw [XmlNode.tagsAll, htail] at hrest
        exact ⟨_, first, hfound, rfl, (List.cons.inj hrest).1⟩
      | nil =>
        cases nodes with
        | nil =>
          have hlast : more = child :: after := hrest
          have hzero := hmore child (by rw [hlast]; rfl)
          omega
        | cons next nodes =>
          obtain ⟨nextTag, nextScope, nextChildren, nextText⟩ := next
          obtain ⟨rfl, -⟩ := List.cons.inj hrest
          have hone := hnodes.1.1
          omega
    | cons first before =>
      obtain ⟨rfl, hrest⟩ := List.cons.inj hcons
      have hnot := hfirst tag List.mem_cons_self hdepth
      obtain ⟨mid, hinside⟩ | ⟨between, hbetween, hbehind⟩ := split_append hrest
      · have hmem : body ∈ XmlNode.tagsAll children := by
          rw [hinside]
          exact List.mem_append_right _ List.mem_cons_self
        have hdeep := depth_of_levelAll children hchildren body hmem
        omega
      · have hsub : ∀ found ∈ between, found ∈ tag :: before := by
          intro found hfound
          rw [hbetween]
          exact List.mem_cons_of_mem _ (List.mem_append_right _ hfound)
        rw [List.find?_cons_of_neg (by rw [XmlNode.tag, hnot]; decide)]
        exact ih hnodes hbehind (fun found hfound => hshallow found (hsub found hfound))
          fun found hfound => hfirst found (hsub found hfound)

theorem tags_of_child {P : StartTag → Bool} {nodes : List XmlNode} (h : XmlNode.LevelAll 1 nodes)
    {node first : XmlNode} (hfind : nodes.find? (fun node => P node.tag) = some node)
    (hhead : node.children.head? = some first) :
    ∃ before after, XmlNode.tagsAll nodes = before ++ node.tag :: first.tag :: after ∧
      node.tag.depth = 1 ∧ P node.tag = true ∧ first.tag.depth = 2 ∧
      ∀ tag ∈ before, tag.depth ≠ 0 ∧ (tag.depth = 1 → P tag = false) := by
  induction nodes with
  | nil => cases hfind
  | cons next nodes ih =>
    obtain ⟨tag, scope, children, text⟩ := next
    obtain ⟨⟨hdepth, hchildren⟩, hnodes⟩ := h
    by_cases hP : P tag = true
    · rw [List.find?_cons_of_pos (by exact hP)] at hfind
      cases hfind
      cases children with
      | nil => cases hhead
      | cons child others =>
        cases hhead
        obtain ⟨tail, htail⟩ := @head_tag first
        obtain ⟨firstTag, firstScope, firstChildren, firstText⟩ := first
        refine ⟨[], tail ++ XmlNode.tagsAll others ++ XmlNode.tagsAll nodes, ?_, hdepth, hP,
          hchildren.1.1, nofun⟩
        rw [XmlNode.tagsAll, XmlNode.tags, XmlNode.tagsAll, htail]
        simp [XmlNode.tag]
    · rw [List.find?_cons_of_neg (by exact hP)] at hfind
      obtain ⟨before, after, htags, hone, hnode, htwo, hbefore⟩ := ih hnodes hfind
      refine ⟨tag :: XmlNode.tagsAll children ++ before, after, ?_, hone, hnode, htwo, ?_⟩
      · rw [XmlNode.tagsAll, XmlNode.tags, htags, List.append_assoc]
      · intro found hfound
        obtain hmem | hmem := List.mem_append.mp hfound
        · obtain rfl | hinside := List.mem_cons.mp hmem
          · exact ⟨by omega, fun _ => by simpa using hP⟩
          · have hdeep := depth_of_levelAll children hchildren found hinside
            exact ⟨by omega, fun h => by omega⟩
        · exact hbefore found hmem

/-! ### The envelope and its document -/

def XmlNode.body? (root : XmlNode) : Option XmlNode :=
  root.children.find? fun node => node.ns = root.ns ∧ node.name = "Body"

section
variable (charCode : Text → Option Int) (limits : Limits)

structure EnvelopeAgrees (document : Text) : Prop where
  envelope : ∀ start ns child, start <+: document →
    scanEnvelope charCode limits start = .ok ⟨ns, some child⟩ →
    scanEnvelope charCode limits document = .ok ⟨ns, some child⟩
  tree : ∀ start ns child root, start <+: document →
    scanEnvelope charCode limits start = .ok ⟨ns, some child⟩ →
    parseDocument charCode limits document = .ok root →
    ∃ body first, root.body? = some body ∧ body.children.head? = some first ∧ first.qname = child.qname

/-- In a document that is read whole, the first body is in the first root, and what comes at depth two
behind it comes right behind it; and the start of one that is too long has none of these. -/
structure BodyFilled (document : Text) : Prop where
  whole : utf16Length document ≤ limits.maxBytes → ∀ root, parseDocument charCode limits document = .ok root →
    ∀ before body between child after ns,
      tagsIn (scan charCode limits document).1 = before ++ body :: (between ++ child :: after) →
      Found none before body between child ns →
      between = [] ∧ ∀ tag ∈ before.tail, tag.depth ≠ 0
  tooLong : limits.maxBytes < utf16Length document → ∀ start, start <+: document →
    ∀ before body between child after ns,
      tagsIn (scan charCode limits start).1 = before ++ body :: (between ++ child :: after) →
      ¬Found none before body between child ns

end

variable {others : List XmlNode}

section
variable {charCode : Text → Option Int} {limits : Limits} {document : Text}

theorem versionBehind_same {tags : List StartTag} (h : ∀ tag ∈ tags, tag.depth ≠ 0) :
    versionBehind version tags = version := by
  induction tags generalizing version with
  | nil => rfl
  | cons tag tags ih =>
    obtain ⟨htag, htags⟩ := List.forall_mem_cons.mp h
    rw [versionBehind_cons, if_neg htag]
    exact ih htags

theorem version_of_root (hdepth : tag.depth = 0) {tags : List StartTag}
    (h : ∀ tag ∈ tags, tag.depth ≠ 0) : versionBehind none (tag :: tags) = some tag.ns := by
  rw [versionBehind_cons, if_pos hdepth]
  exact versionBehind_same h

theorem head_more (h : XmlNode.LevelAll 0 others) :
    ∀ tag ∈ (XmlNode.tagsAll others).head?, tag.depth = 0 := by
  intro tag htag
  cases others with
  | nil => cases htag
  | cons node nodes =>
    obtain ⟨first, scope, children, text⟩ := node
    cases htag
    exact h.1.1

theorem body?_eq (root : XmlNode) : root.body? =
    root.children.find? fun node => (fun tag : StartTag => decide (tag.ns = root.tag.ns ∧ tag.name = "Body"))
      node.tag := rfl

theorem between_of_tree {root : XmlNode} {tags : List StartTag}
    (htags : tags = root.tags ++ XmlNode.tagsAll others) (hroot : root.Level 0)
    {bodyNode first : XmlNode} (hbodyNode : root.body? = some bodyNode)
    (hhead : bodyNode.children.head? = some first) {before between after : List StartTag}
    {body child : StartTag} {ns : String}
    (heq : tags = before ++ body :: (between ++ child :: after))
    (hfound : Found none before body between child ns) :
    between = [] ∧ ∀ tag ∈ before.tail, tag.depth ≠ 0 := by
  obtain ⟨tag, scope, children, text⟩ := root
  obtain ⟨hdepth, hchildren⟩ := hroot
  rw [body?_eq] at hbodyNode
  obtain ⟨front, back, hfront, hone, hbody, htwo, hclear⟩ := @tags_of_child
    (fun found => decide (found.ns = tag.ns ∧ found.name = "Body")) children hchildren bodyNode first
    hbodyNode hhead
  have hbody := of_decide_eq_true hbody
  have hboth : before ++ body :: (between ++ child :: after) =
      (tag :: front) ++ bodyNode.tag :: (first.tag :: (back ++ XmlNode.tagsAll others)) := by
    rw [← heq, htags, XmlNode.tags, hfront]
    simp
  have hversion : ∀ {tags : List StartTag}, (∀ found ∈ tags, found ∈ front) →
      versionBehind none (tag :: tags) = some tag.ns := fun hsub =>
    version_of_root hdepth fun found hmem => (hclear found (hsub found hmem)).1
  obtain ⟨mid, hmid⟩ | ⟨mid, hmid, hrest⟩ := split_append hboth
  · -- the body of the tree would be a body before the first one
    have hearly := hfound.first (tag :: front) bodyNode.tag mid hmid
    rw [hversion fun found hmem => hmem] at hearly
    exact absurd ⟨hone, hbody.2, congrArg some hbody.1.symm⟩ hearly
  · cases mid with
    | nil =>
      obtain ⟨-, hbehind⟩ := List.cons.inj hrest
      rw [List.append_nil] at hmid
      rw [← hmid]
      refine ⟨?_, fun found hmem => (hclear found hmem).1⟩
      cases between with
      | nil => rfl
      | cons next between =>
        obtain ⟨rfl, -⟩ := List.cons.inj hbehind
        exact absurd htwo (hfound.child.passed _ List.mem_cons_self)
    | cons next mid =>
      obtain ⟨rfl, -⟩ := List.cons.inj hrest
      cases before with
      | nil =>
        obtain ⟨rfl, -⟩ := List.cons.inj hmid
        have hdeep := hfound.isBody.1
        omega
      | cons top before =>
        obtain ⟨rfl, hfrontMid⟩ := List.cons.inj hmid
        have hinside : body ∈ front := by
          rw [hfrontMid]
          exact List.mem_append_right _ List.mem_cons_self
        obtain ⟨hlevel, hname, hns⟩ := hfound.isBody
        rw [hversion fun found hmem => by rw [hfrontMid]; exact List.mem_append_left _ hmem] at hns
        have hnot := (hclear body hinside).2 hlevel
        rw [decide_eq_false_iff_not] at hnot
        exact absurd ⟨(Option.some.inj hns).symm, hname⟩ hnot

theorem tree_of_between {root : XmlNode} {tags : List StartTag}
    (htags : tags = root.tags ++ XmlNode.tagsAll others) (hroot : root.Level 0)
    (hothers : XmlNode.LevelAll 0 others) {before after : List StartTag} {body child : StartTag}
    {ns : String} (heq : tags = before ++ body :: child :: after)
    (hshallow : ∀ tag ∈ before.tail, tag.depth ≠ 0) (hfound : Found none before body [] child ns) :
    ∃ bodyNode first, root.body? = some bodyNode ∧ bodyNode.children.head? = some first ∧
      first.qname = child.qname := by
  obtain ⟨tag, scope, children, text⟩ := root
  obtain ⟨hdepth, hchildren⟩ := hroot
  have hcons : tag :: (XmlNode.tagsAll children ++ XmlNode.tagsAll others) =
      before ++ body :: child :: after := by
    rw [← heq, htags]
    rfl
  cases before with
  | nil =>
    obtain ⟨rfl, -⟩ := List.cons.inj hcons
    have hdeep := hfound.isBody.1
    omega
  | cons top before =>
    obtain ⟨rfl, hrest⟩ := List.cons.inj hcons
    obtain ⟨hlevel, hname, hns⟩ := hfound.isBody
    have hshallow : ∀ found ∈ before, found.depth ≠ 0 := hshallow
    rw [version_of_root hdepth hshallow] at hns
    have hP : decide (body.ns = tag.ns ∧ body.name = "Body") = true :=
      decide_eq_true ⟨(Option.some.inj hns).symm, hname⟩
    have hfirst : ∀ found ∈ before, found.depth = 1 →
        decide (found.ns = tag.ns ∧ found.name = "Body") = false := by
      intro found hmem hone
      obtain ⟨front, back, hbefore⟩ := List.append_of_mem hmem
      have hnot := hfound.first (tag :: front) found back (by rw [hbefore]; rfl)
      rw [version_of_root hdepth fun other hother => hshallow other (by
        rw [hbefore]
        exact List.mem_append_left _ hother)] at hnot
      rw [decide_eq_false_iff_not]
      rintro ⟨hsame, hbody⟩
      exact hnot ⟨hone, hbody, congrArg some hsame.symm⟩
    obtain ⟨bodyNode, first, hfind, hhead, htag⟩ := @child_of_tags
      (fun found => decide (found.ns = tag.ns ∧ found.name = "Body")) children hchildren
      (XmlNode.tagsAll others) before after body child (head_more hothers) hrest hshallow hlevel hP
      hfound.child.depth hfirst
    refine ⟨bodyNode, first, hfind, hhead, ?_⟩
    rw [← htag]
    rfl

theorem envelope_agrees (charCode : Text → Option Int) (limits : Limits) (document : Text) :
    EnvelopeAgrees charCode limits document ↔ BodyFilled charCode limits document := by
  constructor
  · intro h
    refine ⟨fun hlength root hroot before body between child after ns htags hfound => ?_,
      fun hlong start hstart before body between child after ns htags hfound => ?_⟩
    · have hscan := scanEnvelope_found.mpr ⟨before, body, between, after, htags, hfound⟩
      obtain ⟨bodyNode, first, hbodyNode, hhead, -⟩ :=
        h.tree document ns child root List.prefix_rfl hscan hroot
      obtain ⟨others, hall, hlevel, -⟩ := tags_of_parseDocument hroot
      exact between_of_tree hall hlevel hbodyNode hhead htags hfound
    · have hscan := scanEnvelope_found.mpr ⟨before, body, between, after, htags, hfound⟩
      obtain ⟨before', body', between', after', htags', -⟩ :=
        scanEnvelope_found.mp (h.envelope start ns child hstart hscan)
      rw [scan, if_pos hlong] at htags'
      cases before' <;> cases htags'
  · intro h
    have henvelope : ∀ start ns child, start <+: document →
        scanEnvelope charCode limits start = .ok ⟨ns, some child⟩ →
        utf16Length document ≤ limits.maxBytes ∧
          scanEnvelope charCode limits document = .ok ⟨ns, some child⟩ := by
      intro start ns child hstart hscan
      by_cases hlength : utf16Length document ≤ limits.maxBytes
      · obtain ⟨more, rfl⟩ := hstart
        exact ⟨hlength, scanEnvelope_more hlength hscan⟩
      · obtain ⟨before, body, between, after, htags, hfound⟩ := scanEnvelope_found.mp hscan
        exact absurd hfound
          (h.tooLong (by omega) start hstart before body between child after ns htags)
    refine ⟨fun start ns child hstart hscan => (henvelope start ns child hstart hscan).2, ?_⟩
    intro start ns child root hstart hscan hroot
    obtain ⟨hlength, hdocument⟩ := henvelope start ns child hstart hscan
    obtain ⟨before, body, between, after, htags, hfound⟩ := scanEnvelope_found.mp hdocument
    obtain ⟨rfl, hshallow⟩ := h.whole hlength root hroot before body between child after ns htags hfound
    obtain ⟨others, hall, hlevel, hothers⟩ := tags_of_parseDocument hroot
    exact tree_of_between hall hlevel hothers htags hshallow hfound

def emptyBody : Text :=
  ("<e:Envelope xmlns:e=\"http://schemas.xmlsoap.org/soap/envelope/\">" ++
    "<e:Body/><x><op/></x></e:Envelope>").toList

theorem empty_body : ¬EnvelopeAgrees (fun _ => none) {} emptyBody := by
  intro h
  have hscan : scanEnvelope (fun _ => none) {} emptyBody =
      .ok ⟨SOAP_11_ENVELOPE, some ⟨4, "op", "op", "", [], [], true, 2⟩⟩ := by
    decide +kernel
  have hempty : ((parseDocument (fun _ => none) {} emptyBody).toOption.bind XmlNode.body?).map
      (fun body => body.children.isEmpty) = some true := by
    decide +kernel
  cases hroot : parseDocument (fun _ => none) {} emptyBody with
  | error message =>
    rw [hroot] at hempty
    cases hempty
  | ok root =>
    obtain ⟨body, first, hbody, hhead, -⟩ := h.tree _ _ _ root List.prefix_rfl hscan hroot
    rw [hroot] at hempty
    have hnone : (root.body?.map fun body => body.children.isEmpty) = some true := hempty
    rw [hbody, Option.map_some, Option.some.injEq, List.isEmpty_iff] at hnone
    rw [hnone] at hhead
    cases hhead

end

end Apim.Xml
