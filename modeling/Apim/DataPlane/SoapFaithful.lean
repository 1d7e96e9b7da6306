import Mathlib.Data.List.Forall2
import Mathlib.Data.List.Nodup
import Apim.DataPlane.SoapBody

/-!
# When the body element survives being written again

What must hold of an element for its second reading to give it back: one condition for each level of
the tree (`Kept`), the default namespace going down with it, and the limits of the second reading.
-/

namespace Apim.DataPlane
open Xml Guard
open Routing (isSpace utf16Length)

/-! ### Records -/

def recordOf (entries : Entries) : Entries :=
  entries.foldl (fun record entry => Entries.set record entry.1 entry.2) []

theorem set_of_notMem {record : Entries} {key : String} (h : key ∉ record.map Prod.fst)
    (value : String) : Entries.set record key value = record ++ [(key, value)] := by
  have hnone : record.any (·.1 == key) = false := by
    rw [List.any_eq_false]
    intro entry hentry heq
    exact h (List.mem_map.mpr ⟨entry, hentry, eq_of_beq heq⟩)
  unfold Entries.set
  rw [hnone]
  rfl

theorem length_set_le (record : Entries) (key value : String) :
    (Entries.set record key value).length ≤ record.length + 1 := by
  unfold Entries.set
  split <;> simp

theorem length_set_of_mem {record : Entries} {key : String} (h : key ∈ record.map Prod.fst)
    (value : String) : (Entries.set record key value).length = record.length := by
  obtain ⟨entry, hentry, rfl⟩ := List.mem_map.mp h
  have hany : record.any (·.1 == entry.1) = true :=
    List.any_eq_true.mpr ⟨entry, hentry, beq_self_eq_true _⟩
  unfold Entries.set
  rw [hany]
  simp

theorem length_foldl_set_le (entries record : Entries) :
    (entries.foldl (fun record entry => Entries.set record entry.1 entry.2) record).length ≤
      record.length + entries.length := by
  induction entries generalizing record with
  | nil => simp
  | cons entry entries ih =>
    have hrest := ih (Entries.set record entry.1 entry.2)
    have hone := length_set_le record entry.1 entry.2
    simp only [List.foldl_cons, List.length_cons]
    omega

theorem foldl_set_of_length {entries record : Entries}
    (h : (entries.foldl (fun record entry => Entries.set record entry.1 entry.2) record).length =
      record.length + entries.length) :
    entries.foldl (fun record entry => Entries.set record entry.1 entry.2) record =
      record ++ entries := by
  induction entries generalizing record with
  | nil => simp
  | cons entry entries ih =>
    simp only [List.foldl_cons, List.length_cons] at h ⊢
    have hrest := length_foldl_set_le entries (Entries.set record entry.1 entry.2)
    by_cases hmem : entry.1 ∈ record.map Prod.fst
    · have hsame := length_set_of_mem hmem entry.2
      omega
    · rw [set_of_notMem hmem] at h ⊢
      have hlength : (record ++ [entry]).length = record.length + 1 := by simp
      rw [ih (by rw [h, hlength]; omega)]
      simp

variable {entries : Entries}

theorem recordOf_of_length (h : (recordOf entries).length = entries.length) :
    recordOf entries = entries := by
  have hall := @foldl_set_of_length entries []
  simpa [recordOf] using hall (by simpa [recordOf] using h)

theorem length_recordOf_le (entries : Entries) : (recordOf entries).length ≤ entries.length := by
  simpa [recordOf] using length_foldl_set_le entries []

theorem foldl_set_of_nodup {entries record : Entries}
    (h : ((record ++ entries).map Prod.fst).Nodup) :
    entries.foldl (fun record entry => Entries.set record entry.1 entry.2) record =
      record ++ entries := by
  induction entries generalizing record with
  | nil => simp
  | cons entry entries ih =>
    have hnot : entry.1 ∉ record.map Prod.fst := by
      intro hmem
      rw [List.map_append, List.nodup_append] at h
      exact h.2.2 _ hmem _ (by simp) rfl
    rw [List.foldl_cons, set_of_notMem hnot, ih (by simpa using h)]
    simp

theorem recordOf_of_nodup (h : (entries.map Prod.fst).Nodup) : recordOf entries = entries := by
  have hall := @foldl_set_of_nodup entries []
  simpa [recordOf] using hall (by simpa using h)

theorem filterMap_eq_self {α : Type} {f : α → Option α} {l : List α} (h : l.filterMap f = l) :
    ∀ x ∈ l, f x = some x := by
  induction l with
  | nil => simp
  | cons x l ih =>
    have hlength := List.length_filterMap_le f l
    cases hx : f x with
    | none =>
      rw [List.filterMap_cons_none hx] at h
      have hlong := congrArg List.length h
      simp only [List.length_cons] at hlong
      omega
    | some y =>
      rw [List.filterMap_cons_some hx] at h
      obtain ⟨rfl, hrest⟩ := List.cons.inj h
      intro z hz
      cases List.mem_cons.mp hz with
      | inl heq => exact heq ▸ hx
      | inr hmem => exact ih hrest z hmem

theorem eq_of_recordOf_filterMap {f : String × String → Option (String × String)}
    (h : recordOf (entries.filterMap f) = entries) : ∀ entry ∈ entries, f entry = some entry := by
  have hrecord := length_recordOf_le (entries.filterMap f)
  have hfew := List.length_filterMap_le f entries
  have hsame := congrArg List.length h
  have hall : recordOf (entries.filterMap f) = entries.filterMap f := recordOf_of_length (by omega)
  exact filterMap_eq_self (hall.symm.trans h)

/-! ### Names -/

theorem splitName_plain {name : Text} (h : ':' ∉ name) : splitName name = ("", String.ofList name) := by
  unfold splitName
  rw [cut_none h]

theorem splitName_append {qualifier : Text} (h : ':' ∉ qualifier) (name : Text) :
    splitName (qualifier ++ ':' :: name) = (String.ofList qualifier, String.ofList name) := by
  unfold splitName
  rw [cut_single h]

theorem notMem_of_splitName {name : Text} (h : (splitName name).2 = String.ofList name) :
    ':' ∉ name := by
  intro hmem
  obtain ⟨before, behind, rfl, hnot⟩ := List.eq_append_cons_of_mem hmem
  rw [splitName_append hnot] at h
  have hlist := congrArg (fun text : String => text.toList.length) h
  simp at hlist
  omega

theorem nameChars_digits (i : Nat) : ∀ c ∈ (toString i).toList, c.isDigit = true := by
  intro c hc
  rw [Nat.toString_eq_ofList_toDigits, String.toList_ofList] at hc
  exact Nat.isDigit_of_mem_toDigits (by decide) (by decide) hc

theorem nameChars_nsQualifier (i : Nat) : NameChars (nsQualifier i) := by
  intro c hc
  cases List.mem_cons.mp hc with
  | inl heq => exact heq ▸ by decide
  | inr hmem =>
    have hdigit := nameChars_digits i c hmem
    simp [nameChar, Char.isAlphanum, hdigit]

theorem colon_notMem_nsQualifier (i : Nat) : ':' ∉ nsQualifier i := by
  intro h
  cases List.mem_cons.mp h with
  | inl heq => exact absurd heq (by decide)
  | inr hmem => exact absurd (nameChars_digits i ':' hmem) (by decide)

theorem nsQualifier_injective {i j : Nat} (h : nsQualifier i = nsQualifier j) : i = j := by
  have htail := (List.cons.inj h).2
  rw [Nat.toString_eq_ofList_toDigits, Nat.toString_eq_ofList_toDigits, String.toList_ofList,
    String.toList_ofList] at htail
  have hvalue := congrArg (Nat.ofDigitChars 10 · 0) htail
  simpa only [Nat.ofDigitChars_ten_toDigits] using hvalue

structure PlainName (name : String) : Prop where
  nonempty : name ≠ ""
  colon : ':' ∉ name.toList
  declares : name ≠ "xmlns"

theorem declares_of_colon {name : Text} (h : ':' ∉ name) (hne : name ≠ "xmlns".toList) (value : Text) :
    declares ⟨name, value⟩ = none := by
  unfold declares
  rw [if_neg hne, Option.map_eq_none_iff]
  by_contra hsome
  obtain ⟨behind, hfront⟩ := Option.ne_none_iff_exists'.mp hsome
  have happend : "xmlns:".toList ++ behind = name :=
    List.isPrefixOf?_eq_some_iff_append_eq.mp hfront
  exact h (by rw [← happend]; simp)

theorem declares_qualified (i : Nat) (name value : Text) :
    declares ⟨nsQualifier i ++ ':' :: name, value⟩ = none := by
  unfold declares
  have hhead : nsQualifier i ++ ':' :: name = 'n' :: ((toString i).toList ++ ':' :: name) := rfl
  rw [hhead, if_neg (by simp)]
  simp [List.isPrefixOf?]

theorem declares_xmlns (i : Nat) (value : Text) :
    declares ⟨"xmlns:".toList ++ nsQualifier i, value⟩ = some (String.ofList (nsQualifier i)) := by
  have hne : "xmlns:".toList ++ nsQualifier i ≠ "xmlns".toList := by
    intro h
    have hlength := congrArg List.length h
    simp [nsQualifier] at hlength
  unfold declares
  rw [if_neg hne]
  have hfront : "xmlns:".toList.isPrefixOf? ("xmlns:".toList ++ nsQualifier i) =
      some (nsQualifier i) := List.isPrefixOf?_eq_some_iff_append_eq.mpr rfl
  rw [hfront]
  rfl

def plainOf (a : RawAttribute) : Option (String × String) :=
  if (declares a).isNone ∧ (splitName a.name).1 = "" then
    some ((splitName a.name).2, String.ofList a.value)
  else none

theorem plainOf_eq_self {entry : String × String} (hne : entry.1 ≠ "") :
    plainOf ⟨entry.1.toList, entry.2.toList⟩ = some entry ↔ PlainName entry.1 := by
  obtain ⟨name, value⟩ := entry
  constructor
  · intro h
    unfold plainOf at h
    split at h
    next hplain =>
      have hname := congrArg Prod.fst (Option.some.inj h)
      simp only at hname
      have hcolon := notMem_of_splitName (hname.trans (String.ofList_toList).symm)
      refine ⟨hne, hcolon, ?_⟩
      intro hxmlns
      simp only at hxmlns
      subst hxmlns
      have hdeclares : declares ⟨"xmlns".toList, value.toList⟩ = some "" := if_pos rfl
      rw [hdeclares] at hplain
      cases hplain.1
    next => cases h
  · intro h
    have hxmlns : name.toList ≠ "xmlns".toList := fun heq => h.declares (String.toList_injective heq)
    unfold plainOf
    simp only
    rw [declares_of_colon h.colon hxmlns, splitName_plain h.colon]
    simp

/-! ### Qualified names -/

/-- A key of `nsAttributes` that its writing keeps: with a namespace that has no closing brace, or
without one and so short that `slice(1, -1)` leaves nothing. -/
def Recoverable (qname : String) : Prop :=
  if qname.toList.head? = some '\x7b' then qname.toList.count '\x7d' = 1 else qname.toList.length ≤ 2

def IsQName (qname : String) : Prop := ∃ ns name, NameChars name.toList ∧ qname = qnameOf ns name

def OneBrace (qname : String) : Prop := qname.toList.count '\x7d' ≤ 1

theorem brace_notMem {name : Text} (h : NameChars name) : '\x7d' ∉ name :=
  fun hmem => absurd (h _ hmem) (by decide)

theorem splitQName_cases {qname : String} (h : IsQName qname) (hbrace : OneBrace qname) :
    (∃ ns name, ns ≠ "" ∧ NameChars name.toList ∧ qname = qnameOf ns name ∧
      splitQName qname = (ns.toList, name.toList) ∧ Recoverable qname) ∨
    (NameChars qname.toList ∧ splitQName qname = ((qname.toList.drop 1).dropLast, qname.toList) ∧
      (Recoverable qname ↔ qname.toList.length ≤ 2)) := by
  obtain ⟨ns, name, hname, rfl⟩ := h
  by_cases hns : ns = ""
  · subst hns
    have hsame : qnameOf "" name = name := rfl
    rw [hsame]
    have hhead : name.toList.head? ≠ some '\x7b' := by
      intro hhead
      have hmem := List.mem_of_head? hhead
      exact absurd (hname _ hmem) (by decide)
    refine .inr ⟨hname, ?_, ?_⟩
    · unfold splitQName
      rw [cut_none (brace_notMem hname)]
    · unfold Recoverable
      rw [if_neg hhead]
  · have hlist : (qnameOf ns name).toList = '\x7b' :: (ns.toList ++ '\x7d' :: name.toList) := by
      unfold qnameOf
      rw [if_neg hns]
      simp
    have hcount : (qnameOf ns name).toList.count '\x7d' = ns.toList.count '\x7d' + 1 := by
      have hnone := List.count_eq_zero.mpr (brace_notMem hname)
      rw [hlist]
      simp [hnone]
    have hfree : '\x7d' ∉ ns.toList := by
      unfold OneBrace at hbrace
      exact List.count_eq_zero.mp (by omega)
    refine .inl ⟨ns, name, hns, hname, rfl, ?_, ?_⟩
    · have hfree' : '\x7d' ∉ '\x7b' :: ns.toList := by
        intro hmem
        cases List.mem_cons.mp hmem with
        | inl heq => exact absurd heq (by decide)
        | inr hmem' => exact hfree hmem'
      unfold splitQName
      rw [hlist, ← List.cons_append, cut_single hfree']
      rfl
    · unfold Recoverable
      rw [hlist, List.head?_cons, if_pos rfl, ← hlist, hcount, List.count_eq_zero.mpr hfree]

def rereadQName (qname : String) : String :=
  qnameOf (String.ofList (splitQName qname).1) (String.ofList (splitQName qname).2)

theorem rereadQName_eq_self {qname : String} (h : IsQName qname) (hbrace : OneBrace qname) :
    rereadQName qname = qname ↔ Recoverable qname := by
  unfold rereadQName
  obtain ⟨ns, name, -, -, rfl, hsplit, hrecover⟩ | ⟨-, hsplit, hrecover⟩ := splitQName_cases h hbrace
  · rw [hsplit, String.ofList_toList, String.ofList_toList]
    exact ⟨fun _ => hrecover, fun _ => rfl⟩
  · rw [hsplit, hrecover, String.ofList_toList]
    have hmiddle : String.ofList (qname.toList.drop 1).dropLast = "" ↔ qname.toList.length ≤ 2 := by
      have hlength : ((qname.toList.drop 1).dropLast).length = qname.toList.length - 1 - 1 := by simp
      constructor
      · intro hempty
        have hnil := congrArg (fun text : String => text.toList.length) hempty
        simp only [String.toList_ofList, hlength] at hnil
        simp at hnil
        simp
        omega
      · intro hshort
        have hnil : (qname.toList.drop 1).dropLast = [] := List.eq_nil_of_length_eq_zero (by omega)
        rw [hnil]
    unfold qnameOf
    by_cases hempty : String.ofList (qname.toList.drop 1).dropLast = ""
    · rw [if_pos hempty]
      exact ⟨fun _ => hmiddle.mp hempty, fun _ => rfl⟩
    · rw [if_neg hempty]
      constructor
      · intro heq
        have hlong := congrArg (fun text : String => text.toList.length) heq
        simp at hlong
        omega
      · intro hshort
        exact absurd (hmiddle.mpr hshort) hempty

/-! ### Attributes that were read -/

def plainEntry (a : XmlAttribute) : Option (String × String) :=
  if a.qualifier = "" then some (a.name, a.value) else none

def qualifiedEntry (a : XmlAttribute) : Option (String × String) :=
  if a.qualifier = "" then none else some (qnameOf a.ns a.name, a.value)

theorem attributes_eq (tag : StartTag) (scope : List Entries) (children : List XmlNode)
    (text : Text) : (XmlNode.mk tag scope children text).attributes =
      recordOf (tag.attributes.filterMap plainEntry) := by
  unfold recordOf XmlNode.attributes
  rw [List.foldl_filterMap]
  congr 1
  funext entries a
  unfold plainEntry
  split <;> rfl

theorem nsAttributes_eq (tag : StartTag) (scope : List Entries) (children : List XmlNode)
    (text : Text) : (XmlNode.mk tag scope children text).nsAttributes =
      recordOf (tag.attributes.filterMap qualifiedEntry) := by
  unfold recordOf XmlNode.nsAttributes
  rw [List.foldl_filterMap]
  congr 1
  funext entries a
  unfold qualifiedEntry
  split <;> rfl

variable {a : RawAttribute}

theorem resolveAttribute_plain {declared : List Entries} (h : (splitName a.name).1 = "") :
    resolveAttribute declared a = .ok ⟨"", (splitName a.name).2, "", String.ofList a.value⟩ := by
  simp [resolveAttribute, h]

theorem resolveAttribute_qualified {declared : List Entries} (h : (splitName a.name).1 ≠ "") :
    resolveAttribute declared a = (resolveNs declared (splitName a.name).1).map
      fun ns => ⟨(splitName a.name).1, (splitName a.name).2, ns, String.ofList a.value⟩ := by
  simp only [resolveAttribute, if_neg h]
  cases resolveNs declared (splitName a.name).1 <;> rfl

theorem resolveAttribute_parts {declared : List Entries} {x : XmlAttribute}
    (h : resolveAttribute declared a = .ok x) :
    x.qualifier = (splitName a.name).1 ∧ x.name = (splitName a.name).2 ∧
      x.value = String.ofList a.value := by
  by_cases hplain : (splitName a.name).1 = ""
  · rw [resolveAttribute_plain hplain] at h
    cases h
    exact ⟨hplain.symm, rfl, rfl⟩
  · rw [resolveAttribute_qualified hplain] at h
    cases hns : resolveNs declared (splitName a.name).1 with
    | error message =>
      rw [hns] at h
      cases h
    | ok ns =>
      rw [hns] at h
      cases h
      exact ⟨rfl, rfl, rfl⟩

theorem filterMap_plainEntry {declared : List Entries} {written : List RawAttribute}
    {resolved : List XmlAttribute}
    (h : (written.filter fun a => (declares a).isNone).mapM (resolveAttribute declared) = .ok resolved) :
    resolved.filterMap plainEntry = written.filterMap plainOf := by
  have hpairs := mapM_eq_ok.mp h
  induction written generalizing resolved with
  | nil =>
    rw [List.filter_nil, List.forall₂_nil_left_iff] at hpairs
    rw [hpairs]
    rfl
  | cons a written ih =>
    by_cases hdeclares : (declares a).isNone
    · simp only [List.filter_cons, hdeclares, if_true] at hpairs
      obtain ⟨x, rest, hx, hrest, rfl⟩ := List.forall₂_cons_left_iff.mp hpairs
      obtain ⟨hqualifier, hname, hvalue⟩ := resolveAttribute_parts hx
      have hentry : plainEntry x = plainOf a := by
        unfold plainEntry plainOf
        rw [hqualifier, hname, hvalue]
        simp [hdeclares]
      rw [List.filterMap_cons, List.filterMap_cons, hentry, ih (mapM_eq_ok.mpr hrest) hrest]
    · have hnone : plainOf a = none := by
        unfold plainOf
        rw [if_neg fun hboth => hdeclares hboth.1]
      simp only [List.filter_cons, hdeclares] at hpairs
      rw [List.filterMap_cons_none hnone]
      exact ih (mapM_eq_ok.mpr hpairs) hpairs

theorem nsAttributeTexts_eq (qname value : String) (i : Nat) :
    nsAttributeTexts ((qname, value), i) =
      [⟨"xmlns:".toList ++ nsQualifier i, (splitQName qname).1⟩,
        ⟨nsQualifier i ++ ':' :: (splitQName qname).2, value.toList⟩] := rfl

theorem plainOf_nsAttributeTexts (entry : (String × String) × Nat) :
    (nsAttributeTexts entry).filterMap plainOf = [] := by
  obtain ⟨⟨qname, value⟩, i⟩ := entry
  have hdeclares : plainOf ⟨"xmlns:".toList ++ nsQualifier i, (splitQName qname).1⟩ = none := by
    unfold plainOf
    rw [declares_xmlns]
    rfl
  have hqualified : plainOf ⟨nsQualifier i ++ ':' :: (splitQName qname).2, value.toList⟩ = none := by
    have hne : String.ofList (nsQualifier i) ≠ "" := by
      intro h
      have hlist := congrArg String.toList h
      simp [nsQualifier] at hlist
    unfold plainOf
    rw [splitName_append (colon_notMem_nsQualifier i), if_neg fun h => hne h.2]
  rw [nsAttributeTexts_eq, List.filterMap_cons_none hdeclares, List.filterMap_cons_none hqualified, List.filterMap_nil]

theorem filterMap_plainOf (inherited : Option String) (ns : String) (attributes nsAttributes : Entries) :
    (writtenAttributes inherited ns attributes nsAttributes).filterMap plainOf =
      attributes.filterMap fun entry => plainOf ⟨entry.1.toList, entry.2.toList⟩ := by
  have hdefault : (if ns ≠ "" ∧ inherited ≠ some ns then
      [(⟨"xmlns".toList, ns.toList⟩ : RawAttribute)] else []).filterMap plainOf = [] := by
    have hdeclares : declares ⟨"xmlns".toList, ns.toList⟩ = some "" := if_pos rfl
    have hnone : plainOf ⟨"xmlns".toList, ns.toList⟩ = none := by
      unfold plainOf
      rw [hdeclares]
      rfl
    split
    · rw [List.filterMap_cons_none hnone, List.filterMap_nil]
    · rfl
  have hqualified : (nsAttributes.zipIdx.flatMap nsAttributeTexts).filterMap plainOf = [] := by
    rw [List.filterMap_flatMap, List.flatMap_eq_nil_iff]
    intro entry _
    exact plainOf_nsAttributeTexts entry
  unfold writtenAttributes
  rw [List.filterMap_append, List.filterMap_append, hdefault, hqualified, List.filterMap_map,
    List.append_nil, List.nil_append]
  rfl

/-! ### What is declared -/

def declaredOf (a : RawAttribute) : Option (String × String) :=
  (declares a).map fun name => (name, String.ofList a.value)

theorem foldl_declare (h : ∀ entry ∈ entries, entry.1 ≠ "__proto__") (record : Entries) :
    entries.foldl (fun record entry => declare record entry.1 entry.2) record =
      entries.foldl (fun record entry => Entries.set record entry.1 entry.2) record := by
  induction entries generalizing record with
  | nil => rfl
  | cons entry entries ih =>
    rw [List.foldl_cons, List.foldl_cons, declare, if_neg (h entry List.mem_cons_self)]
    exact ih (fun entry hentry => h entry (List.mem_cons_of_mem _ hentry)) _

theorem declarationsOf_eq {written : List RawAttribute}
    (h : ∀ entry ∈ written.filterMap declaredOf, entry.1 ≠ "__proto__") :
    declarationsOf written = recordOf (written.filterMap declaredOf) := by
  unfold recordOf declarationsOf
  rw [← foldl_declare h, List.foldl_filterMap]
  congr 1
  funext entries a
  unfold declaredOf
  cases declares a <;> rfl

def nsBindings (nsAttributes : Entries) : Entries :=
  nsAttributes.zipIdx.map fun entry =>
    (String.ofList (nsQualifier entry.2), String.ofList (splitQName entry.1.1).1)

def ownDefault (inherited : Option String) (ns : String) : Entries :=
  if ns ≠ "" ∧ inherited ≠ some ns then [("", ns)] else []

theorem ofList_nsQualifier_ne (i : Nat) : String.ofList (nsQualifier i) ≠ "" := by
  intro h
  have hlist := congrArg String.toList h
  simp [nsQualifier] at hlist

theorem ofList_nsQualifier_notMem (i : Nat) {names : List String}
    (h : ∀ name ∈ names, name.toList.head? ≠ some 'n') : String.ofList (nsQualifier i) ∉ names := by
  intro hmem
  apply h _ hmem
  rw [String.toList_ofList]
  rfl

theorem inherited_nsQualifier (i : Nat) : inherited (String.ofList (nsQualifier i)) = none := by
  have hproto := @ofList_nsQualifier_notMem i ["__proto__"] (by decide)
  have hmethods := @ofList_nsQualifier_notMem i (OBJECT_METHODS.map Prod.fst) (by decide)
  rw [inherited, if_neg fun h => hproto (List.mem_singleton.mpr h), Option.map_eq_none_iff,
    List.lookup_eq_none_iff]
  intro entry hentry
  rw [bne_iff_ne]
  exact fun h => hmethods (List.mem_map.mpr ⟨entry, hentry, h.symm⟩)

theorem nsBindings_keys_nodup (nsAttributes : Entries) :
    ((nsBindings nsAttributes).map Prod.fst).Nodup := by
  have hkeys : (nsBindings nsAttributes).map Prod.fst =
      (nsAttributes.zipIdx.map Prod.snd).map fun i => String.ofList (nsQualifier i) := by
    unfold nsBindings
    rw [List.map_map, List.map_map]
    rfl
  have hinjective : Function.Injective fun i => String.ofList (nsQualifier i) := by
    intro i j h
    exact nsQualifier_injective (String.ofList_injective h)
  rw [hkeys, List.zipIdx_map_snd]
  exact List.Nodup.map hinjective List.nodup_range'

theorem declarationsOf_written {inherited : Option String} {ns : String} {attributes : Entries}
    (nsAttributes : Entries) (hplain : ∀ entry ∈ attributes, PlainName entry.1) :
    declarationsOf (writtenAttributes inherited ns attributes nsAttributes) =
      ownDefault inherited ns ++ nsBindings nsAttributes := by
  have hown : (if ns ≠ "" ∧ inherited ≠ some ns then
      [(⟨"xmlns".toList, ns.toList⟩ : RawAttribute)] else []).filterMap declaredOf =
      ownDefault inherited ns := by
    have hdeclared : declaredOf ⟨"xmlns".toList, ns.toList⟩ = some ("", ns) := by
      have hdeclares : declares ⟨"xmlns".toList, ns.toList⟩ = some "" := if_pos rfl
      unfold declaredOf
      rw [hdeclares]
      simp
    unfold ownDefault
    split
    · rw [List.filterMap_cons_some hdeclared, List.filterMap_nil]
    · rfl
  have hattributes : (attributes.map fun entry =>
      (⟨entry.1.toList, entry.2.toList⟩ : RawAttribute)).filterMap declaredOf = [] := by
    rw [List.filterMap_map, List.filterMap_eq_nil_iff]
    intro entry hentry
    have hname := hplain entry hentry
    have hxmlns : entry.1.toList ≠ "xmlns".toList :=
      fun heq => hname.declares (String.toList_injective heq)
    show declaredOf ⟨entry.1.toList, entry.2.toList⟩ = none
    unfold declaredOf
    rw [declares_of_colon hname.colon hxmlns, Option.map_none]
  have hqualified : (nsAttributes.zipIdx.flatMap nsAttributeTexts).filterMap declaredOf =
      nsBindings nsAttributes := by
    have hone : ∀ entry : (String × String) × Nat, (nsAttributeTexts entry).filterMap declaredOf =
        [(String.ofList (nsQualifier entry.2), String.ofList (splitQName entry.1.1).1)] := by
      intro entry
      obtain ⟨⟨qname, value⟩, i⟩ := entry
      have hfirst : declaredOf ⟨"xmlns:".toList ++ nsQualifier i, (splitQName qname).1⟩ =
          some (String.ofList (nsQualifier i), String.ofList (splitQName qname).1) := by
        unfold declaredOf
        rw [declares_xmlns, Option.map_some]
      have hsecond :
          declaredOf ⟨nsQualifier i ++ ':' :: (splitQName qname).2, value.toList⟩ = none := by
        unfold declaredOf
        rw [declares_qualified, Option.map_none]
      rw [nsAttributeTexts_eq, List.filterMap_cons_some hfirst, List.filterMap_cons_none hsecond,
        List.filterMap_nil]
    unfold nsBindings
    rw [List.filterMap_flatMap, List.map_eq_flatMap]
    simp only [hone]
  have hnodup : ((ownDefault inherited ns ++ nsBindings nsAttributes).map Prod.fst).Nodup := by
    unfold ownDefault
    split
    · rw [List.singleton_append, List.map_cons, List.nodup_cons]
      refine ⟨?_, nsBindings_keys_nodup nsAttributes⟩
      intro hmem
      obtain ⟨entry, hentry, heq⟩ := List.mem_map.mp hmem
      obtain ⟨pair, -, rfl⟩ := List.mem_map.mp hentry
      exact ofList_nsQualifier_ne _ heq
    · exact nsBindings_keys_nodup nsAttributes
  have hdeclared : (writtenAttributes inherited ns attributes nsAttributes).filterMap declaredOf =
      ownDefault inherited ns ++ nsBindings nsAttributes := by
    rw [writtenAttributes, List.filterMap_append, List.filterMap_append, hown, hattributes, hqualified,
      List.append_nil]
  have hproto : ∀ entry ∈ ownDefault inherited ns ++ nsBindings nsAttributes, entry.1 ≠ "__proto__" := by
    intro entry hentry
    rcases List.mem_append.mp hentry with hentry | hentry
    · unfold ownDefault at hentry
      split at hentry
      · rw [List.mem_singleton.mp hentry]
        show "" ≠ "__proto__"
        decide
      · exact absurd hentry List.not_mem_nil
    · obtain ⟨pair, -, rfl⟩ := List.mem_map.mp hentry
      have hnot := @ofList_nsQualifier_notMem pair.2 ["__proto__"] (by decide)
      exact fun h => hnot (List.mem_singleton.mpr h)
  rw [declarationsOf_eq (by rwa [hdeclared]), hdeclared, recordOf_of_nodup hnodup]

theorem lookup_of_mem (h : (entries.map Prod.fst).Nodup) {key value : String}
    (hmem : (key, value) ∈ entries) : entries.lookup key = some value := by
  induction entries with
  | nil => simp at hmem
  | cons entry entries ih =>
    rw [List.map_cons, List.nodup_cons] at h
    cases List.mem_cons.mp hmem with
    | inl heq =>
      rw [← heq]
      exact List.lookup_cons_self
    | inr hrest =>
      have hne : (key == entry.1) = false := by
        rw [beq_eq_false_iff_ne]
        intro heq
        exact h.1 (List.mem_map.mpr ⟨(key, value), hrest, heq⟩)
      rw [List.lookup_cons, hne]
      exact ih h.2 hrest

theorem lookup_nsBindings_empty (nsAttributes : Entries) : (nsBindings nsAttributes).lookup "" = none := by
  rw [List.lookup_eq_none_iff]
  intro entry hentry
  obtain ⟨pair, -, rfl⟩ := List.mem_map.mp hentry
  rw [bne_iff_ne]
  exact (ofList_nsQualifier_ne _).symm

theorem binding_default {declared : List Entries} {inherited : Option String}
    (hdefault : binding declared "" = inherited) (ns : String) (nsAttributes : Entries) :
    binding ((ownDefault inherited ns ++ nsBindings nsAttributes) :: declared) "" =
      scopeWithin inherited ns := by
  have hxml : (if "" = "xml" then some XML_NS else none) = none := if_neg (by decide)
  have hinherited : Xml.inherited "" = none := by decide
  simp only [binding, hxml, hinherited, Option.or_none] at hdefault ⊢
  rw [List.findSome?_cons, List.lookup_append, lookup_nsBindings_empty, Option.or_none]
  unfold ownDefault scopeWithin
  by_cases hns : ns = ""
  · rw [if_neg fun h => h.1 hns, if_neg fun h => h hns]
    exact hdefault
  · rw [if_pos hns]
    by_cases hsame : inherited = some ns
    · rw [if_neg fun h => h.2 hsame, ← hsame]
      exact hdefault
    · rw [if_pos ⟨hns, hsame⟩]
      rfl

theorem resolveNs_nsQualifier {declared : List Entries} {inherited : Option String} {ns : String}
    {nsAttributes : Entries} {qname value : String} {i : Nat}
    (hmem : ((qname, value), i) ∈ nsAttributes.zipIdx) :
    resolveNs ((ownDefault inherited ns ++ nsBindings nsAttributes) :: declared)
      (String.ofList (nsQualifier i)) = .ok (String.ofList (splitQName qname).1) := by
  have hbound : (nsBindings nsAttributes).lookup (String.ofList (nsQualifier i)) =
      some (String.ofList (splitQName qname).1) :=
    lookup_of_mem (nsBindings_keys_nodup nsAttributes) (List.mem_map.mpr ⟨_, hmem, rfl⟩)
  have hown : (ownDefault inherited ns).lookup (String.ofList (nsQualifier i)) = none := by
    unfold ownDefault
    split
    · rw [List.lookup_cons, beq_eq_false_iff_ne.mpr (ofList_nsQualifier_ne i)]
      rfl
    · rfl
  unfold resolveNs binding
  rw [inherited_nsQualifier, List.findSome?_cons, List.lookup_append, hown, hbound]
  rfl

/-! ### One level of the tree -/

def rereadAttributes (nsAttributes : Entries) : Entries :=
  nsAttributes.map fun entry => (rereadQName entry.1, entry.2)

theorem filter_written {inherited : Option String} {ns : String} {attributes : Entries}
    (nsAttributes : Entries) (hplain : ∀ entry ∈ attributes, PlainName entry.1) :
    ((writtenAttributes inherited ns attributes nsAttributes).filter fun a => (declares a).isNone) =
      attributes.map (fun entry => ⟨entry.1.toList, entry.2.toList⟩) ++
        nsAttributes.zipIdx.map fun entry =>
          ⟨nsQualifier entry.2 ++ ':' :: (splitQName entry.1.1).2, entry.1.2.toList⟩ := by
  have hown : (if ns ≠ "" ∧ inherited ≠ some ns then
      [(⟨"xmlns".toList, ns.toList⟩ : RawAttribute)] else []).filter
        (fun a => (declares a).isNone) = [] := by
    have hdeclares : declares ⟨"xmlns".toList, ns.toList⟩ = some "" := if_pos rfl
    split
    · simp only [List.filter_cons, hdeclares]
      rfl
    · rfl
  have hattributes : (attributes.map fun entry =>
      (⟨entry.1.toList, entry.2.toList⟩ : RawAttribute)).filter (fun a => (declares a).isNone) =
      attributes.map fun entry => ⟨entry.1.toList, entry.2.toList⟩ := by
    rw [List.filter_eq_self]
    intro a ha
    obtain ⟨entry, hentry, rfl⟩ := List.mem_map.mp ha
    have hname := hplain entry hentry
    rw [declares_of_colon hname.colon fun heq => hname.declares (String.toList_injective heq)]
    rfl
  have hqualified : (nsAttributes.zipIdx.flatMap nsAttributeTexts).filter
      (fun a => (declares a).isNone) = nsAttributes.zipIdx.map fun entry =>
        ⟨nsQualifier entry.2 ++ ':' :: (splitQName entry.1.1).2, entry.1.2.toList⟩ := by
    have hone : ∀ entry : (String × String) × Nat,
        (nsAttributeTexts entry).filter (fun a => (declares a).isNone) =
          [⟨nsQualifier entry.2 ++ ':' :: (splitQName entry.1.1).2, entry.1.2.toList⟩] := by
      intro entry
      obtain ⟨⟨qname, value⟩, i⟩ := entry
      rw [nsAttributeTexts_eq]
      simp only [List.filter_cons, declares_xmlns, declares_qualified]
      rfl
    rw [List.filter_flatMap, List.map_eq_flatMap]
    simp only [hone]
  rw [writtenAttributes, List.filter_append, List.filter_append, hown, hattributes, hqualified,
    List.nil_append]

theorem resolved_written {declared : List Entries} {inherited : Option String} {ns : String}
    {attributes : Entries} (nsAttributes : Entries) (hplain : ∀ entry ∈ attributes, PlainName entry.1) :
    ∃ resolved, ((writtenAttributes inherited ns attributes nsAttributes).filter fun a =>
        (declares a).isNone).mapM (resolveAttribute
          ((ownDefault inherited ns ++ nsBindings nsAttributes) :: declared)) = .ok resolved ∧
      resolved.filterMap qualifiedEntry = rereadAttributes nsAttributes := by
  refine ⟨attributes.map (fun entry => ⟨"", entry.1, "", entry.2⟩) ++
    nsAttributes.zipIdx.map (fun entry => ⟨String.ofList (nsQualifier entry.2),
      String.ofList (splitQName entry.1.1).2, String.ofList (splitQName entry.1.1).1, entry.1.2⟩),
    ?_, ?_⟩
  · rw [filter_written nsAttributes hplain, mapM_eq_ok]
    apply List.rel_append
    · rw [List.forall₂_map_left_iff, List.forall₂_map_right_iff, List.forall₂_same]
      intro entry hentry
      have hsplit := splitName_plain (hplain entry hentry).colon
      rw [resolveAttribute_plain (by simp only; rw [hsplit])]
      simp only [hsplit, String.ofList_toList]
    · rw [List.forall₂_map_left_iff, List.forall₂_map_right_iff, List.forall₂_same]
      intro entry hentry
      obtain ⟨⟨qname, value⟩, i⟩ := entry
      have hsplit := splitName_append (colon_notMem_nsQualifier i) (splitQName qname).2
      rw [resolveAttribute_qualified (by simp only [hsplit]; exact ofList_nsQualifier_ne i)]
      simp only [hsplit, resolveNs_nsQualifier hentry, String.ofList_toList]
      rfl
  · have hnone : (attributes.map fun entry =>
        (⟨"", entry.1, "", entry.2⟩ : XmlAttribute)).filterMap qualifiedEntry = [] := by
      rw [List.filterMap_map, List.filterMap_eq_nil_iff]
      intro entry _
      rfl
    have hentry : ∀ entry : (String × String) × Nat, qualifiedEntry
        ⟨String.ofList (nsQualifier entry.2), String.ofList (splitQName entry.1.1).2,
          String.ofList (splitQName entry.1.1).1, entry.1.2⟩ =
        some (rereadQName entry.1.1, entry.1.2) := fun entry => if_neg (ofList_nsQualifier_ne entry.2)
    rw [List.filterMap_append, hnone, List.nil_append, List.filterMap_map]
    have hsome : nsAttributes.zipIdx.filterMap (qualifiedEntry ∘ fun entry =>
        ⟨String.ofList (nsQualifier entry.2), String.ofList (splitQName entry.1.1).2,
          String.ofList (splitQName entry.1.1).1, entry.1.2⟩) =
        nsAttributes.zipIdx.map fun entry => (rereadQName entry.1.1, entry.1.2) := by
      rw [← List.filterMap_eq_map]
      congr 1
      funext entry
      exact hentry entry
    have hfst : rereadAttributes nsAttributes =
        (nsAttributes.zipIdx.map Prod.fst).map fun entry => (rereadQName entry.1, entry.2) := by
      rw [List.zipIdx_map_fst]
      rfl
    rw [hsome, hfst, List.map_map]
    rfl

structure KeptTag (inherited : Option String) (ns name : String) (attributes nsAttributes : Entries) :
    Prop where
  ns : ns = "" → inherited.getD "" = ""
  first : name.toList.head?.any nameStart = true
  colon : ':' ∉ name.toList
  plain : ∀ entry ∈ attributes, PlainName entry.1
  recoverable : ∀ entry ∈ nsAttributes, Recoverable entry.1

structure Parsed (name : String) (attributes nsAttributes : Entries) : Prop where
  name : NameChars name.toList
  names : ∀ entry ∈ attributes, NameChars entry.1.toList
  qnames : ∀ entry ∈ nsAttributes, IsQName entry.1
  distinct : (attributes.map Prod.fst).Nodup
  nsDistinct : (nsAttributes.map Prod.fst).Nodup

theorem rereadAttributes_eq_self {nsAttributes : Entries}
    (hqnames : ∀ entry ∈ nsAttributes, IsQName entry.1)
    (hdistinct : (nsAttributes.map Prod.fst).Nodup)
    (hbrace : ∀ entry ∈ nsAttributes, OneBrace entry.1) :
    recordOf (rereadAttributes nsAttributes) = nsAttributes ↔
      ∀ entry ∈ nsAttributes, Recoverable entry.1 := by
  constructor
  · intro h entry hentry
    have hfilter : recordOf (nsAttributes.filterMap
        fun entry => some (rereadQName entry.1, entry.2)) = nsAttributes := by
      rw [List.filterMap_eq_map']
      exact h
    have hsame := eq_of_recordOf_filterMap hfilter entry hentry
    have hkey := congrArg Prod.fst (Option.some.inj hsame)
    exact (rereadQName_eq_self (hqnames entry hentry) (hbrace entry hentry)).mp hkey
  · intro h
    have hsame : rereadAttributes nsAttributes = nsAttributes := by
      unfold rereadAttributes
      conv_rhs => rw [← List.map_id nsAttributes]
      apply List.map_congr_left
      intro entry hentry
      rw [(rereadQName_eq_self (hqnames entry hentry) (hbrace entry hentry)).mpr (h entry hentry)]
      rfl
    rw [hsame]
    exact recordOf_of_nodup hdistinct

section
variable {limits : Limits} {declared : List Entries} {count depth : Nat} {inherited : Option String}
  {ns name : String} {attributes nsAttributes : Entries}

theorem unnamed_written (h : ∀ a ∈ writtenAttributes inherited ns attributes nsAttributes, a.name ≠ [])
    {entry : String × String} (hentry : entry ∈ attributes) : entry.1 ≠ "" := by
  intro hempty
  have hmem : (⟨entry.1.toList, entry.2.toList⟩ : RawAttribute) ∈
      writtenAttributes inherited ns attributes nsAttributes := by
    unfold writtenAttributes
    exact List.mem_append_left _ (List.mem_append_right _ (List.mem_map.mpr ⟨entry, hentry, rfl⟩))
  exact h _ hmem (by rw [hempty]; rfl)

theorem mem_writtenAttributes (h : a ∈ writtenAttributes inherited ns attributes nsAttributes) :
    a.name = "xmlns".toList ∨ (∃ entry ∈ attributes, a.name = entry.1.toList) ∨
      (∃ i, a.name = "xmlns:".toList ++ nsQualifier i) ∨
      ∃ entry ∈ nsAttributes, ∃ i, a.name = nsQualifier i ++ ':' :: (splitQName entry.1).2 := by
  unfold writtenAttributes at h
  rw [List.mem_append, List.mem_append] at h
  obtain (hown | hattribute) | hqualified := h
  · split at hown
    · rw [List.mem_singleton.mp hown]
      exact .inl rfl
    · cases hown
  · obtain ⟨entry, hentry, rfl⟩ := List.mem_map.mp hattribute
    exact .inr (.inl ⟨entry, hentry, rfl⟩)
  · obtain ⟨⟨⟨qname, value⟩, i⟩, hentry, ha⟩ := List.mem_flatMap.mp hqualified
    have hmem : (qname, value) ∈ nsAttributes := by
      have hfst := List.mem_map_of_mem (f := Prod.fst) hentry
      rwa [List.zipIdx_map_fst] at hfst
    rw [nsAttributeTexts_eq, List.mem_pair] at ha
    cases ha with
    | inl heq => exact .inr (.inr (.inl ⟨i, by rw [heq]⟩))
    | inr heq => exact .inr (.inr (.inr ⟨_, hmem, i, by rw [heq]⟩))

theorem resolveNs_empty (declared : List Entries) :
    resolveNs declared "" = .ok ((binding declared "").getD "") := by
  unfold resolveNs
  cases binding declared "" <;> rfl

theorem tag_kept (hdefault : binding declared "" = inherited)
    (hparsed : Parsed name attributes nsAttributes)
    (hbrace : ∀ entry ∈ nsAttributes, OneBrace entry.1) :
    (∃ tag, tagOf limits declared count depth name.toList
        (writtenAttributes inherited ns attributes nsAttributes) = some tag ∧
      tag.ns = ns ∧ tag.name = name ∧ recordOf (tag.attributes.filterMap plainEntry) = attributes ∧
      recordOf (tag.attributes.filterMap qualifiedEntry) = nsAttributes) ↔
    KeptTag inherited ns name attributes nsAttributes ∧ count + 1 ≤ limits.maxElements ∧
      declared.length + 1 ≤ limits.maxDepth := by
  constructor
  · intro ⟨tag, htag, hns, hname, hattributes, hnsAttributes⟩
    obtain ⟨⟨hcount, hfirst, hnamed, hdepth⟩, ns', resolved, hns', hresolved, rfl⟩ :=
      tagOf_eq_some.mp htag
    simp only at hns hname hattributes hnsAttributes
    have hcolon := notMem_of_splitName (hname.trans (String.ofList_toList).symm)
    rw [filterMap_plainEntry hresolved, filterMap_plainOf] at hattributes
    have hplain : ∀ entry ∈ attributes, PlainName entry.1 := by
      intro entry hentry
      have hself := eq_of_recordOf_filterMap hattributes entry hentry
      exact (plainOf_eq_self (unnamed_written hnamed hentry)).mp hself
    rw [declarationsOf_written nsAttributes hplain] at hns' hresolved
    obtain ⟨resolved', hok, hentries⟩ := @resolved_written declared inherited ns attributes nsAttributes
      hplain
    rw [hresolved] at hok
    cases hok
    rw [hentries] at hnsAttributes
    have hrecoverable := (rereadAttributes_eq_self hparsed.qnames hparsed.nsDistinct hbrace).mp
      hnsAttributes
    refine ⟨⟨?_, hfirst, hcolon, hplain, hrecoverable⟩, hcount, hdepth⟩
    intro hempty
    rw [splitName_plain hcolon, resolveNs_empty, binding_default hdefault] at hns'
    have hscope := Except.ok.inj hns'
    rw [hns, hempty] at hscope
    exact hscope
  · intro ⟨hkept, hcount, hdepth⟩
    have hnamed : ∀ a ∈ writtenAttributes inherited ns attributes nsAttributes, a.name ≠ [] := by
      intro a ha hnil
      obtain hown | ⟨entry, hentry, hname⟩ | ⟨i, hname⟩ | ⟨entry, -, i, hname⟩ :=
        mem_writtenAttributes ha
      · rw [hown] at hnil
        exact absurd hnil (by decide)
      · exact (hkept.plain entry hentry).nonempty (String.toList_injective (hname.symm.trans hnil))
      · rw [hname] at hnil
        simp at hnil
      · rw [hname] at hnil
        simp at hnil
    obtain ⟨resolved, hresolved, hentries⟩ := @resolved_written declared inherited ns attributes
      nsAttributes hkept.plain
    have hdeclarations := @declarationsOf_written inherited ns attributes nsAttributes hkept.plain
    have hsplit := splitName_plain hkept.colon
    have hdefaultNs : (scopeWithin inherited ns).getD "" = ns := by
      unfold scopeWithin
      by_cases hns : ns = ""
      · rw [if_neg fun h => h hns, hkept.ns hns, hns]
      · rw [if_pos hns]
        rfl
    have hns : resolveNs ((ownDefault inherited ns ++ nsBindings nsAttributes) :: declared)
        (splitName name.toList).1 = .ok ns := by
      rw [hsplit, resolveNs_empty, binding_default hdefault, hdefaultNs]
    rw [← hdeclarations] at hns hresolved
    refine ⟨_, tagOf_eq_some.mpr ⟨⟨hcount, hkept.first, hnamed, hdepth⟩, ns, resolved, hns, hresolved,
      rfl⟩, rfl, ?_, ?_, ?_⟩
    · simp only [hsplit, String.ofList_toList]
    · have hplain : attributes.filterMap (fun entry => plainOf ⟨entry.1.toList, entry.2.toList⟩) =
          attributes.filterMap some := by
        apply List.filterMap_congr
        intro entry hentry
        exact (plainOf_eq_self (hkept.plain entry hentry).nonempty).mpr (hkept.plain entry hentry)
      simp only
      rw [filterMap_plainEntry hresolved, filterMap_plainOf, hplain, List.filterMap_some]
      exact recordOf_of_nodup hparsed.distinct
    · simp only
      rw [hentries]
      exact (rereadAttributes_eq_self hparsed.qnames hparsed.nsDistinct hbrace).mpr hkept.recoverable

theorem declarations_kept {tag : StartTag}
    (htag : tagOf limits declared count depth name.toList
      (writtenAttributes inherited ns attributes nsAttributes) = some tag)
    (hkept : KeptTag inherited ns name attributes nsAttributes) :
    tag.declarations = ownDefault inherited ns ++ nsBindings nsAttributes := by
  obtain ⟨-, ns', resolved, -, -, rfl⟩ := tagOf_eq_some.mp htag
  exact declarationsOf_written nsAttributes hkept.plain

end

end Apim.DataPlane
