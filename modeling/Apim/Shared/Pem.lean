import Mathlib.Data.List.TakeWhile

/-!
# PEM texts

The blocks of a PEM text (`control-plane/src/certificates.ts:35-46`), and what is read back of blocks
joined by line feeds.
-/

namespace Apim.Pem

def cut (marker : List Char) : List Char → Option (List Char × List Char)
  | [] => if marker = [] then some ([], []) else none
  | c :: rest =>
    if marker.isPrefixOf (c :: rest) then some ([], (c :: rest).drop marker.length)
    else (cut marker rest).map fun found => (c :: found.1, found.2)

theorem cut_spec {marker cs before after : List Char} (h : cut marker cs = some (before, after)) :
    cs = before ++ (marker ++ after) := by
  induction cs generalizing before with
  | nil =>
    simp only [cut, Option.ite_none_right_eq_some, Option.some.injEq, Prod.mk.injEq] at h
    obtain ⟨hmarker, rfl, rfl⟩ := h
    simp [hmarker]
  | cons c rest ih =>
    by_cases hhere : marker.isPrefixOf (c :: rest) = true
    · simp only [cut, hhere, if_true, Option.some.injEq, Prod.mk.injEq] at h
      obtain ⟨rfl, rfl⟩ := h
      have hprefix : marker <+: c :: rest := List.isPrefixOf_iff_prefix.mp hhere
      obtain ⟨suffix, hsuffix⟩ := hprefix
      simp [← hsuffix]
    · rw [cut, if_neg hhere] at h
      simp only [Option.map_eq_some_iff, Prod.mk.injEq] at h
      obtain ⟨found, hfound, rfl, rfl⟩ := h
      have hrest := ih hfound
      simp [hrest]

theorem cut_append {marker cs before after : List Char} (h : cut marker cs = some (before, after))
    (more : List Char) : cut marker (cs ++ more) = some (before, after ++ more) := by
  induction cs generalizing before with
  | nil =>
    simp only [cut, Option.ite_none_right_eq_some, Option.some.injEq, Prod.mk.injEq] at h
    obtain ⟨hmarker, rfl, rfl⟩ := h
    subst hmarker
    cases more <;> simp [cut]
  | cons c rest ih =>
    by_cases hhere : marker.isPrefixOf (c :: rest) = true
    · simp only [cut, hhere, if_true, Option.some.injEq, Prod.mk.injEq] at h
      obtain ⟨rfl, rfl⟩ := h
      have hprefix : marker <+: c :: rest := List.isPrefixOf_iff_prefix.mp hhere
      have hlonger : marker.isPrefixOf (c :: (rest ++ more)) = true := by
        rw [List.isPrefixOf_iff_prefix]
        exact hprefix.trans (List.prefix_append (c :: rest) more)
      have hlength : marker.length ≤ (c :: rest).length := hprefix.length_le
      simp only [List.cons_append, cut, hlonger, if_true]
      rw [← List.cons_append, List.drop_append_of_le_length hlength]
    · rw [cut, if_neg hhere] at h
      simp only [Option.map_eq_some_iff, Prod.mk.injEq] at h
      obtain ⟨found, hfound, rfl, rfl⟩ := h
      have hlength : marker.length ≤ (c :: rest).length := by
        have hspec := congrArg List.length (cut_spec hfound)
        simp only [List.length_append, List.length_cons] at hspec ⊢
        omega
      have hstill : ¬marker.isPrefixOf (c :: (rest ++ more)) = true := by
        intro hlonger
        rw [List.isPrefixOf_iff_prefix, ← List.cons_append] at hlonger
        have hshort := List.prefix_of_prefix_length_le hlonger
          (List.prefix_append (c :: rest) more) hlength
        exact hhere (List.isPrefixOf_iff_prefix.mpr hshort)
      simp [List.cons_append, cut, hstill, ih hfound]

theorem cut_self {marker cs before after : List Char} (h : cut marker cs = some (before, after)) :
    cut marker (before ++ marker) = some (before, []) := by
  induction cs generalizing before with
  | nil =>
    simp only [cut, Option.ite_none_right_eq_some, Option.some.injEq, Prod.mk.injEq] at h
    obtain ⟨rfl, rfl, -⟩ := h
    rfl
  | cons c rest ih =>
    by_cases hhere : marker.isPrefixOf (c :: rest) = true
    · simp only [cut, hhere, if_true, Option.some.injEq, Prod.mk.injEq] at h
      obtain ⟨rfl, -⟩ := h
      cases marker with
      | nil => rfl
      | cons m marker => simp [cut]
    · rw [cut, if_neg hhere] at h
      simp only [Option.map_eq_some_iff, Prod.mk.injEq] at h
      obtain ⟨found, hfound, rfl, rfl⟩ := h
      have hstill : ¬marker.isPrefixOf (c :: (found.1 ++ marker)) = true := by
        intro hprefix
        rw [List.isPrefixOf_iff_prefix] at hprefix
        apply hhere
        rw [List.isPrefixOf_iff_prefix, cut_spec hfound, ← List.append_assoc, ← List.cons_append]
        exact hprefix.trans (List.prefix_append _ _)
      simp [List.cons_append, cut, hstill, ih hfound]

/-! ### Blocks -/

def dashes : List Char := ['-', '-', '-', '-', '-']

def BEGIN : List Char := dashes ++ ['B', 'E', 'G', 'I', 'N', ' ']

def END : List Char := dashes ++ ['E', 'N', 'D', ' ']

def labelChar (c : Char) : Bool := ('A' ≤ c && c ≤ 'Z') || ('0' ≤ c && c ≤ '9') || c == ' '

def opening (cs : List Char) : Option (List Char × List Char) :=
  if BEGIN.isPrefixOf cs then
    let named := (cs.drop BEGIN.length).takeWhile labelChar
    let rest := (cs.drop BEGIN.length).dropWhile labelChar
    if named ≠ [] ∧ dashes.isPrefixOf rest then some (named, rest.drop dashes.length) else none
  else none

def first (name : List Char) : List Char := BEGIN ++ (name ++ dashes)

def last (name : List Char) : List Char := END ++ (name ++ dashes)

def blockAt (cs : List Char) : Option ((List Char × List Char) × List Char) :=
  (opening cs).bind fun opened =>
    (cut (last opened.1) opened.2).map fun found =>
      ((opened.1, first opened.1 ++ (found.1 ++ last opened.1)), found.2)

def matchAll : Nat → List Char → List (List Char × List Char)
  | 0, _ => []
  | _ + 1, [] => []
  | fuel + 1, c :: rest =>
    match blockAt (c :: rest) with
    | some found => found.1 :: matchAll fuel found.2
    | none => matchAll fuel rest

/-- `pemBlocks` (`certificates.ts:40-46`). -/
def pemBlocks (input : String) (name : String) : List String :=
  ((matchAll input.toList.length input.toList).filter fun block => block.1 == name.toList).map
    fun block => String.ofList block.2

theorem opening_eq_some_iff {cs name inside : List Char} :
    opening cs = some (name, inside) ↔
      cs = first name ++ inside ∧ name ≠ [] ∧ ∀ c ∈ name, labelChar c = true := by
  constructor
  · intro h
    simp only [opening, Option.ite_none_right_eq_some, Option.some.injEq, Prod.mk.injEq] at h
    obtain ⟨hbegin, ⟨hne, hdashes⟩, rfl, rfl⟩ := h
    obtain ⟨named, rfl⟩ := List.isPrefixOf_iff_prefix.mp hbegin
    rw [List.drop_left] at hne hdashes ⊢
    obtain ⟨rest, hrest⟩ := List.isPrefixOf_iff_prefix.mp hdashes
    refine ⟨?_, hne, fun c hc => (List.mem_takeWhile_imp hc)⟩
    rw [← hrest, List.drop_left, first, List.append_assoc, List.append_assoc, hrest,
      List.takeWhile_append_dropWhile]
  · rintro ⟨rfl, hne, hall⟩
    have hdrop : (first name ++ inside).drop BEGIN.length = name ++ (dashes ++ inside) := by
      rw [first, List.append_assoc, List.drop_left, List.append_assoc]
    have hbegin : BEGIN.isPrefixOf (first name ++ inside) = true := by
      rw [List.isPrefixOf_iff_prefix, first, List.append_assoc]
      exact List.prefix_append _ _
    have htake : (name ++ (dashes ++ inside)).takeWhile labelChar = name := by
      rw [List.takeWhile_append_of_pos hall]
      simp [dashes, labelChar]
    have hleft : (name ++ (dashes ++ inside)).dropWhile labelChar = dashes ++ inside := by
      rw [List.dropWhile_append_of_pos hall]
      simp [dashes, labelChar]
    have hdashes : dashes.isPrefixOf (dashes ++ inside) = true := by
      rw [List.isPrefixOf_iff_prefix]
      exact List.prefix_append _ _
    simp only [opening, hbegin, if_true, hdrop, htake, hleft, hne, hdashes, ne_eq,
      not_false_eq_true, and_self, List.drop_left]

theorem blockAt_eq_some_iff {cs name block rest : List Char} :
    blockAt cs = some ((name, block), rest) ↔ ∃ inside body,
      opening cs = some (name, inside) ∧ cut (last name) inside = some (body, rest) ∧
        block = first name ++ (body ++ last name) := by
  simp only [blockAt, Option.bind_eq_some_iff, Option.map_eq_some_iff, Prod.mk.injEq, Prod.exists]
  constructor
  · rintro ⟨name', inside, hopening, body, rest', hcut, ⟨rfl, rfl⟩, rfl⟩
    exact ⟨inside, body, hopening, hcut, rfl⟩
  · rintro ⟨inside, body, hopening, hcut, rfl⟩
    exact ⟨name, inside, hopening, body, rest, hcut, ⟨rfl, rfl⟩, rfl⟩

def IsBlock (name text : String) : Prop :=
  blockAt text.toList = some ((name.toList, text.toList), [])

instance (name text : String) : Decidable (IsBlock name text) := by
  unfold IsBlock
  infer_instance

theorem blockAt_append {name text : String} (h : IsBlock name text) (more : List Char) :
    blockAt (text.toList ++ more) = some ((name.toList, text.toList), more) := by
  obtain ⟨inside, body, hopening, hcut, hblock⟩ := blockAt_eq_some_iff.mp h
  obtain ⟨htext, hne, hall⟩ := opening_eq_some_iff.mp hopening
  refine blockAt_eq_some_iff.mpr ⟨inside ++ more, body, ?_, ?_, hblock⟩
  · rw [opening_eq_some_iff, htext, List.append_assoc]
    exact ⟨rfl, hne, hall⟩
  · have hlonger := cut_append hcut more
    simpa using hlonger

/-! ### Blocks joined by line feeds -/

theorem blockAt_lineFeed (rest : List Char) : blockAt ('\n' :: rest) = none := by
  have hopening : opening ('\n' :: rest) = none := by
    simp [opening, BEGIN, dashes]
  rw [blockAt, hopening, Option.bind_none]

theorem isBlock_ne_nil {name text : String} (h : IsBlock name text) : text.toList ≠ [] := by
  obtain ⟨inside, body, hopening, -, -⟩ := blockAt_eq_some_iff.mp h
  obtain ⟨htext, -, -⟩ := opening_eq_some_iff.mp hopening
  rw [htext]
  simp [first, BEGIN, dashes]

attribute [local simp] matchAll

theorem matchAll_block {name text : String} (h : IsBlock name text) (fuel : Nat)
    (more : List Char) : matchAll (fuel + 1 + 1) (text.toList ++ '\n' :: more) =
      (name.toList, text.toList) :: matchAll fuel more := by
  have hat := blockAt_append h ('\n' :: more)
  obtain ⟨c, cs, hcs⟩ := List.exists_cons_of_ne_nil (isBlock_ne_nil h)
  rw [hcs, List.cons_append] at hat ⊢
  simp only [matchAll, hat, blockAt_lineFeed]

theorem matchAll_joined {name : String} (texts : List String)
    (h : ∀ text ∈ texts, IsBlock name text) (fuel : Nat)
    (hfuel : (['\n'].intercalate (texts.map String.toList)).length ≤ fuel) :
    matchAll fuel (['\n'].intercalate (texts.map String.toList)) =
      texts.map fun text => (name.toList, text.toList) := by
  induction texts generalizing fuel with
  | nil => cases fuel <;> rfl
  | cons text texts ih =>
    have hblock : IsBlock name text := h text List.mem_cons_self
    have hrest : ∀ other ∈ texts, IsBlock name other :=
      fun other hother => h other (List.mem_cons_of_mem _ hother)
    obtain ⟨c, cs, hcs⟩ := List.exists_cons_of_ne_nil (isBlock_ne_nil hblock)
    cases texts with
    | nil =>
      have hlength : text.toList.length ≤ fuel := by simpa using hfuel
      cases fuel with
      | zero =>
        rw [hcs] at hlength
        simp at hlength
      | succ fuel =>
        have hat := blockAt_append hblock []
        rw [List.append_nil, hcs] at hat
        simp only [List.map_cons, List.map_nil, List.intercalate_singleton, hcs, matchAll, hat]
        cases fuel <;> rfl
    | cons next texts =>
      have hjoined : ['\n'].intercalate ((text :: next :: texts).map String.toList) =
          text.toList ++ ('\n' :: ['\n'].intercalate ((next :: texts).map String.toList)) := by
        simp [List.intercalate_cons_cons]
      rw [hjoined] at hfuel ⊢
      simp only [List.length_append, List.length_cons, hcs] at hfuel
      obtain ⟨less, rfl⟩ : ∃ less, fuel = less + 1 + 1 := ⟨fuel - 2, by omega⟩
      rw [matchAll_block hblock, ih hrest less (by omega)]
      rfl

theorem pemBlocks_joined {name : String} (texts : List String)
    (h : ∀ text ∈ texts, IsBlock name text) :
    pemBlocks ("\n".intercalate texts) name = texts := by
  have htexts : ("\n".intercalate texts).toList = ['\n'].intercalate (texts.map String.toList) := by
    rw [String.toList_intercalate]
    rfl
  rw [pemBlocks, htexts, matchAll_joined texts h _ (Nat.le_refl _)]
  simp [List.filter_map, Function.comp_def]

end Apim.Pem
