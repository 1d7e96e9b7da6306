import Apim.DataPlane.SubjectNames
import Apim.Shared.Letters
import Mathlib.Data.List.Lex

/-!
# Two spellings of a distinguished name

Whether the subject of a certificate is the name a grant is bound to (`shared/kafka.ts:243-280`). The
parts are sorted by their code units as they are written and compared without regard to case, position
by position. So the parts of one name may stand in another order in another spelling of it; a name has
to be `Stable` for that not to happen.
-/

namespace Apim.Kafka.Names

open Routing (isSpace trim)
open DataPlane.SubjectNames Letters

/-! ### The code -/

/-- `toLowerCase`. Letters, digits and what else a type may have, and the sign behind it, are none of the
letters it folds by their context. -/
structure Lowering where
  toLowerCase : List Char → List Char
  behind_type : ∀ type value : List Char, type.all isTypeChar = true →
    toLowerCase (type ++ '=' :: value) = type.map Char.toLower ++ '=' :: toLowerCase value

def isSeparator (c : Char) : Bool := c == ',' || c == '\n' || c == '+'

def splitParts (current : List Char) : List Char → List (List Char)
  | [] => [current]
  | [c] => if isSeparator c then [current, []] else [current ++ [c]]
  | c :: d :: rest =>
    if c = '\\' then splitParts (current ++ [d]) rest
    else if isSeparator c then current :: splitParts [] (d :: rest)
    else splitParts (current ++ [c]) (d :: rest)

def typed (part : List Char) : List Char :=
  match part.dropWhile (· != '=') with
  | [] => part
  | _ :: value => (trim (part.takeWhile (· != '='))).map Char.toUpper ++ '=' :: trim value

def unitsOf (c : Char) : List Nat :=
  if c.toNat < 0x10000 then [c.toNat]
  else [0xd800 + (c.toNat - 0x10000) / 0x400, 0xdc00 + (c.toNat - 0x10000) % 0x400]

def codeUnits (text : List Char) : List Nat := text.flatMap unitsOf

def notAfter (a b : List Char) : Bool := decide (codeUnits a ≤ codeUnits b)

/-- `dnParts` (`shared/kafka.ts:248-273`). -/
def dnParts (dn : List Char) : List (List Char) :=
  ((((splitParts [] dn).map trim).filter (· ≠ [])).map typed).mergeSort notAfter

/-- `dnMatches` (`shared/kafka.ts:276-280`). -/
def dnMatches (L : Lowering) (subject principal : List Char) : Bool :=
  let a := dnParts subject
  let b := dnParts principal
  !a.isEmpty && a.length == b.length &&
    (a.zip b).all fun p => L.toLowerCase p.1 == L.toLowerCase p.2

/-! ### Names -/

/-- An attribute with blanks around its type and its value, and the separator before it. -/
structure Part where
  joined : Bool
  atv : Attribute
  blanks : Nat × Nat × Nat × Nat

def spaces (n : Nat) : List Char := List.replicate n ' '

def Part.text (p : Part) : List Char :=
  (spaces p.blanks.1 ++ (p.atv.type ++ spaces p.blanks.2.1)) ++ '=' ::
    (spaces p.blanks.2.2.1 ++ (p.atv.value.text ++ spaces p.blanks.2.2.2))

abbrev Name := List Part

def Part.separator (p : Part) : Char := if p.joined then '+' else ','

def Name.text : Name → List Char
  | [] => []
  | p :: rest => p.text ++ rest.flatMap fun q => q.separator :: q.text

/-- A value is written plainly: no hex pair, no line feed, and nothing blank at its ends. -/
def Plain (a : Attribute) : Prop :=
  a.value.hasHex = false ∧ '\n' ∉ a.value.text ∧ Routing.Bare a.value.unescaped

def Name.Plain (name : Name) : Prop := ∀ p ∈ name, Names.Plain p.atv

section Folding
variable (L : Lowering)

def folded (a : Attribute) : List Char × List Char :=
  (a.type.map Char.toLower, L.toLowerCase a.value.unescaped)

def Name.pairs (name : Name) : List (List Char × List Char) :=
  name.map fun p => folded L p.atv

/-- What is asked of a name and any two others. -/
structure Lawful (name : Name) : Prop where
  refl : name ≠ [] → dnMatches L name.text name.text = true
  symm : ∀ other : Name, other.Plain →
    dnMatches L name.text other.text = dnMatches L other.text name.text
  trans : ∀ mid other : Name, mid.Plain → other.Plain → dnMatches L name.text mid.text = true →
    dnMatches L mid.text other.text = true → dnMatches L name.text other.text = true
  same : ∀ other : Name, other.Plain → name ≠ [] → (name.pairs L).Perm (other.pairs L) →
    dnMatches L name.text other.text = true
  only : ∀ other : Name, other.Plain → dnMatches L name.text other.text = true →
    (name.pairs L).Perm (other.pairs L)

def partOf (a : Attribute) : List Char := a.type.map Char.toUpper ++ '=' :: a.value.unescaped

/-- Parts that differ in more than case come in one order, however their letters are written. -/
def Stable (name : Name) : Prop :=
  ∀ p ∈ name, ∀ q ∈ name, folded L p.atv ≠ folded L q.atv →
    ∀ a a' b b' : Attribute, Plain a → Plain a' → Plain b → Plain b' →
      folded L a = folded L p.atv → folded L a' = folded L p.atv →
      folded L b = folded L q.atv → folded L b' = folded L q.atv →
      notAfter (partOf a) (partOf b) = true → notAfter (partOf a') (partOf b') = true

end Folding

/-! ### Reading a name -/

variable {c : Char}

theorem split_char (hslash : c ≠ '\\') (hsep : isSeparator c = false) (current rest : List Char) :
    splitParts current (c :: rest) = splitParts (current ++ [c]) rest := by
  cases rest with
  | nil => simp [splitParts, hsep]
  | cons d more => simp [splitParts, hsep, hslash]

theorem split_chars {text : List Char} (h : ∀ c ∈ text, c ≠ '\\' ∧ isSeparator c = false)
    (current rest : List Char) :
    splitParts current (text ++ rest) = splitParts (current ++ text) rest := by
  induction text generalizing current with
  | nil => rw [List.append_nil, List.nil_append]
  | cons c text ih =>
    have hc := h c List.mem_cons_self
    rw [List.cons_append, split_char hc.1 hc.2, ih fun d hd => h d (List.mem_cons_of_mem _ hd),
      List.append_assoc, List.singleton_append]

theorem split_separator (hslash : c ≠ '\\') (hsep : isSeparator c = true) (current rest : List Char) :
    splitParts current (c :: rest) = current :: splitParts [] rest := by
  cases rest with
  | nil => simp [splitParts, hsep]
  | cons d more => simp [splitParts, hsep, hslash]

theorem split_piece (piece : Piece) (hfeed : '\n' ∉ piece.text) (hhex : piece.isHex = false)
    (current rest : List Char) :
    splitParts current (piece.text ++ rest) = splitParts (current ++ [piece.char]) rest := by
  cases piece with
  | plain c h =>
    have hne : c ≠ '\\' ∧ isSeparator c = false := by
      simp only [Piece.text, List.mem_singleton] at hfeed
      have hcomma : c ≠ ',' := by rintro rfl; cases h
      have hplus : c ≠ '+' := by rintro rfl; cases h
      have hslash : c ≠ '\\' := by rintro rfl; cases h
      simp [isSeparator, hslash, hcomma, hplus, Ne.symm hfeed]
    exact split_char hne.1 hne.2 current rest
  | pair c h => simp [Piece.text, Piece.char, splitParts]
  | hex c octets h => cases hhex

theorem split_value (value : AttributeValue) (hfeed : '\n' ∉ value.text) (hhex : value.hasHex = false)
    (current rest : List Char) :
    splitParts current (value.text ++ rest) = splitParts (current ++ value.unescaped) rest := by
  cases value with
  | encoded octets h =>
    refine split_chars (fun c hc => ?_) current rest
    simp only [AttributeValue.text, List.mem_cons, List.mem_flatMap, List.not_mem_nil,
      or_false] at hc
    obtain rfl | ⟨octet, hoctet, rfl | rfl⟩ := hc
    · decide
    all_goals
      obtain ⟨⟨high, hhigh⟩, low, hlow⟩ := digits_of_octetOf (h octet hoctet)
    · have hne := ne_of_hexDigit hhigh
      refine ⟨hne.1.1, ?_⟩
      simp only [isSeparator, Bool.or_eq_false_iff, beq_eq_false_iff_ne]
      refine ⟨⟨hne.1.2, ?_⟩, ?_⟩ <;> (rintro heq; rw [heq] at hhigh; cases hhigh)
    · have hne := ne_of_hexDigit hlow
      refine ⟨hne.1.1, ?_⟩
      simp only [isSeparator, Bool.or_eq_false_iff, beq_eq_false_iff_ne]
      refine ⟨⟨hne.1.2, ?_⟩, ?_⟩ <;> (rintro heq; rw [heq] at hlow; cases hlow)
  | string pieces h =>
    simp only [AttributeValue.text, AttributeValue.unescaped, AttributeValue.hasHex] at hfeed hhex ⊢
    clear h
    induction pieces generalizing current with
    | nil => rw [List.flatMap_nil, List.map_nil, List.append_nil, List.nil_append]
    | cons piece pieces ih =>
      rw [List.flatMap_cons, List.mem_append, not_or] at hfeed
      rw [List.any_cons, Bool.or_eq_false_iff] at hhex
      rw [List.flatMap_cons, List.append_assoc, split_piece piece hfeed.1 hhex.1, List.map_cons,
        ih (current ++ [piece.char]) hfeed.2 hhex.2, List.append_assoc, List.singleton_append]

theorem typed_chars (a : Attribute) (hc : c ∈ a.type) :
    c ≠ '\\' ∧ c ≠ '=' ∧ isSeparator c = false ∧ isSpace c = false := by
  have htype := List.all_eq_true.mp a.typed c hc
  refine ⟨?_, ?_, ?_, isSpace_typeChar htype⟩
  · rintro rfl
    cases htype
  · rintro rfl
    cases htype
  · simp only [isSeparator, Bool.or_eq_false_iff, beq_eq_false_iff_ne]
    refine ⟨⟨?_, ?_⟩, ?_⟩ <;> (rintro rfl; cases htype)

theorem of_mem_spaces {n : Nat} (hc : c ∈ spaces n) :
    (c ≠ '\\' ∧ isSeparator c = false) ∧ c ≠ '=' ∧ isSpace c = true := by
  obtain rfl := (List.mem_replicate.mp hc).2
  decide

def Part.raw (p : Part) : List Char :=
  (spaces p.blanks.1 ++ (p.atv.type ++ spaces p.blanks.2.1)) ++ '=' ::
    (spaces p.blanks.2.2.1 ++ (p.atv.value.unescaped ++ spaces p.blanks.2.2.2))

theorem split_part (p : Part) (hp : Plain p.atv) (current rest : List Char) :
    splitParts current (p.text ++ rest) = splitParts (current ++ p.raw) rest := by
  have htype : ∀ c ∈ p.atv.type, c ≠ '\\' ∧ isSeparator c = false := fun c hc =>
    ⟨(typed_chars p.atv hc).1, (typed_chars p.atv hc).2.2.1⟩
  have hspaces : ∀ n, ∀ c ∈ spaces n, c ≠ '\\' ∧ isSeparator c = false := fun n c hc =>
    (of_mem_spaces hc).1
  simp only [Part.text, List.append_assoc, List.cons_append]
  rw [split_chars (hspaces _), split_chars htype, split_chars (hspaces _),
    split_char (by decide) (by decide), split_chars (hspaces _), split_value _ hp.2.1 hp.1,
    split_chars (hspaces _)]
  simp only [Part.raw, List.append_assoc, List.cons_append, List.nil_append]

theorem split_name (name : Name) (hplain : name.Plain) :
    splitParts [] name.text = if name = [] then [[]] else name.map Part.raw := by
  have hmore : ∀ (rest : Name) (current : List Char), rest.Plain →
      splitParts current (rest.flatMap fun q => q.separator :: q.text) =
        current :: rest.map Part.raw := by
    intro rest
    induction rest with
    | nil => exact fun current _ => rfl
    | cons q rest ih =>
      intro current hrest
      have hmark : q.separator ≠ '\\' ∧ isSeparator q.separator = true := by
        unfold Part.separator
        split <;> decide
      rw [List.flatMap_cons, List.cons_append, split_separator hmark.1 hmark.2,
        split_part q (hrest q List.mem_cons_self), List.nil_append,
        ih q.raw fun r hr => hrest r (List.mem_cons_of_mem _ hr)]
      rfl
  cases name with
  | nil => rfl
  | cons p rest =>
    rw [Name.text, split_part p (hplain p List.mem_cons_self), List.nil_append,
      hmore rest p.raw fun r hr => hplain r (List.mem_cons_of_mem _ hr)]
    simp

theorem typed_raw (p : Part) (hp : Plain p.atv) :
    trim p.raw ≠ [] ∧ typed (trim p.raw) = partOf p.atv := by
  have hspaces : ∀ n, ∀ c ∈ spaces n, isSpace c = true := fun n c hc => (of_mem_spaces hc).2.2
  obtain ⟨front, hfront⟩ : ∃ front, front =
    spaces p.blanks.1 ++ (p.atv.type ++ spaces p.blanks.2.1) := ⟨_, rfl⟩
  obtain ⟨back, hback⟩ : ∃ back, back =
    spaces p.blanks.2.2.1 ++ (p.atv.value.unescaped ++ spaces p.blanks.2.2.2) := ⟨_, rfl⟩
  have htrim : trim p.raw = front.dropWhile isSpace ++ '=' :: back.rdropWhile isSpace := by
    rw [Part.raw, ← hfront, ← hback, Routing.trim_append_cons front (by decide) back]
  have hsign : ∀ c ∈ front.dropWhile isSpace, (c != '=') = true := by
    intro c hc
    have hin := (List.dropWhile_suffix isSpace).mem hc
    rw [hfront, List.mem_append, List.mem_append] at hin
    have hne : c ≠ '=' := by
      obtain hc | hc | hc := hin
      · exact (of_mem_spaces hc).2.1
      · exact (typed_chars p.atv hc).2.1
      · exact (of_mem_spaces hc).2.1
    exact bne_iff_ne.mpr hne
  have htype : trim front = p.atv.type := by
    have hbare : Routing.Bare p.atv.type :=
      ⟨fun c hc => (typed_chars p.atv (List.mem_of_head? hc)).2.2.2,
        fun c hc => (typed_chars p.atv (List.mem_of_getLast? hc)).2.2.2⟩
    rw [hfront, Routing.trim_blanks_append (hspaces _), Routing.trim_append_blanks _ (hspaces _),
      Routing.trim_of_bare hbare]
  have hvalue : trim back = p.atv.value.unescaped := by
    rw [hback, Routing.trim_blanks_append (hspaces _), Routing.trim_append_blanks _ (hspaces _),
      Routing.trim_of_bare hp.2.2]
  have hdrop : (trim p.raw).dropWhile (· != '=') = '=' :: back.rdropWhile isSpace := by
    rw [htrim, List.dropWhile_append_of_pos hsign, List.dropWhile_cons_of_neg (by decide)]
  have htake : (trim p.raw).takeWhile (· != '=') = front.dropWhile isSpace := by
    rw [htrim, List.takeWhile_append_of_pos hsign, List.takeWhile_cons_of_neg (by decide),
      List.append_nil]
  constructor
  · rw [htrim]
    exact List.append_ne_nil_of_right_ne_nil _ (List.cons_ne_nil _ _)
  · simp only [typed, hdrop, htake, Routing.trim_dropWhile, htype, Routing.trim_rdropWhile, hvalue,
      partOf]

variable {name : Name}

theorem dnParts_name (hplain : name.Plain) :
    dnParts name.text = (name.map fun p => partOf p.atv).mergeSort notAfter := by
  rw [dnParts, split_name name hplain]
  by_cases hnil : name = []
  · subst hnil
    rfl
  · rw [if_neg hnil, List.map_map, List.filter_eq_self.mpr, List.map_map]
    · congr 1
      exact List.map_congr_left fun p hp => (typed_raw p (hplain p hp)).2
    · intro part hpart
      obtain ⟨p, hp, rfl⟩ := List.mem_map.mp hpart
      exact decide_eq_true (typed_raw p (hplain p hp)).1

/-! ### The order of code units -/

theorem codeUnits_injective : ∀ {a b : List Char}, codeUnits a = codeUnits b → a = b
  | [], [], _ => rfl
  | [], c :: b, h => by
    have hlength := congrArg List.length h
    rw [codeUnits, codeUnits, List.flatMap_cons, List.length_append, unitsOf] at hlength
    split at hlength <;> simp at hlength <;> omega
  | c :: a, [], h => by
    have hlength := congrArg List.length h
    rw [codeUnits, codeUnits, List.flatMap_cons, List.length_append, unitsOf] at hlength
    split at hlength <;> simp at hlength
  | c :: a, d :: b, h => by
    have hc : c.toNat < 0xd800 ∨ 0xdfff < c.toNat ∧ c.toNat < 0x110000 := c.valid
    have hd : d.toNat < 0xd800 ∨ 0xdfff < d.toNat ∧ d.toNat < 0x110000 := d.valid
    rw [codeUnits, codeUnits, List.flatMap_cons, List.flatMap_cons, unitsOf, unitsOf] at h
    have hsame : c.toNat = d.toNat ∧ codeUnits a = codeUnits b := by
      split at h <;> split at h <;>
        simp only [List.cons_append, List.nil_append, List.cons.injEq] at h
      · exact h
      · omega
      · omega
      · exact ⟨by omega, h.2.2⟩
    rw [Char.toNat_inj.mp hsame.1, codeUnits_injective hsame.2]

theorem notAfter_antisymm {a b : List Char} (hab : notAfter a b = true) (hba : notAfter b a = true) :
    a = b :=
  codeUnits_injective (le_antisymm (of_decide_eq_true hab) (of_decide_eq_true hba))

theorem notAfter_total (a b : List Char) : (notAfter a b || notAfter b a) = true := by
  rw [Bool.or_eq_true]
  exact (le_total _ _).imp decide_eq_true decide_eq_true

theorem notAfter_trans (a b c : List Char) (hab : notAfter a b = true) (hbc : notAfter b c = true) :
    notAfter a c = true :=
  decide_eq_true ((of_decide_eq_true hab).trans (of_decide_eq_true hbc))

/-! ### Comparing two names -/

section Comparing
variable (L : Lowering)

theorem matches_iff (subject principal : List Char) : dnMatches L subject principal = true ↔
    dnParts subject ≠ [] ∧ (dnParts subject).map L.toLowerCase = (dnParts principal).map L.toLowerCase := by
  have hzip : ∀ a b : List (List Char), (a.length == b.length &&
      (a.zip b).all fun p => L.toLowerCase p.1 == L.toLowerCase p.2) = true ↔
      a.map L.toLowerCase = b.map L.toLowerCase := by
    intro a
    induction a with
    | nil => intro b; cases b <;> simp
    | cons x a ih =>
      intro b
      cases b with
      | nil => simp
      | cons y b =>
        have hrest := ih b
        simp only [Bool.and_eq_true, beq_iff_eq] at hrest
        simp only [List.length_cons, List.zip_cons_cons, List.all_cons, Bool.and_eq_true, beq_iff_eq,
          List.map_cons, List.cons.injEq, Nat.add_right_cancel_iff]
        rw [← hrest]
        exact and_left_comm
  have hsplit := hzip (dnParts subject) (dnParts principal)
  rw [dnMatches, Bool.and_assoc, Bool.and_eq_true, hsplit]
  simp

def join (pair : List Char × List Char) : List Char := pair.1 ++ '=' :: pair.2

theorem isTypeChar_toUpper (h : isTypeChar c = true) : isTypeChar c.toUpper = true := by
  cases hlower : c.isLower with
  | true => simp [isTypeChar, Char.isAlphanum, isAlpha_eq, isUpper_toUpper hlower]
  | false => rwa [toUpper_of_not_isLower hlower]

theorem lower_partOf (a : Attribute) : L.toLowerCase (partOf a) = join (folded L a) := by
  have hupper : (a.type.map Char.toUpper).all isTypeChar = true := by
    rw [List.all_map]
    exact List.all_eq_true.mpr fun c hc => isTypeChar_toUpper (List.all_eq_true.mp a.typed c hc)
  have hlower : (a.type.map Char.toUpper).map Char.toLower = a.type.map Char.toLower := by
    rw [List.map_map]
    exact List.map_congr_left fun c _ => toLower_toUpper c
  rw [partOf, L.behind_type _ _ hupper, hlower]
  rfl

def unjoin (text : List Char) : List Char × List Char :=
  (text.takeWhile (· != '='), (text.dropWhile (· != '=')).tail)

theorem unjoin_join (a : Attribute) : unjoin (join (folded L a)) = folded L a := by
  have hsign : ∀ c ∈ a.type.map Char.toLower, (c != '=') = true := by
    intro c hc
    obtain ⟨d, hd, rfl⟩ := List.mem_map.mp hc
    refine bne_iff_ne.mpr fun heq => ?_
    exact (typed_chars a hd).2.1 ((toLower_eq_iff (by decide)).mp heq).1
  rw [unjoin, join, folded, List.takeWhile_append_of_pos hsign, List.dropWhile_append_of_pos hsign,
    List.takeWhile_cons_of_neg (by decide), List.dropWhile_cons_of_neg (by decide), List.append_nil,
    List.tail_cons]

theorem join_folded_inj {a b : Attribute} (h : join (folded L a) = join (folded L b)) :
    folded L a = folded L b := by
  have hback := congrArg unjoin h
  rwa [unjoin_join, unjoin_join] at hback

def key (name : Name) : List (List Char) := (dnParts name.text).map L.toLowerCase

theorem key_perm (hplain : name.Plain) : (key L name).Perm ((name.pairs L).map join) := by
  have hsorted := (List.mergeSort_perm (name.map fun p => partOf p.atv) notAfter).map L.toLowerCase
  rw [key, dnParts_name hplain]
  refine hsorted.trans ?_
  rw [Name.pairs, List.map_map, List.map_map]
  exact .of_eq (List.map_congr_left fun p _ => lower_partOf L p.atv)

theorem pairs_perm_of_key {other : Name} (hplain : name.Plain) (hother : other.Plain)
    (h : key L name = key L other) : (name.pairs L).Perm (other.pairs L) := by
  have hback : ∀ w : Name, ((w.pairs L).map join).map unjoin = w.pairs L := by
    intro w
    rw [Name.pairs, List.map_map, List.map_map]
    exact List.map_congr_left fun p _ => unjoin_join L p.atv
  have hjoined := ((key_perm L hplain).symm.trans (h ▸ key_perm L hother)).map unjoin
  rwa [hback, hback] at hjoined

theorem parts_ne_iff (hplain : name.Plain) : dnParts name.text ≠ [] ↔ name ≠ [] := by
  have hlength : (dnParts name.text).length = name.length := by
    rw [dnParts_name hplain, List.length_mergeSort, List.length_map]
  rw [← List.length_pos_iff, ← List.length_pos_iff, hlength]

theorem key_eq_nil {other : Name} (h : key L name = key L other) :
    dnParts name.text ≠ [] ↔ dnParts other.text ≠ [] := by
  have hlength := congrArg List.length h
  rw [key, key, List.length_map, List.length_map] at hlength
  rw [← List.length_pos_iff, ← List.length_pos_iff, hlength]

/-! ### The order of the parts -/

/-- Equal, or two pairs of the name whose parts come in this order in every spelling. -/
def Ordered (name : Name) (f g : List Char) : Prop :=
  f = g ∨ ∃ p ∈ name, ∃ q ∈ name, f = join (folded L p.atv) ∧ g = join (folded L q.atv) ∧
    ∀ a b : Attribute, Plain a → Plain b → folded L a = folded L p.atv →
      folded L b = folded L q.atv → notAfter (partOf a) (partOf b) = true

theorem ordered_antisymm (hplain : name.Plain) {f g : List Char} (hfg : Ordered L name f g)
    (hgf : Ordered L name g f) : f = g := by
  obtain heq | ⟨p, hp, q, hq, rfl, rfl, hpq⟩ := hfg
  · exact heq
  · obtain heq | ⟨q', -, p', -, hq', hp', hqp⟩ := hgf
    · exact heq.symm
    · have hfirst := hpq p.atv q.atv (hplain p hp) (hplain q hq) rfl rfl
      have hsecond := hqp q.atv p.atv (hplain q hq) (hplain p hp)
        (join_folded_inj L hq') (join_folded_inj L hp')
      rw [← lower_partOf, ← lower_partOf, notAfter_antisymm hfirst hsecond]

theorem key_ordered {other : Name} (hstable : Stable L name) (hother : other.Plain)
    (hsame : (name.pairs L).Perm (other.pairs L)) : (key L other).Pairwise (Ordered L name) := by
  have hspelled : ∀ r ∈ other, ∃ p ∈ name, folded L p.atv = folded L r.atv := fun r hr =>
    List.mem_map.mp (hsame.mem_iff.mpr (List.mem_map_of_mem hr))
  rw [key, dnParts_name hother, List.pairwise_map]
  refine (List.pairwise_mergeSort notAfter_trans notAfter_total _).imp_of_mem ?_
  intro x y hx hy hxy
  rw [List.mem_mergeSort] at hx hy
  obtain ⟨r, hr, rfl⟩ := List.mem_map.mp hx
  obtain ⟨t, ht, rfl⟩ := List.mem_map.mp hy
  obtain ⟨p, hp, hpr⟩ := hspelled r hr
  obtain ⟨q, hq, hqt⟩ := hspelled t ht
  rw [lower_partOf, lower_partOf]
  by_cases heq : folded L r.atv = folded L t.atv
  · exact .inl (by rw [heq])
  · refine .inr ⟨p, hp, q, hq, by rw [hpr], by rw [hqt], fun a b ha hb hpa hqb => ?_⟩
    exact hstable p hp q hq (by rwa [hpr, hqt]) r.atv a t.atv b (hother r hr) ha
      (hother t ht) hb hpr.symm hpa hqt.symm hqb hxy

theorem key_eq_of_stable {other : Name} (hplain : name.Plain) (hstable : Stable L name)
    (hother : other.Plain) (hsame : (name.pairs L).Perm (other.pairs L)) :
    key L name = key L other := by
  have hperm := ((key_perm L hplain).trans (hsame.map join)).trans (key_perm L hother).symm
  exact List.Perm.eq_of_pairwise (fun f g _ _ => ordered_antisymm L hplain)
    (key_ordered L hstable hplain (List.Perm.refl _)) (key_ordered L hstable hother hsame) hperm

/-! ### Other spellings of a name -/

def respell (a b : Attribute) (name : Name) : Name :=
  name.map fun p =>
    { p with
      atv := if folded L p.atv = folded L a then a
        else if folded L p.atv = folded L b then b else p.atv }

theorem respell_plain {a b : Attribute} (ha : Plain a) (hb : Plain b) (hplain : name.Plain) :
    (respell L a b name).Plain := by
  intro r hr
  obtain ⟨p, hp, rfl⟩ := List.mem_map.mp hr
  dsimp only
  split
  · exact ha
  · split
    · exact hb
    · exact hplain p hp

theorem respell_pairs (a b : Attribute) (name : Name) : (respell L a b name).pairs L = name.pairs L := by
  rw [respell, Name.pairs, Name.pairs, List.map_map]
  refine List.map_congr_left fun p _ => ?_
  simp only [Function.comp_apply]
  split
  · next h => exact h.symm
  · split
    · next h => exact h.symm
    · rfl

theorem of_mem_respell {a b : Attribute} {r : Part} (hr : r ∈ respell L a b name) :
    (folded L r.atv = folded L a → r.atv = a) ∧
      (folded L a ≠ folded L b → folded L r.atv = folded L b → r.atv = b) := by
  obtain ⟨p, hp, rfl⟩ := List.mem_map.mp hr
  dsimp only
  split
  · exact ⟨fun _ => rfl, fun hne h => absurd h hne⟩
  · next hnot =>
    split
    · next h => exact ⟨fun heq => absurd (h.trans heq) hnot, fun _ _ => rfl⟩
    · next hnotb => exact ⟨fun heq => absurd heq hnot, fun _ heq => absurd heq hnotb⟩

/-- In the key of a respelled name the second text is not before the first, if its part comes later. -/
theorem respell_order {a b : Attribute} (ha : Plain a) (hb : Plain b) (hplain : name.Plain)
    (hne : folded L a ≠ folded L b) (hnot : notAfter (partOf b) (partOf a) = false) :
    (key L (respell L a b name)).Pairwise
      fun f g => ¬(f = join (folded L b) ∧ g = join (folded L a)) := by
  rw [key, dnParts_name (respell_plain L ha hb hplain), List.pairwise_map]
  refine (List.pairwise_mergeSort notAfter_trans notAfter_total _).imp_of_mem ?_
  intro x y hx hy hxy
  rw [List.mem_mergeSort] at hx hy
  obtain ⟨r, hr, rfl⟩ := List.mem_map.mp hx
  obtain ⟨t, ht, rfl⟩ := List.mem_map.mp hy
  rw [lower_partOf, lower_partOf]
  rintro ⟨hrb, hta⟩
  have hb' := (of_mem_respell L hr).2 hne (join_folded_inj L hrb)
  have ha' := (of_mem_respell L ht).1 (join_folded_inj L hta)
  rw [hb', ha', hnot] at hxy
  cases hxy

theorem stable_of_same (hplain : name.Plain)
    (hsame : ∀ other : Name, other.Plain → name ≠ [] → (name.pairs L).Perm (other.pairs L) →
      dnMatches L name.text other.text = true) : Stable L name := by
  intro p hp q hq hne a a' b b' ha ha' hb hb' hpa hpa' hqb hqb' hab
  by_contra hlate
  have hlate' : notAfter (partOf a') (partOf b') = false := by simpa using hlate
  have hnot : notAfter (partOf b) (partOf a) = false := by
    by_contra hback
    have hparts := notAfter_antisymm hab (by simpa using hback)
    have hfold := congrArg L.toLowerCase hparts
    rw [lower_partOf, lower_partOf] at hfold
    exact hne (by rw [← hpa, ← hqb, join_folded_inj L hfold])
  have hkeys : ∀ c d, Plain c → Plain d → key L name = key L (respell L c d name) := by
    intro c d hc hd
    refine ((matches_iff L _ _).mp (hsame _ (respell_plain L hc hd hplain) ?_ ?_)).2
    · exact List.ne_nil_of_mem hp
    · rw [respell_pairs]
  have hforth := hkeys a b ha hb ▸ respell_order L ha hb hplain (by rwa [hpa, hqb]) hnot
  have hback := hkeys b' a' hb' ha' ▸ respell_order L hb' ha' hplain
    (by rw [hpa', hqb']; exact Ne.symm hne) hlate'
  rw [hpa, hqb] at hforth
  rw [hpa', hqb'] at hback
  have hmem : ∀ r ∈ name, join (folded L r.atv) ∈ key L name := fun r hr =>
    (key_perm L hplain).mem_iff.mpr (List.mem_map_of_mem (List.mem_map_of_mem hr))
  -- neither of the two may come first
  have hneither := List.Pairwise.forall_of_forall_of_flip
    (R := fun f g => ¬(f = join (folded L p.atv) ∧ g = join (folded L q.atv)))
    (fun f _ hboth => hne (join_folded_inj L (hboth.1.symm.trans hboth.2))) hback
    (hforth.imp fun hfg hboth => hfg ⟨hboth.2, hboth.1⟩)
  exact hneither (hmem p hp) (hmem q hq) ⟨rfl, rfl⟩

end Comparing

/-! ### Two units -/

def asciiLowering : Lowering where
  toLowerCase := List.map Char.toLower
  behind_type := by
    intro type value _
    rw [List.map_append, List.map_cons]
    rfl

def letter (c : Char) (h : isStringChar c = true) (hfirst : c ≠ ' ' ∧ c ≠ '#') : Attribute where
  type := ['O', 'U']
  typed := by decide
  value := .string [.plain c h] (by simp [Enclosed, Piece.bare, hfirst])

def unit (c : Char) (h : isStringChar c = true) (hfirst : c ≠ ' ' ∧ c ≠ '#') : Part :=
  ⟨false, letter c h hfirst, 0, 0, 0, 0⟩

theorem letter_plain (h : isStringChar c = true) (hfirst : c ≠ ' ' ∧ c ≠ '#')
    (hblank : isSpace c = false) : Plain (letter c h hfirst) := by
  refine ⟨rfl, fun hfeed => ?_, fun d hd => ?_, fun d hd => ?_⟩
  · obtain rfl : '\n' = c := List.mem_singleton.mp hfeed
    cases hblank
  · cases hd
    exact hblank
  · cases hd
    exact hblank

def small : Part := unit 'a' (by decide) (by decide)

def capital : Part := unit 'B' (by decide) (by decide)

end Apim.Kafka.Names
