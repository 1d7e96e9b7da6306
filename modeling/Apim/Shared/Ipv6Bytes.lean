import Apim.Shared.Ipv6

/-!
# The bytes of an IPv6 address

`ipv6ToBytes` reads the text forms of an address, in either case, with any text in the place of the IPv4
address that `ipv4ToInt` reads (`readIpv6_lower_iff`). It puts two zero groups in its place, which the
text form allows (`form_replace`, `form_cases`), and writes its bytes over theirs.
-/

namespace Apim.Net
open JsNumber (isDigit digitsValue IsDigits)
open Routing (isSpace trim toLower)

/-! ### Lower case -/

def KeptByCase (c : Char) : Prop :=
  isLowerHex (toLower c) = isHex c ∧ Hex.hexDigit (toLower c) = Hex.hexDigit c ∧
    (toLower c = ':' ↔ c = ':') ∧ (toLower c = '.' ↔ c = '.') ∧ (toLower c = '%' ↔ c = '%')

instance (c : Char) : Decidable (KeptByCase c) := inferInstanceAs (Decidable (_ ∧ _))

variable {c : Char}

theorem hexDigit_eq_none (h : 128 ≤ c.toNat) : Hex.hexDigit c = none := by
  cases hdigit : Hex.hexDigit c with
  | none => rfl
  | some n =>
    have := Hex.toNat_hexDigit hdigit
    omega

theorem not_isLowerHex (h : 128 ≤ c.toNat) : isLowerHex c = false := by
  rw [isLowerHex, isDigit, Bool.or_eq_false_iff, decide_eq_false_iff_not, decide_eq_false_iff_not]
  constructor
  · rintro ⟨-, hle⟩
    have : c.toNat ≤ 57 := UInt32.le_iff_toNat_le.mp hle
    omega
  · rintro ⟨-, hle⟩
    have : c.toNat ≤ 102 := UInt32.le_iff_toNat_le.mp hle
    omega

theorem keptByCase (c : Char) : KeptByCase c := by
  by_cases hsmall : c.toNat < 128
  · have hall : ∀ n < 128, KeptByCase (Char.ofNat n) := by decide +kernel
    have hc := hall c.toNat hsmall
    rwa [Char.ofNat_toNat] at hc
  · have hbig : 128 ≤ c.toNat := by omega
    have hne : ∀ {d : Char}, d.toNat < 128 → c ≠ d := fun hd heq => by
      rw [heq] at hbig
      omega
    by_cases hkelvin : c.toNat = 0x212a
    · have hlower : toLower c = 'k' := by
        rw [toLower, if_pos (beq_iff_eq.mpr hkelvin)]
      have hnone : Hex.hexDigit 'k' = none := by decide
      rw [KeptByCase, hlower, isHex, hexDigit_eq_none hbig, hnone]
      exact ⟨by decide, rfl, iff_of_false (by decide) (hne (by decide)),
        iff_of_false (by decide) (hne (by decide)), iff_of_false (by decide) (hne (by decide))⟩
    · have hsame : toLower c = c := by
        rw [toLower, if_neg (fun h => hkelvin (eq_of_beq h))]
        delta Char.toLower
        rw [dif_neg]
        rintro ⟨-, hle⟩
        have : c.toNat ≤ 90 := UInt32.le_iff_toNat_le.mp hle
        omega
      rw [KeptByCase, hsame, isHex, hexDigit_eq_none hbig, not_isLowerHex hbig]
      exact ⟨rfl, rfl, Iff.rfl, Iff.rfl, Iff.rfl⟩

variable {text : Text}

theorem mem_map_toLower_iff (h : ∀ d, toLower d = c ↔ d = c) : c ∈ text.map toLower ↔ c ∈ text := by
  rw [List.mem_map]
  constructor
  · rintro ⟨d, hd, heq⟩
    rwa [(h d).mp heq] at hd
  · exact fun hc => ⟨c, hc, (h c).mpr rfl⟩

theorem colon_mem_lower : ':' ∈ text.map toLower ↔ ':' ∈ text :=
  mem_map_toLower_iff fun d => (keptByCase d).2.2.1

theorem dot_mem_lower : '.' ∈ text.map toLower ↔ '.' ∈ text :=
  mem_map_toLower_iff fun d => (keptByCase d).2.2.2.1

theorem percent_mem_lower : '%' ∈ text.map toLower ↔ '%' ∈ text :=
  mem_map_toLower_iff fun d => (keptByCase d).2.2.2.2

theorem hexOf_lower (text : Text) : hexOf (text.map toLower) = hexOf text := by
  rw [hexOf, hexOf, List.foldl_map]
  congr 1
  funext n c
  rw [(keptByCase c).2.1]

theorem isLowerHex_lower (text : Text) : (text.map toLower).all isLowerHex = text.all isHex := by
  rw [List.all_map]
  congr 1
  funext c
  exact (keptByCase c).1

theorem splitOn_lower (text : Text) :
    (text.map toLower).splitOn ':' = (text.splitOn ':').map (List.map toLower) := by
  induction text with
  | nil => rfl
  | cons c text ih =>
    have hcolon : (toLower c == ':') = (c == ':') := by
      rw [Bool.eq_iff_iff, beq_iff_eq, beq_iff_eq]
      exact (keptByCase c).2.2.1
    rw [List.map_cons, List.splitOn_cons_eq_if_modifyHead, List.splitOn_cons_eq_if_modifyHead,
      hcolon, ih]
    split
    · rfl
    · cases text.splitOn ':' <;> rfl

theorem splitDouble_lower (text : Text) :
    splitDouble (text.map toLower) = (splitDouble text).map (List.map toLower) := by
  have hcolon : toLower ':' = ':' := (keptByCase ':').2.2.1.mpr rfl
  induction text using splitDouble.induct with
  | case1 rest ih =>
    rw [splitDouble, List.map_cons, List.map_cons, hcolon, splitDouble, ih]
    rfl
  | case2 c rest hnot ih =>
    have hleft : splitDouble ((c :: rest).map toLower) =
        (splitDouble (rest.map toLower)).modifyHead (toLower c :: ·) := by
      rw [List.map_cons, splitDouble]
      intro rest' hc hrest
      obtain ⟨d, more, hmore⟩ : ∃ d more, rest = d :: more := by
        cases rest with
        | nil => cases hrest
        | cons d more => exact ⟨d, more, rfl⟩
      rw [hmore, List.map_cons] at hrest
      obtain ⟨hd, -⟩ := List.cons.inj hrest
      have hdcolon := (keptByCase d).2.2.1.mp hd
      exact hnot more ((keptByCase c).2.2.1.mp hc) (by rw [hmore, hdcolon])
    rw [hleft, ih, splitDouble]
    · cases splitDouble rest <;> rfl
    · exact hnot
  | case3 => rfl

/-! ### Groups -/

theorem notMem_isGroup (h : isHex c = false) (hgroup : IsGroup text) : c ∉ text := by
  intro hc
  rw [hgroup.2.2 c hc] at h
  cases h

theorem isGroup_piece (h : IsGroup text) : text ≠ [] ∧ ':' ∉ text :=
  ⟨h.1, colon_notMem_isGroup h⟩

theorem mapM_groups (pieces : List Text) (groups : List Nat) :
    (pieces.mapM fun piece => if IsGroup piece then some (hexOf piece) else none) = some groups ↔
      (∀ piece ∈ pieces, IsGroup piece) ∧ groups = pieces.map hexOf := by
  induction pieces generalizing groups with
  | nil => simp [eq_comm]
  | cons piece pieces ih =>
    rw [List.mapM_cons]
    by_cases hpiece : IsGroup piece
    · rw [if_pos hpiece]
      simp only [Option.pure_def, Option.bind_eq_bind, Option.bind_some, Option.bind_eq_some_iff, ih,
        List.forall_mem_cons, hpiece, true_and, List.map_cons]
      constructor
      · rintro ⟨rest, ⟨hrest, rfl⟩, hgroups⟩
        exact ⟨hrest, (Option.some.inj hgroups).symm⟩
      · rintro ⟨hrest, rfl⟩
        exact ⟨_, ⟨hrest, rfl⟩, rfl⟩
    · rw [if_neg hpiece]
      simp only [Option.bind_eq_bind, Option.bind_none, reduceCtorEq, List.forall_mem_cons, hpiece,
        false_and]

theorem groupsOf_lower_iff (part : Text) (groups : List Nat) :
    groupsOf (part.map toLower) = some groups ↔
      ∃ pieces, (∀ piece ∈ pieces, IsGroup piece) ∧ part = colons pieces ∧
        groups = pieces.map hexOf := by
  have hgroup : ∀ piece : Text, (if piece.map toLower ≠ [] ∧ (piece.map toLower).length ≤ 4 ∧
      (piece.map toLower).all isLowerHex = true then some (hexOf (piece.map toLower)) else none) =
      if IsGroup piece then some (hexOf piece) else none := by
    intro piece
    simp only [hexOf_lower, isLowerHex_lower, List.length_map, List.all_eq_true, ne_eq,
      List.map_eq_nil_iff]
    rfl
  unfold groupsOf
  by_cases hempty : part = []
  · subst hempty
    rw [List.map_nil, if_pos rfl]
    constructor
    · intro h
      exact ⟨[], fun _ hin => (nomatch hin), rfl, (Option.some.inj h).symm⟩
    · rintro ⟨pieces, hpieces, hjoined, rfl⟩
      cases pieces with
      | nil => rfl
      | cons piece pieces =>
        have hcut := splitOn_colons (List.cons_ne_nil piece pieces)
          fun other hother => colon_notMem_isGroup (hpieces other hother)
        rw [← hjoined] at hcut
        have hpiece : [] = piece := (List.cons.inj hcut).1
        exact absurd hpiece.symm (hpieces piece List.mem_cons_self).1
  · rw [if_neg (by simpa using hempty), splitOn_lower, List.mapM_map]
    simp only [hgroup, Function.comp_def]
    rw [mapM_groups]
    constructor
    · rintro ⟨hpieces, rfl⟩
      exact ⟨part.splitOn ':', hpieces, (colons_splitOn part).symm, rfl⟩
    · rintro ⟨pieces, hpieces, rfl, rfl⟩
      have hne : pieces ≠ [] := by
        rintro rfl
        exact hempty rfl
      rw [splitOn_colons hne fun piece hpiece => colon_notMem_isGroup (hpieces piece hpiece)]
      exact ⟨hpieces, rfl⟩

theorem expand_lower_iff (text : Text) (words : List Nat) :
    expand (text.map toLower) = some words ↔ Form NoQuad text words := by
  unfold expand
  rw [splitDouble_lower]
  constructor
  · intro h
    split at h
    · rename_i one hcut
      obtain ⟨part, hpart, rfl⟩ : ∃ part, splitDouble text = [part] ∧ part.map toLower = one := by
        cases hsplit : splitDouble text with
        | nil => rw [hsplit] at hcut; cases hcut
        | cons part rest =>
          rw [hsplit] at hcut
          obtain ⟨hone, hrest⟩ := List.cons.inj hcut
          exact ⟨part, by rw [List.map_eq_nil_iff.mp hrest], hone⟩
      obtain ⟨left, hleft, hwords⟩ := Option.bind_eq_some_iff.mp h
      obtain ⟨pieces, hpieces, hjoined, rfl⟩ := (groupsOf_lower_iff part left).mp hleft
      by_cases hlength : (pieces.map hexOf).length = 8
      · rw [if_pos hlength] at hwords
        obtain rfl := Option.some.inj hwords
        rw [splitDouble_single hpart, hjoined]
        exact Form.full (Row.groups hpieces) hlength
      · rw [if_neg hlength] at hwords
        cases hwords
    · rename_i one two hcut
      obtain ⟨first, second, hpair, rfl, rfl⟩ : ∃ first second, splitDouble text = [first, second] ∧
          first.map toLower = one ∧ second.map toLower = two := by
        cases hsplit : splitDouble text with
        | nil => rw [hsplit] at hcut; cases hcut
        | cons first rest =>
          rw [hsplit] at hcut
          obtain ⟨hone, hrest⟩ := List.cons.inj hcut
          obtain ⟨second, htwo, rfl⟩ := List.map_eq_singleton_iff.mp hrest
          exact ⟨first, second, by rw [htwo], hone, rfl⟩
      obtain ⟨left, hleft, h⟩ := Option.bind_eq_some_iff.mp h
      obtain ⟨right, hright, hwords⟩ := Option.bind_eq_some_iff.mp h
      obtain ⟨lefts, hlefts, hfirst, rfl⟩ := (groupsOf_lower_iff first left).mp hleft
      obtain ⟨rights, hrights, hsecond, rfl⟩ := (groupsOf_lower_iff second right).mp hright
      by_cases hlength : (lefts.map hexOf).length + (rights.map hexOf).length ≤ 7
      · rw [if_pos hlength] at hwords
        obtain rfl := Option.some.inj hwords
        rw [splitDouble_pair hpair, hfirst, hsecond]
        exact Form.short (Row.groups hlefts) (Row.groups hrights) hlength
      · rw [if_neg hlength] at hwords
        cases hwords
    · cases h
  · intro h
    cases h with
    | @full pieces words hrow hlength =>
      obtain ⟨hpieces, rfl⟩ := row_noQuad hrow
      have hread := (groupsOf_lower_iff (colons pieces) _).mpr ⟨pieces, hpieces, rfl, rfl⟩
      rw [splitDouble_full fun piece hpiece => isGroup_piece (hpieces piece hpiece)]
      simp only [List.map_cons, List.map_nil, hread, Option.bind_some, if_pos hlength]
    | @short left right lw rw' hleft hright hlength =>
      obtain ⟨hlefts, rfl⟩ := row_false hleft
      obtain ⟨hrights, rfl⟩ := row_noQuad hright
      have hfirst := (groupsOf_lower_iff (colons left) _).mpr ⟨left, hlefts, rfl, rfl⟩
      have hsecond := (groupsOf_lower_iff (colons right) _).mpr ⟨right, hrights, rfl, rfl⟩
      rw [splitDouble_short (fun piece hpiece => isGroup_piece (hlefts piece hpiece))
        fun piece hpiece => isGroup_piece (hrights piece hpiece)]
      simp only [List.map_cons, List.map_nil, hfirst, hsecond, Option.bind_some, if_pos hlength]

/-! ### An IPv4 address for the last two groups -/

def ZERO_GROUPS : List Text := [['0'], ['0']]

theorem isGroup_zero : ∀ piece ∈ ZERO_GROUPS, IsGroup piece := by decide

theorem colons_zeros (pieces : List Text) :
    colons (pieces ++ ZERO_GROUPS) = pieces.flatMap (· ++ [':']) ++ "0:0".toList := by
  have hcut : pieces ++ ZERO_GROUPS = (pieces ++ [['0']]) ++ [['0']] := by
    rw [List.append_assoc]
    rfl
  rw [hcut, colons_concat, List.flatMap_append, List.append_assoc]
  rfl

variable {pieces : List Text}

theorem exists_last_two (h : 2 ≤ pieces.length) : ∃ first y z, pieces = first ++ [y, z] := by
  rcases List.eq_nil_or_concat pieces with rfl | ⟨init, z, rfl⟩
  · simp at h
  · rcases List.eq_nil_or_concat init with rfl | ⟨first, y, rfl⟩
    · simp at h
    · exact ⟨first, y, z, by simp⟩

theorem colons_last_two (first : List Text) (y z : Text) :
    colons (first ++ [y, z]) = first.flatMap (· ++ [':']) ++ (y ++ ':' :: z) := by
  have hcut : first ++ [y, z] = (first ++ [y]) ++ [z] := by simp
  rw [hcut, colons_concat, List.flatMap_append]
  simp

theorem flatMap_colon (start : Text) (first : List Text) :
    ∃ before, start ++ ':' :: first.flatMap (· ++ [':']) = before ++ [':'] := by
  rcases List.eq_nil_or_concat first with rfl | ⟨init, last, rfl⟩
  · exact ⟨start, rfl⟩
  · refine ⟨start ++ ':' :: (init.flatMap (· ++ [':']) ++ last), ?_⟩
    rw [List.concat_eq_append, List.flatMap_append]
    simp

theorem flatMap_colon_of_ne_nil {first : List Text} (h : first ≠ []) :
    ∃ before, first.flatMap (· ++ [':']) = before ++ [':'] := by
  obtain ⟨init, last, rfl⟩ := (List.eq_nil_or_concat first).resolve_left h
  refine ⟨init.flatMap (· ++ [':']) ++ last, ?_⟩
  rw [List.concat_eq_append, List.flatMap_append]
  simp

theorem short_row_ne {start front : Text} {right : List Text} (hfew : right.length < 2)
    (h : ∀ piece ∈ right, ':' ∉ piece) :
    front ++ ':' :: "0:0".toList ≠ start ++ ':' :: ':' :: colons right := by
  intro heq
  have hzero : ':' ∉ ['0'] := by decide
  have hpiece : ∃ piece, colons right = piece ∧ ':' ∉ piece := by
    cases right with
    | nil => exact ⟨[], rfl, List.not_mem_nil⟩
    | cons piece rest =>
      obtain rfl : rest = [] := List.eq_nil_of_length_eq_zero (by
        rw [List.length_cons] at hfew
        omega)
      exact ⟨piece, List.intercalate_singleton, h piece List.mem_cons_self⟩
  obtain ⟨piece, hright, hcolon⟩ := hpiece
  have hends : (start ++ [':']) ++ ':' :: piece = (front ++ [':', '0']) ++ ':' :: ['0'] := by
    rw [hright] at heq
    simpa using heq.symm
  have hstart := congrArg List.getLast? (last_piece hcolon hzero hends).1
  simp at hstart

theorem two_zeros {before front y z : Text} (hy : ':' ∉ y) (hz : ':' ∉ z)
    (heq : before ++ ':' :: y ++ ':' :: z = front ++ ':' :: "0:0".toList) :
    before = front ∧ [y, z] = ZERO_GROUPS := by
  have hzero : ':' ∉ ['0'] := by decide
  have htail : front ++ ':' :: "0:0".toList = (front ++ ':' :: ['0']) ++ ':' :: ['0'] := by simp
  rw [htail] at heq
  obtain ⟨hrest, rfl⟩ := last_piece hz hzero heq
  obtain ⟨hfront, rfl⟩ := last_piece hy hzero hrest
  exact ⟨hfront, rfl⟩

variable {Quad : Text → BitVec 32 → Prop} {words : List Nat}

theorem form_replace {front : Text} (h : Form NoQuad (front ++ ':' :: "0:0".toList) words) :
    ∃ init, words = init ++ [0, 0] ∧ ∀ quad a, Quad quad a →
      Form Quad (front ++ ':' :: quad) (init ++ [a.toNat / 65536, a.toNat % 65536]) := by
  have hzeros : ZERO_GROUPS.map hexOf = [0, 0] := by decide
  generalize htext : front ++ ':' :: "0:0".toList = text at h
  cases h with
  | @full pieces words hrow hlength =>
    obtain ⟨hpieces, rfl⟩ := row_noQuad hrow
    rw [List.length_map] at hlength
    obtain ⟨first, y, z, rfl⟩ := exists_last_two (by omega : 2 ≤ pieces.length)
    have hne : first ≠ [] := by
      rintro rfl
      simp at hlength
    obtain ⟨before, hbefore⟩ := flatMap_colon_of_ne_nil hne
    have hjoined : colons (first ++ [y, z]) = before ++ ':' :: y ++ ':' :: z := by
      rw [colons_last_two, hbefore]
      simp
    obtain ⟨rfl, hyz⟩ := two_zeros (colon_notMem_isGroup (hpieces y (by simp)))
      (colon_notMem_isGroup (hpieces z (by simp))) (hjoined.symm.trans htext.symm)
    refine ⟨first.map hexOf, by rw [hyz, List.map_append, hzeros], fun quad a hquad => ?_⟩
    have hform : Form Quad (colons (first ++ [quad])) _ :=
      Form.full (Row.quad (fun piece hpiece => hpieces piece (by simp [hpiece])) hquad)
        (by simpa using hlength)
    rwa [colons_concat, hbefore, List.append_assoc] at hform
  | @short left right lw rw' hleft hright hlength =>
    obtain ⟨hlefts, rfl⟩ := row_false hleft
    obtain ⟨hrights, rfl⟩ := row_noQuad hright
    rcases Nat.lt_or_ge right.length 2 with hfew | hmany
    · exact absurd htext (short_row_ne hfew fun piece hpiece =>
        colon_notMem_isGroup (hrights piece hpiece))
    · obtain ⟨first, y, z, rfl⟩ := exists_last_two hmany
      obtain ⟨before, hbefore⟩ := flatMap_colon (colons left ++ [':']) first
      have hjoined : colons left ++ ':' :: ':' :: colons (first ++ [y, z]) =
          before ++ ':' :: y ++ ':' :: z := by
        rw [colons_last_two]
        have := congrArg (· ++ (y ++ ':' :: z)) hbefore
        simpa using this
      obtain ⟨rfl, hyz⟩ := two_zeros (colon_notMem_isGroup (hrights y (by simp)))
        (colon_notMem_isGroup (hrights z (by simp))) (hjoined.symm.trans htext.symm)
      refine ⟨left.map hexOf ++ List.replicate
        (8 - ((left.map hexOf).length + (first.map hexOf).length + 2)) 0 ++ first.map hexOf, ?_,
        fun quad a hquad => ?_⟩
      · rw [hyz, List.map_append, hzeros]
        simp [Nat.add_assoc]
      · have hform : Form Quad (colons left ++ ':' :: ':' :: colons (first ++ [quad])) _ :=
          Form.short (Row.groups hlefts)
            (Row.quad (fun piece hpiece => hrights piece (by simp [hpiece])) hquad)
            (by simpa using hlength)
        rw [colons_concat] at hform
        have htext' := congrArg (· ++ quad) hbefore
        simp only [List.append_assoc, List.cons_append, List.nil_append, List.length_append,
          List.length_cons, List.length_nil, Nat.zero_add, ← Nat.add_assoc] at htext' hform ⊢
        rwa [htext'] at hform

theorem form_cases (h : Form Quad text words) :
    Form NoQuad text words ∨ ∃ front quad a init, text = front ++ ':' :: quad ∧ Quad quad a ∧
      Form NoQuad (front ++ ':' :: "0:0".toList) (init ++ [0, 0]) ∧
        words = init ++ [a.toNat / 65536, a.toNat % 65536] := by
  have hzeros : ZERO_GROUPS.map hexOf = [0, 0] := by decide
  cases h with
  | @full pieces words hrow hlength =>
    cases hrow with
    | groups hpieces => exact .inl (Form.full (Row.groups hpieces) hlength)
    | @quad pieces quad a hpieces hquad =>
      have hne : pieces ≠ [] := by
        rintro rfl
        simp at hlength
      obtain ⟨before, hbefore⟩ := flatMap_colon_of_ne_nil hne
      have hform : Form NoQuad (colons (pieces ++ ZERO_GROUPS)) ((pieces ++ ZERO_GROUPS).map hexOf) :=
        Form.full (Row.groups fun piece hpiece => by
          rcases List.mem_append.mp hpiece with hin | hin
          · exact hpieces piece hin
          · exact isGroup_zero piece hin) (by simpa [ZERO_GROUPS] using hlength)
      rw [colons_zeros, hbefore, List.map_append, hzeros, List.append_assoc] at hform
      refine .inr ⟨before, quad, a, pieces.map hexOf, ?_, hquad, hform, rfl⟩
      rw [colons_concat, hbefore, List.append_assoc]
      rfl
  | @short left right lw rw' hleft hright hlength =>
    obtain ⟨hlefts, rfl⟩ := row_false hleft
    cases hright with
    | groups hpieces => exact .inl (Form.short (Row.groups hlefts) (Row.groups hpieces) hlength)
    | @quad pieces quad a hpieces hquad =>
      obtain ⟨before, hbefore⟩ := flatMap_colon (colons left ++ [':']) pieces
      have hform : Form NoQuad (colons left ++ ':' :: ':' :: colons (pieces ++ ZERO_GROUPS)) _ :=
        Form.short (Row.groups hlefts) (Row.groups fun piece hpiece => by
          rcases List.mem_append.mp hpiece with hin | hin
          · exact hpieces piece hin
          · exact isGroup_zero piece hin) (by simpa [ZERO_GROUPS] using hlength)
      have hhead : colons left ++ ':' :: ':' :: colons (pieces ++ ZERO_GROUPS) =
          before ++ ':' :: "0:0".toList := by
        rw [colons_zeros]
        simpa using congrArg (· ++ "0:0".toList) hbefore
      rw [hhead, List.map_append, hzeros] at hform
      refine .inr ⟨before, quad, a, left.map hexOf ++ List.replicate
        (8 - ((left.map hexOf).length + (pieces.map hexOf).length + 2)) 0 ++ pieces.map hexOf, ?_,
        hquad, ?_, ?_⟩
      · rw [colons_concat]
        simpa using congrArg (· ++ quad) hbefore
      · simpa [Nat.add_assoc] using hform
      · simp [Nat.add_assoc]

theorem Row.mono {Quad' : Text → BitVec 32 → Prop} (h : ∀ text a, Quad text a → Quad' text a)
    {last : Bool} (hrow : Row Quad last pieces words) : Row Quad' last pieces words := by
  cases hrow with
  | groups hpieces => exact Row.groups hpieces
  | quad hpieces hquad => exact Row.quad hpieces (h _ _ hquad)

theorem Form.mono {Quad' : Text → BitVec 32 → Prop} (h : ∀ text a, Quad text a → Quad' text a)
    (hform : Form Quad text words) : Form Quad' text words := by
  cases hform with
  | full hrow hlength => exact Form.full (hrow.mono h) hlength
  | short hleft hright hlength => exact Form.short (hleft.mono h) (hright.mono h) hlength

/-! ### What `ipv6ToBytes` reads -/

/-- A text with a dot that `ipv4ToInt` reads. -/
def ReadQuad (text : Text) (a : BitVec 32) : Prop :=
  '.' ∈ text ∧ ':' ∉ text ∧ '%' ∉ text ∧ ipv4ToInt (text.map toLower) = some a

theorem mem_colons (h : c ∈ colons pieces) : c = ':' ∨ ∃ piece ∈ pieces, c ∈ piece := by
  rcases mem_intercalate h with hsep | hpiece
  · exact .inl (List.mem_singleton.mp hsep)
  · exact .inr hpiece

theorem mem_row (h : ∀ piece ∈ pieces, IsGroup piece) (hc : c ∈ colons pieces) :
    c = ':' ∨ isHex c = true := by
  rcases mem_colons hc with hcolon | ⟨piece, hpiece, hin⟩
  · exact .inl hcolon
  · exact .inr ((h piece hpiece).2.2 c hin)

theorem mem_noQuad (h : Form NoQuad text words) (hc : c ∈ text) : c = ':' ∨ isHex c = true := by
  cases h with
  | full hrow _ => exact mem_row (row_noQuad hrow).1 hc
  | short hleft hright _ =>
    simp only [List.mem_append, List.mem_cons] at hc
    rcases hc with hc | hcolon | hcolon | hc
    · exact mem_row (row_false hleft).1 hc
    · exact .inl hcolon
    · exact .inl hcolon
    · exact mem_row (row_noQuad hright).1 hc

theorem colon_mem_noQuad (h : Form NoQuad text words) : ':' ∈ text := by
  cases h with
  | @full pieces words hrow hlength =>
    obtain ⟨-, rfl⟩ := row_noQuad hrow
    match pieces, hlength with
    | first :: second :: rest, _ =>
      rw [colons_cons]
      simp
  | short _ _ _ => simp

theorem notMem_noQuad (h : Form NoQuad text words) (hcolon : c ≠ ':') (hhex : isHex c = false) :
    c ∉ text := by
  intro hc
  rcases mem_noQuad h hc with heq | hin
  · exact hcolon heq
  · rw [hhex] at hin
    cases hin

theorem exists_last_colon (h : ':' ∈ text) :
    ∃ front piece, text = front ++ ':' :: piece ∧ ':' ∉ piece := by
  obtain ⟨back, rest, hcut, hback⟩ := List.eq_append_cons_of_mem (List.mem_reverse.mpr h)
  refine ⟨rest.reverse, back.reverse, ?_, fun hin => hback (List.mem_reverse.mp hin)⟩
  have hreversed := congrArg List.reverse hcut
  simpa using hreversed

theorem afterColon_append {front piece : Text} (h : ':' ∉ piece) :
    afterColon (front ++ ':' :: piece) = piece := by
  have hall : ∀ c ∈ piece.reverse, (c != ':') = true := by
    intro c hc
    rw [bne_iff_ne]
    rintro rfl
    exact h (List.mem_reverse.mp hc)
  rw [afterColon, List.reverse_append, List.reverse_cons, List.append_assoc,
    List.takeWhile_append_of_pos hall]
  simp

theorem take_front (front piece : Text) :
    (front ++ ':' :: piece).take ((front ++ ':' :: piece).length - piece.length) =
      front ++ [':'] := by
  have hcut : front ++ ':' :: piece = (front ++ [':']) ++ piece := by simp
  have hlength : (front ++ ':' :: piece).length - piece.length = (front ++ [':']).length := by
    simp
    omega
  rw [hlength, hcut, List.take_left]

theorem bytesOf_quad (init : List Nat) (hlength : init.length = 6) (a : BitVec 32) :
    (bytesOf (init ++ [0, 0])).take 12 ++ quadBytes a =
      bytesOf (init ++ [a.toNat / 65536, a.toNat % 65536]) := by
  have htake : (bytesOf init).length = 12 := by
    rw [bytesOf, List.length_flatMap]
    simp [hlength]
  have hquad : quadBytes a = bytesOf [a.toNat / 65536, a.toNat % 65536] := by
    have hhigh : a.toNat / 16777216 % 256 = a.toNat / 65536 / 256 % 256 := by omega
    have hthird : a.toNat / 256 % 256 = a.toNat % 65536 / 256 % 256 := by omega
    have hlow : a.toNat % 256 = a.toNat % 65536 % 256 := by omega
    rw [quadBytes, hhigh, hthird, hlow]
    rfl
  rw [bytesOf, List.flatMap_append, ← bytesOf, ← bytesOf, ← htake, List.take_left, hquad, bytesOf,
    bytesOf, bytesOf, List.flatMap_append]

theorem length_noQuad (h : Form NoQuad text words) : words.length = 8 := by
  cases h with
  | full _ hlength => exact hlength
  | short _ _ hlength =>
    simp only [List.length_append, List.length_replicate]
    omega

theorem readIpv6_lower_iff (text : Text) (bytes : List Nat) :
    readIpv6 (text.map toLower) = some bytes ↔
      ∃ words, Form ReadQuad text words ∧ bytes = bytesOf words := by
  by_cases hguard : text = [] ∨ '%' ∈ text ∨ ':' ∉ text
  · have hnone : readIpv6 (text.map toLower) = none := by
      rw [readIpv6, if_pos]
      rwa [List.map_eq_nil_iff, percent_mem_lower, colon_mem_lower]
    rw [hnone]
    refine ⟨fun h => (nomatch h), fun ⟨words, hform, _⟩ => ?_⟩
    have hshape : text ≠ [] ∧ '%' ∉ text ∧ ':' ∈ text := by
      rcases form_cases hform with hgroups | ⟨front, quad, a, init, rfl, hquad, hgroups, -⟩
      · exact ⟨List.ne_nil_of_mem (colon_mem_noQuad hgroups),
          notMem_noQuad hgroups (by decide) (by decide), colon_mem_noQuad hgroups⟩
      · have hfront := notMem_noQuad hgroups (c := '%') (by decide) (by decide)
        refine ⟨by simp, ?_, by simp⟩
        simp only [List.mem_append, List.mem_cons, not_or] at hfront ⊢
        exact ⟨hfront.1, by decide, hquad.2.2.1⟩
    tauto
  · obtain ⟨hne, hpercent, hcolon⟩ : text ≠ [] ∧ '%' ∉ text ∧ ':' ∈ text := by tauto
    obtain ⟨front, piece, rfl, hpiece⟩ := exists_last_colon hcolon
    have hlower : toLower ':' = ':' := (keptByCase ':').2.2.1.mpr rfl
    have hmap : (front ++ ':' :: piece).map toLower =
        front.map toLower ++ ':' :: piece.map toLower := by
      rw [List.map_append, List.map_cons, hlower]
    have hafter : afterColon ((front ++ ':' :: piece).map toLower) = piece.map toLower := by
      rw [hmap]
      exact afterColon_append (fun h => hpiece (colon_mem_lower.mp h))
    have hhead : ((front ++ ':' :: piece).map toLower).take
        (((front ++ ':' :: piece).map toLower).length - (piece.map toLower).length) ++ "0:0".toList =
        (front ++ ':' :: "0:0".toList).map toLower := by
      rw [hmap, take_front, List.map_append, List.map_cons, hlower, List.append_assoc]
      rfl
    rw [readIpv6, if_neg (by rwa [List.map_eq_nil_iff, percent_mem_lower, colon_mem_lower])]
    simp only [hafter, hhead, dot_mem_lower]
    by_cases hdot : '.' ∈ piece
    · rw [if_pos hdot]
      constructor
      · intro h
        obtain ⟨a, ha, h⟩ := Option.bind_eq_some_iff.mp h
        obtain ⟨groups, hgroups, rfl⟩ := Option.map_eq_some_iff.mp h
        have hform := (expand_lower_iff _ groups).mp hgroups
        obtain ⟨init, rfl, hreplace⟩ := @form_replace ReadQuad _ _ hform
        have hlength := length_noQuad hform
        refine ⟨_, hreplace piece a ⟨hdot, hpiece, fun h => hpercent (by simp [h]), ha⟩, ?_⟩
        exact bytesOf_quad init (by simpa using hlength) a
      · rintro ⟨words, hform, rfl⟩
        rcases form_cases hform with hgroups | ⟨front', quad, a, init, htext, hquad, hgroups, rfl⟩
        · exact absurd (by simp [hdot]) (notMem_noQuad hgroups (c := '.') (by decide) (by decide))
        · obtain ⟨rfl, rfl⟩ := last_piece hpiece hquad.2.1 htext
          have hlength := length_noQuad hgroups
          rw [hquad.2.2.2, Option.bind_some, (expand_lower_iff _ _).mpr hgroups, Option.map_some,
            bytesOf_quad init (by simpa using hlength) a]
    · rw [if_neg hdot]
      constructor
      · intro h
        obtain ⟨groups, hgroups, rfl⟩ := Option.map_eq_some_iff.mp h
        have hform := (expand_lower_iff _ groups).mp hgroups
        exact ⟨groups, hform.mono fun _ _ hno => hno.elim, rfl⟩
      · rintro ⟨words, hform, rfl⟩
        rcases form_cases hform with hgroups | ⟨front', quad, a, init, htext, hquad, hgroups, rfl⟩
        · rw [(expand_lower_iff _ _).mpr hgroups, Option.map_some]
        · obtain ⟨rfl, rfl⟩ := last_piece hpiece hquad.2.1 htext
          exact absurd hquad.1 hdot

end Apim.Net
