import Apim.Shared.Ipv6Bytes

/-!
# One notion of an IPv6 address

Every text form of an address is accepted by both readers, and `ipv6ToBytes` gives its bytes
(`ipv6ToBytes_form`). Both accept more. `isIpv6` looks at the parts between colons, and hardly at their
number and place; `ipv6ToBytes` leaves white space out and reads octets with `Number`
(`one_notion_iff`).
-/

namespace Apim.Net
open JsNumber (isDigit digitsValue IsDigits)
open Routing (isSpace trim toLower)

/-! ### Text forms are read -/

variable {c : Char}

theorem isHex_of_isDigit (h : isDigit c = true) : isHex c = true := by
  rw [JsNumber.isDigit, decide_eq_true_eq] at h
  rw [isHex, Hex.hexDigit, if_pos h]
  rfl

variable {text : Text}

theorem dot_mem_dotted {a : BitVec 32} (h : Dotted text a) : '.' ∈ text := by
  by_contra hnot
  have hlength := ((dotted_iff text a).mp h).1
  rw [List.splitOn_eq_singleton hnot] at hlength
  cases hlength

variable {words : List Nat}

theorem mem_ipv6Text (h : Ipv6Text text words) (hc : c ∈ text) :
    c = ':' ∨ c = '.' ∨ isHex c = true := by
  rcases form_cases h with hgroups | ⟨front, quad, a, init, rfl, hquad, hgroups, -⟩
  · rcases mem_noQuad hgroups hc with hcolon | hhex
    · exact .inl hcolon
    · exact .inr (.inr hhex)
  · rcases List.mem_append.mp hc with hin | hin
    · rcases mem_noQuad hgroups (List.mem_append_left _ hin) with hcolon | hhex
      · exact .inl hcolon
      · exact .inr (.inr hhex)
    · rcases List.mem_cons.mp hin with hcolon | hin
      · exact .inl hcolon
      · rcases mem_dotted hquad.1 hin with hdot | hdigit
        · exact .inr (.inl hdot)
        · exact .inr (.inr (isHex_of_isDigit hdigit))

theorem isSpace_of_isHex (h : isHex c = true) : isSpace c = false := by
  obtain ⟨n, hn⟩ := Option.isSome_iff_exists.mp h
  have hbounds := Hex.toNat_hexDigit hn
  simp [isSpace]
  omega

theorem trim_ipv6Text (h : Ipv6Text text words) : trim text = text := by
  have hbare : ∀ c ∈ text, isSpace c = false := by
    intro c hc
    rcases mem_ipv6Text h hc with rfl | rfl | hhex
    · decide
    · decide
    · exact isSpace_of_isHex hhex
  exact Routing.trim_of_bare ⟨fun c hc => hbare c (List.mem_of_mem_head? hc),
    fun c hc => hbare c (List.mem_of_mem_getLast? hc)⟩

theorem toLower_of_isDigit (h : isDigit c = true) : toLower c = c := by
  have hall : ∀ n < 128, isDigit (Char.ofNat n) = true →
      toLower (Char.ofNat n) = Char.ofNat n := by decide +kernel
  have hle : c.toNat ≤ 57 := by
    rw [JsNumber.isDigit, decide_eq_true_eq] at h
    exact UInt32.le_iff_toNat_le.mp h.2
  have hc := hall c.toNat (by omega)
  rw [Char.ofNat_toNat] at hc
  exact hc h

theorem lower_dotted {a : BitVec 32} (h : Dotted text a) : text.map toLower = text := by
  have hsame : ∀ c ∈ text, toLower c = id c := by
    intro c hc
    rcases mem_dotted h hc with rfl | hdigit
    · decide
    · exact toLower_of_isDigit hdigit
  rw [List.map_congr_left hsame, List.map_id]

theorem readQuad_of_plain {a : BitVec 32} (h : PlainQuad text a) : ReadQuad text a := by
  refine ⟨dot_mem_dotted h.1, notMem_dotted h.1 (by decide) (by decide),
    notMem_dotted h.1 (by decide) (by decide), ?_⟩
  rw [lower_dotted h.1]
  exact ipv4ToInt_dotted h.1

theorem ipv6ToBytes_form (h : Ipv6Text text words) : ipv6ToBytes text = some (bytesOf words) := by
  rw [ipv6ToBytes, trim_ipv6Text h]
  exact (readIpv6_lower_iff text _).mpr ⟨words, h.mono fun _ _ => readQuad_of_plain, rfl⟩

theorem ipv6ToBytes_isSome_iff (text : Text) :
    (ipv6ToBytes text).isSome = true ↔ ∃ words, Form ReadQuad (trim text) words := by
  rw [Option.isSome_iff_exists]
  constructor
  · rintro ⟨bytes, h⟩
    obtain ⟨words, hform, -⟩ := (readIpv6_lower_iff (trim text) bytes).mp h
    exact ⟨words, hform⟩
  · rintro ⟨words, hform⟩
    exact ⟨bytesOf words, (readIpv6_lower_iff (trim text) _).mpr ⟨words, hform, rfl⟩⟩

/-- White space around what is read, or an IPv4 address that is read though it is not four plain
octets. -/
def LooseBytes (text : Text) : Prop :=
  (∃ words, Form ReadQuad (trim text) words) ∧
    (trim text ≠ text ∨ ∃ front quad, trim text = front ++ ':' :: quad ∧ ':' ∉ quad ∧ '.' ∈ quad ∧
      ¬ ∃ a, PlainQuad quad a)

theorem bytes_exact_iff (text : Text) :
    ((ipv6ToBytes text).isSome = true → ∃ words, Ipv6Text text words) ↔ ¬ LooseBytes text := by
  rw [ipv6ToBytes_isSome_iff]
  constructor
  · rintro h ⟨hread, hloose⟩
    obtain ⟨words, hform⟩ := h hread
    rw [trim_ipv6Text hform] at hloose
    rcases hloose with hne | ⟨front, quad, rfl, hcolon, hdot, hplain⟩
    · exact hne rfl
    · rcases form_cases hform with hgroups | ⟨front', quad', a, init, htext, hquad, -⟩
      · exact notMem_noQuad hgroups (by decide) (by decide) (c := '.') (by simp [hdot])
      · have hcolon' : ':' ∉ quad' := notMem_dotted hquad.1 (by decide) (by decide)
        obtain ⟨-, rfl⟩ := last_piece hcolon hcolon' htext
        exact hplain ⟨a, hquad⟩
  · rintro h ⟨words, hform⟩
    have htrim : trim text = text := by
      by_contra hne
      exact h ⟨⟨words, hform⟩, .inl hne⟩
    rcases form_cases hform with hgroups | ⟨front, quad, a, init, htext, hquad, hgroups, -⟩
    · rw [htrim] at hgroups
      exact ⟨words, hgroups.mono fun _ _ hno => hno.elim⟩
    · have hplain : ∃ a, PlainQuad quad a := by
        by_contra hnot
        exact h ⟨⟨words, hform⟩, .inr ⟨front, quad, htext, hquad.2.1, hquad.1, hnot⟩⟩
      obtain ⟨a', hplain⟩ := hplain
      obtain ⟨init', -, hreplace⟩ := @form_replace PlainQuad _ _ hgroups
      rw [← htrim, htext]
      exact ⟨_, hreplace quad a' hplain⟩

/-! ### The parts `isIpv6` looks at -/

def partsOf (text : Text) : List Text :=
  ((splitDouble text).flatMap fun half => half.splitOn ':').filter (· != [])

/-- One `::` at most, and groups and IPv4 addresses for parts: eight of them, or an IPv4 address among
them, where there is no `::`. -/
structure PartsRead (text : Text) : Prop where
  halves : (splitDouble text).length ≤ 2
  parts : ∀ part ∈ partsOf text, IsGroup part ∨ ∃ a, PlainQuad part a
  count : (splitDouble text).length = 1 →
    (partsOf text).length = 8 ∨ ∃ part ∈ partsOf text, '.' ∈ part

def sidePieces (side : Text) : List Text := if side = [] then [] else side.splitOn ':'

def sideSize (pieces : List Text) : Nat := (pieces.map fun piece => if '.' ∈ piece then 2 else 1).sum

def WellPlaced (last : Bool) (pieces : List Text) : Prop :=
  [] ∉ pieces ∧ ∀ piece ∈ (if last then pieces.dropLast else pieces), '.' ∉ piece

/-- Eight groups, or at most seven beside a `::`, each part in its place. -/
def Placed (text : Text) : Prop :=
  match splitDouble text with
  | [one] => WellPlaced true (sidePieces one) ∧ sideSize (sidePieces one) = 8
  | [first, second] =>
    WellPlaced false (sidePieces first) ∧ WellPlaced true (sidePieces second) ∧
      sideSize (sidePieces first) + sideSize (sidePieces second) ≤ 7
  | _ => False

theorem dot_notMem_isGroup (h : IsGroup text) : '.' ∉ text :=
  notMem_isGroup (by decide) h

theorem isGroup_eq_true_iff (text : Text) : isGroup text = true ↔ IsGroup text := by
  simp [isGroup, IsGroup, and_assoc]

theorem isIpv4_eq_true_iff (text : Text) : isIpv4 text = true ↔ ∃ a, PlainQuad text a := by
  unfold isIpv4 PlainQuad
  simp only [Bool.and_eq_true, beq_iff_eq, List.all_eq_true, decide_eq_true_eq]
  constructor
  · rintro ⟨hlength, hparts⟩
    exact ⟨_, (dotted_iff text _).mpr ⟨hlength, fun part hpart => (hparts part hpart).1, rfl⟩, hparts⟩
  · rintro ⟨a, hdotted, hparts⟩
    exact ⟨((dotted_iff text a).mp hdotted).1, hparts⟩

theorem part_read_iff (part : Text) :
    (if '.' ∈ part then isIpv4 part else isGroup part) = true ↔
      IsGroup part ∨ ∃ a, PlainQuad part a := by
  by_cases hdot : '.' ∈ part
  · rw [if_pos hdot, isIpv4_eq_true_iff]
    exact ⟨.inr, fun h => h.resolve_left fun hgroup => dot_notMem_isGroup hgroup hdot⟩
  · rw [if_neg hdot, isGroup_eq_true_iff]
    exact ⟨.inl, fun h => h.resolve_right fun ⟨a, hquad⟩ => hdot (dot_mem_dotted hquad.1)⟩

theorem mem_partsOf (h : c ∈ text) : c = ':' ∨ ∃ part ∈ partsOf text, c ∈ part := by
  rw [← intercalate_splitDouble text] at h
  rcases mem_intercalate h with hsep | ⟨half, hhalf, hc⟩
  · exact .inl (by simpa using hsep)
  · rw [← colons_splitOn half] at hc
    rcases mem_colons hc with hcolon | ⟨piece, hpiece, hin⟩
    · exact .inl hcolon
    · refine .inr ⟨piece, List.mem_filter.mpr ⟨List.mem_flatMap.mpr ⟨half, hhalf, hpiece⟩, ?_⟩, hin⟩
      rw [bne_iff_ne]
      exact List.ne_nil_of_mem hin

theorem parts_cut (text : Text) (h : (splitDouble text).length ≤ 2) :
    ((((splitDouble text).headD []).splitOn ':' ++
        ((splitDouble text)[1]?.getD []).splitOn ':').filter (· != [])) = partsOf text := by
  rw [partsOf]
  match hcut : splitDouble text, h with
  | [], _ => exact absurd hcut (splitDouble_ne_nil text)
  | [one], _ => simp
  | [first, second], _ => simp

theorem isIpv6_eq_true_iff (text : Text) : isIpv6 text = true ↔ PartsRead text := by
  unfold isIpv6
  constructor
  · intro h
    split at h
    · cases h
    simp only at h
    split at h
    · cases h
    rename_i hdouble
    have hhalves : (splitDouble text).length ≤ 2 := by omega
    rw [parts_cut text hhalves] at h
    split at h
    · cases h
    split at h
    · cases h
    rename_i hcount
    refine ⟨hhalves, fun part hpart => (part_read_iff part).mp (List.all_eq_true.mp h part hpart), ?_⟩
    intro hone
    have hzero : (splitDouble text).length - 1 = 0 := by omega
    by_contra hnot
    refine hcount ⟨hzero, fun height => hnot (.inl height), fun hany => hnot (.inr ?_)⟩
    obtain ⟨part, hpart, hdot⟩ := List.any_eq_true.mp hany
    exact ⟨part, hpart, by simpa using hdot⟩
  · intro h
    have hchars : ∀ c ∈ text, (isHex c || c == ':' || c == '.') = true := by
      intro c hc
      rcases mem_partsOf hc with rfl | ⟨part, hpart, hin⟩
      · decide
      · rcases h.parts part hpart with hgroup | ⟨a, hquad⟩
        · simp [hgroup.2.2 c hin]
        · rcases mem_dotted hquad.1 hin with rfl | hdigit
          · decide
          · simp [isHex_of_isDigit hdigit]
    have hone := List.length_pos_iff.mpr (splitDouble_ne_nil text)
    have hne : text ≠ [] := by
      rintro rfl
      have hcount := h.count rfl
      revert hcount
      decide
    have hcount : (splitDouble text).length - 1 = 0 →
        (partsOf text).length = 8 ∨ ∃ part ∈ partsOf text, '.' ∈ part :=
      fun hzero => h.count (by omega)
    have hhalves := h.halves
    rw [if_neg (by
      rw [not_or, not_not, List.all_eq_true]
      exact ⟨hne, hchars⟩)]
    simp only
    rw [if_neg (by omega), parts_cut text hhalves, if_neg, if_neg]
    · exact List.all_eq_true.mpr fun part hpart => (part_read_iff part).mpr (h.parts part hpart)
    · rintro ⟨hzero, height, hnone⟩
      rcases hcount hzero with hlength | ⟨part, hpart, hdot⟩
      · exact height hlength
      · exact hnone (List.any_eq_true.mpr ⟨part, hpart, by simpa using hdot⟩)
    · rintro ⟨hempty, hzero⟩
      rcases hcount hzero with hlength | ⟨part, hpart, -⟩
      · omega
      · rw [List.eq_nil_of_length_eq_zero hempty] at hpart
        cases hpart

/-! ### Rows by their pieces -/

variable {pieces : List Text}

theorem sideSize_groups (h : ∀ piece ∈ pieces, '.' ∉ piece) : sideSize pieces = pieces.length := by
  rw [sideSize, List.map_congr_left fun piece hpiece => if_neg (h piece hpiece)]
  simp

theorem sideSize_concat (pieces : List Text) (last : Text) :
    sideSize (pieces ++ [last]) = sideSize pieces + if '.' ∈ last then 2 else 1 := by
  simp [sideSize]

theorem row_parts {last : Bool} (h : Row PlainQuad last pieces words) :
    (∀ piece ∈ pieces, IsGroup piece ∨ ∃ a, PlainQuad piece a) ∧ WellPlaced last pieces ∧
      words.length = sideSize pieces := by
  cases h with
  | groups hgroups =>
    have hdots : ∀ piece ∈ pieces, '.' ∉ piece := fun piece hpiece =>
      dot_notMem_isGroup (hgroups piece hpiece)
    refine ⟨fun piece hpiece => .inl (hgroups piece hpiece),
      ⟨fun hempty => (hgroups [] hempty).1 rfl, fun piece hpiece => hdots piece ?_⟩, ?_⟩
    · cases last with
      | true => exact List.mem_of_mem_dropLast hpiece
      | false => exact hpiece
    · rw [sideSize_groups hdots, List.length_map]
  | @quad pieces quad a hgroups hquad =>
    have hdots : ∀ piece ∈ pieces, '.' ∉ piece := fun piece hpiece =>
      dot_notMem_isGroup (hgroups piece hpiece)
    have hdot := dot_mem_dotted hquad.1
    refine ⟨fun piece hpiece => ?_, ⟨fun hempty => ?_, fun piece hpiece => hdots piece ?_⟩, ?_⟩
    · rcases List.mem_append.mp hpiece with hin | hin
      · exact .inl (hgroups piece hin)
      · exact .inr ⟨a, by rwa [List.mem_singleton.mp hin]⟩
    · rcases List.mem_append.mp hempty with hin | hin
      · exact (hgroups [] hin).1 rfl
      · rw [← List.mem_singleton.mp hin] at hdot
        cases hdot
    · simpa using hpiece
    · rw [sideSize_concat, sideSize_groups hdots, if_pos hdot]
      simp

theorem row_of_placed {last : Bool}
    (hparts : ∀ piece ∈ pieces, IsGroup piece ∨ ∃ a, PlainQuad piece a)
    (hplaced : WellPlaced last pieces) :
    ∃ words, Row PlainQuad last pieces words ∧ words.length = sideSize pieces := by
  have hgroup : ∀ piece ∈ pieces, '.' ∉ piece → IsGroup piece := fun piece hpiece hdot =>
    (hparts piece hpiece).resolve_right fun ⟨a, hquad⟩ => hdot (dot_mem_dotted hquad.1)
  cases last with
  | false =>
    have hdots : ∀ piece ∈ pieces, '.' ∉ piece := hplaced.2
    exact ⟨_, Row.groups fun piece hpiece => hgroup piece hpiece (hdots piece hpiece),
      by rw [sideSize_groups hdots, List.length_map]⟩
  | true =>
    rcases List.eq_nil_or_concat pieces with rfl | ⟨init, final, rfl⟩
    · exact ⟨[], Row.groups (fun _ hin => nomatch hin), rfl⟩
    · rw [List.concat_eq_append] at *
      have hdots : ∀ piece ∈ init, '.' ∉ piece := fun piece hpiece =>
        hplaced.2 piece (by simpa using hpiece)
      have hinit : ∀ piece ∈ init, IsGroup piece := fun piece hpiece =>
        hgroup piece (List.mem_append_left _ hpiece) (hdots piece hpiece)
      rcases hparts final (by simp) with hfinal | ⟨a, hquad⟩
      · have hall : ∀ piece ∈ init ++ [final], IsGroup piece := fun piece hpiece => by
          rcases List.mem_append.mp hpiece with hin | hin
          · exact hinit piece hin
          · rwa [List.mem_singleton.mp hin]
        refine ⟨_, Row.groups hall, ?_⟩
        rw [sideSize_groups fun piece hpiece => dot_notMem_isGroup (hall piece hpiece),
          List.length_map]
      · refine ⟨_, Row.quad hinit hquad, ?_⟩
        rw [sideSize_concat, sideSize_groups hdots, if_pos (dot_mem_dotted hquad.1)]
        simp

theorem row_piece {last : Bool} (h : Row PlainQuad last pieces words) :
    ∀ piece ∈ pieces, piece ≠ [] ∧ ':' ∉ piece := by
  intro piece hpiece
  rcases (row_parts h).1 piece hpiece with hgroup | ⟨a, hquad⟩
  · exact isGroup_piece hgroup
  · exact ⟨dotted_ne_nil hquad.1, notMem_dotted hquad.1 (by decide) (by decide)⟩

theorem filter_colons (h : ∀ piece ∈ pieces, piece ≠ [] ∧ ':' ∉ piece) :
    ((colons pieces).splitOn ':').filter (· != []) = pieces := by
  by_cases hne : pieces = []
  · subst hne
    rfl
  · rw [splitOn_colons hne fun piece hpiece => (h piece hpiece).2, List.filter_eq_self]
    exact fun piece hpiece => bne_iff_ne.mpr (h piece hpiece).1

theorem sidePieces_colons (h : ∀ piece ∈ pieces, piece ≠ [] ∧ ':' ∉ piece) :
    sidePieces (colons pieces) = pieces := by
  by_cases hne : pieces = []
  · subst hne
    rfl
  · have hcut := splitOn_colons hne fun piece hpiece => (h piece hpiece).2
    have htext : colons pieces ≠ [] := by
      intro hnil
      rw [hnil] at hcut
      exact (h [] (by rw [← hcut]; exact List.mem_cons_self)).1 rfl
    rw [sidePieces, if_neg htext, hcut]

theorem colons_sidePieces (side : Text) : colons (sidePieces side) = side := by
  unfold sidePieces
  split
  · next h => rw [h]; rfl
  · exact colons_splitOn side

theorem mem_sidePieces {half piece : Text} (hhalf : half ∈ splitDouble text)
    (hpiece : piece ∈ sidePieces half) (hne : piece ≠ []) : piece ∈ partsOf text := by
  refine List.mem_filter.mpr ⟨List.mem_flatMap.mpr ⟨half, hhalf, ?_⟩, bne_iff_ne.mpr hne⟩
  unfold sidePieces at hpiece
  split at hpiece
  · cases hpiece
  · exact hpiece

theorem ipv6Text_iff (text : Text) :
    (∃ words, Ipv6Text text words) ↔ PartsRead text ∧ Placed text := by
  constructor
  · rintro ⟨words, hform⟩
    cases hform with
    | @full pieces words hrow hlength =>
      obtain ⟨hparts, hplaced, hsize⟩ := row_parts hrow
      have hcut := splitDouble_full (row_piece hrow)
      have hall : partsOf (colons pieces) = pieces := by
        rw [partsOf, hcut, List.flatMap_singleton, filter_colons (row_piece hrow)]
      refine ⟨⟨by rw [hcut]; exact Nat.le_succ 1, by rwa [hall], fun _ => ?_⟩, ?_⟩
      · rw [hall]
        by_cases hdot : ∃ part ∈ pieces, '.' ∈ part
        · exact .inr hdot
        · rw [hlength, sideSize_groups fun piece hpiece hin => hdot ⟨piece, hpiece, hin⟩] at hsize
          exact .inl hsize.symm
      · rw [Placed, hcut]
        simp only [sidePieces_colons (row_piece hrow)]
        exact ⟨hplaced, hsize.symm.trans hlength⟩
    | @short left right lw rw' hleft hright hlength =>
      obtain ⟨hlefts, hlplaced, hlsize⟩ := row_parts hleft
      obtain ⟨hrights, hrplaced, hrsize⟩ := row_parts hright
      have hcut := splitDouble_short (row_piece hleft) (row_piece hright)
      have hall : partsOf (colons left ++ ':' :: ':' :: colons right) = left ++ right := by
        rw [partsOf, hcut, List.flatMap_cons, List.flatMap_singleton, List.filter_append,
          filter_colons (row_piece hleft), filter_colons (row_piece hright)]
      refine ⟨⟨by rw [hcut]; exact Nat.le_refl 2, ?_, fun hone => ?_⟩, ?_⟩
      · rw [hall]
        intro part hpart
        rcases List.mem_append.mp hpart with hin | hin
        · exact hlefts part hin
        · exact hrights part hin
      · rw [hcut] at hone
        cases hone
      · rw [Placed, hcut]
        simp only [sidePieces_colons (row_piece hleft), sidePieces_colons (row_piece hright)]
        exact ⟨hlplaced, hrplaced, by omega⟩
  · rintro ⟨hread, hplaced⟩
    have hside : ∀ {last : Bool} {half : Text}, half ∈ splitDouble text →
        WellPlaced last (sidePieces half) →
          ∃ words, Row PlainQuad last (sidePieces half) words ∧
            words.length = sideSize (sidePieces half) := by
      intro last half hhalf hwell
      refine row_of_placed (fun piece hpiece => hread.parts piece ?_) hwell
      exact mem_sidePieces hhalf hpiece fun heq => hwell.1 (heq ▸ hpiece)
    unfold Placed at hplaced
    split at hplaced
    · rename_i one hcut
      obtain ⟨words, hrow, hsize⟩ := hside (by rw [hcut]; simp) hplaced.1
      have hform : Ipv6Text _ words := Form.full hrow (hsize.trans hplaced.2)
      rw [colons_sidePieces, ← splitDouble_single hcut] at hform
      exact ⟨words, hform⟩
    · rename_i first second hcut
      obtain ⟨lw, hleft, hlsize⟩ := hside (by rw [hcut]; simp) hplaced.1
      obtain ⟨rw', hright, hrsize⟩ := hside (by rw [hcut]; simp) hplaced.2.1
      have hform : Ipv6Text _ _ :=
        Form.short hleft hright (by rw [hlsize, hrsize]; exact hplaced.2.2)
      rw [colons_sidePieces, colons_sidePieces, ← splitDouble_pair hcut] at hform
      exact ⟨_, hform⟩
    · exact hplaced.elim

/-! ### One notion -/

/-- Both readers accept the text forms of an address and nothing else, and its bytes are read. -/
structure OneNotion (text : Text) : Prop where
  format : isIpv6 text = true ↔ ∃ words, Ipv6Text text words
  bytes : (∃ words, Ipv6Text text words) ↔ (ipv6ToBytes text).isSome = true
  decoded : ∀ words, Ipv6Text text words → ipv6ToBytes text = some (bytesOf words)

theorem one_notion_iff (text : Text) :
    OneNotion text ↔ (PartsRead text → Placed text) ∧ ¬ LooseBytes text := by
  have hread : (∃ words, Ipv6Text text words) → (ipv6ToBytes text).isSome = true := by
    rintro ⟨words, hform⟩
    rw [ipv6ToBytes_form hform]
    rfl
  constructor
  · intro h
    refine ⟨fun hparts => ?_, (bytes_exact_iff text).mp h.bytes.mpr⟩
    exact ((ipv6Text_iff text).mp (h.format.mp ((isIpv6_eq_true_iff text).mpr hparts))).2
  · rintro ⟨hplaced, hloose⟩
    refine ⟨?_, ⟨hread, (bytes_exact_iff text).mpr hloose⟩, fun words => ipv6ToBytes_form⟩
    rw [isIpv6_eq_true_iff, ipv6Text_iff]
    exact ⟨fun hparts => ⟨hparts, hplaced hparts⟩, And.left⟩

/-- `1.2.3.4` is an IPv6 address for the validator, and no address for `ipv6ToBytes`. -/
theorem dotted_is_ipv6 :
    ¬ OneNotion "1.2.3.4".toList ∧ isIpv6 "1.2.3.4".toList = true ∧
      ipv6ToBytes "1.2.3.4".toList = none := by
  have hformat : isIpv6 "1.2.3.4".toList = true := by decide +kernel
  have hbytes : ipv6ToBytes "1.2.3.4".toList = none := by decide +kernel
  refine ⟨fun h => ?_, hformat, hbytes⟩
  have hread := h.bytes.mp (h.format.mp hformat)
  rw [hbytes] at hread
  cases hread

end Apim.Net
