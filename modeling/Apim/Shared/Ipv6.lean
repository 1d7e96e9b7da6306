import Apim.Shared.Hex
import Apim.Shared.Net

/-!
# IPv6 addresses

The two readers of an IPv6 address: `isIpv6` of the schema validator (`shared/jsonschema.ts:829-846`) and
`ipv6ToBytes` (`shared/net.ts:71-119`), and the text forms of an address: eight groups, groups with `::`
for at least one more, and either with an IPv4 address for the last two.
-/

namespace Apim.Net
open JsNumber (isDigit digitsValue IsDigits)
open Routing (trim toLower)

/-! ### What the code reads -/

def isHex (c : Char) : Bool := (Hex.hexDigit c).isSome

def hexOf (digits : Text) : Nat := digits.foldl (fun n c => 16 * n + (Hex.hexDigit c).getD 0) 0

def splitDouble : Text → List Text
  | ':' :: ':' :: rest => [] :: splitDouble rest
  | c :: rest => (splitDouble rest).modifyHead (c :: ·)
  | [] => [[]]

def isLowerHex (c : Char) : Bool := isDigit c || decide ('a' ≤ c ∧ c ≤ 'f')

def groupsOf (part : Text) : Option (List Nat) :=
  if part = [] then some []
  else (part.splitOn ':').mapM fun group =>
    if group ≠ [] ∧ group.length ≤ 4 ∧ group.all isLowerHex then some (hexOf group) else none

def expand (head : Text) : Option (List Nat) :=
  match splitDouble head with
  | [one] => (groupsOf one).bind fun left => if left.length = 8 then some left else none
  | [first, second] =>
    (groupsOf first).bind fun left => (groupsOf second).bind fun right =>
      if left.length + right.length ≤ 7 then
        some (left ++ List.replicate (8 - (left.length + right.length)) 0 ++ right)
      else none
  | _ => none

def bytesOf (groups : List Nat) : List Nat := groups.flatMap fun g => [g / 256 % 256, g % 256]

def quadBytes (v4 : BitVec 32) : List Nat :=
  [v4.toNat / 16777216 % 256, v4.toNat / 65536 % 256, v4.toNat / 256 % 256, v4.toNat % 256]

def afterColon (text : Text) : Text := (text.reverse.takeWhile (· != ':')).reverse

def readIpv6 (text : Text) : Option (List Nat) :=
  if text = [] ∨ '%' ∈ text ∨ ':' ∉ text then none
  else
    let maybeV4 := afterColon text
    if '.' ∈ maybeV4 then
      (ipv4ToInt maybeV4).bind fun v4 =>
        let head := text.take (text.length - maybeV4.length) ++ "0:0".toList
        (expand head).map fun groups => (bytesOf groups).take 12 ++ quadBytes v4
    else (expand text).map bytesOf

/-- `ipv6ToBytes` (`shared/net.ts:71-119`). -/
def ipv6ToBytes (ip : Text) : Option (List Nat) := readIpv6 ((trim ip).map toLower)

/-- An octet as `RE_IPV4` has it: no leading zero. -/
def IsPlainOctet (text : Text) : Prop := IsOctet text ∧ (text.head? = some '0' → text = ['0'])

instance (text : Text) : Decidable (IsOctet text) := inferInstanceAs (Decidable (_ ∧ _))

instance (text : Text) : Decidable (IsPlainOctet text) := inferInstanceAs (Decidable (_ ∧ _))

/-- `RE_IPV4` (`shared/jsonschema.ts:761`). -/
def isIpv4 (text : Text) : Bool :=
  let parts := text.splitOn '.'
  parts.length == 4 && parts.all fun part => decide (IsPlainOctet part)

def isGroup (text : Text) : Bool := text != [] && text.length ≤ 4 && text.all isHex

/-- `isIpv6` (`shared/jsonschema.ts:829-846`). -/
def isIpv6 (value : Text) : Bool :=
  if value = [] ∨ ¬ (value.all fun c => isHex c || c == ':' || c == '.') = true then false
  else
    let halves := splitDouble value
    let doubleColons := halves.length - 1
    if 1 < doubleColons then false
    else
      let parts := ((halves.headD []).splitOn ':' ++ (halves[1]?.getD []).splitOn ':').filter (· != [])
      if parts.length = 0 ∧ doubleColons = 0 then false
      else if doubleColons = 0 ∧ parts.length ≠ 8 ∧ ¬ (parts.any ('.' ∈ ·)) = true then false
      else parts.all fun part => if '.' ∈ part then isIpv4 part else isGroup part

example : ipv6ToBytes "2001:DB8::10.0.0.1".toList =
      some [0x20, 1, 0xd, 0xb8, 0, 0, 0, 0, 0, 0, 0, 0, 10, 0, 0, 1] ∧
    isIpv6 "2001:DB8::10.0.0.1".toList = true ∧ isIpv6 "::1::".toList = false := by decide +kernel

/-! ### The text forms -/

def colons (pieces : List Text) : Text := [':'].intercalate pieces

def IsGroup (text : Text) : Prop := text ≠ [] ∧ text.length ≤ 4 ∧ ∀ c ∈ text, isHex c = true

instance (text : Text) : Decidable (IsGroup text) := inferInstanceAs (Decidable (_ ∧ _ ∧ _))

def PlainQuad (text : Text) (a : BitVec 32) : Prop :=
  Dotted text a ∧ ∀ part ∈ text.splitOn '.', IsPlainOctet part

section
variable (Quad : Text → BitVec 32 → Prop)

inductive Row : Bool → List Text → List Nat → Prop
  | groups {last : Bool} {pieces : List Text} : (∀ piece ∈ pieces, IsGroup piece) →
      Row last pieces (pieces.map hexOf)
  | quad {pieces : List Text} {text : Text} {a : BitVec 32} : (∀ piece ∈ pieces, IsGroup piece) →
      Quad text a →
      Row true (pieces ++ [text]) (pieces.map hexOf ++ [a.toNat / 65536, a.toNat % 65536])

inductive Form : Text → List Nat → Prop
  | full {pieces : List Text} {words : List Nat} : Row Quad true pieces words → words.length = 8 →
      Form (colons pieces) words
  | short {left right : List Text} {lw rw : List Nat} : Row Quad false left lw →
      Row Quad true right rw → lw.length + rw.length ≤ 7 →
      Form (colons left ++ ':' :: ':' :: colons right)
        (lw ++ List.replicate (8 - (lw.length + rw.length)) 0 ++ rw)

end

def Ipv6Text : Text → List Nat → Prop := Form PlainQuad

def NoQuad (_ : Text) (_ : BitVec 32) : Prop := False

variable {pieces : List Text}

theorem row_noQuad {last : Bool} {words : List Nat} (h : Row NoQuad last pieces words) :
    (∀ piece ∈ pieces, IsGroup piece) ∧ words = pieces.map hexOf := by
  cases h with
  | groups hgroups => exact ⟨hgroups, rfl⟩
  | quad _ hquad => exact hquad.elim

theorem row_false {Quad : Text → BitVec 32 → Prop} {words : List Nat}
    (h : Row Quad false pieces words) :
    (∀ piece ∈ pieces, IsGroup piece) ∧ words = pieces.map hexOf := by
  cases h with
  | groups hgroups => exact ⟨hgroups, rfl⟩

/-! ### Joined and cut texts -/

theorem colon_notMem_isGroup {text : Text} (h : IsGroup text) : ':' ∉ text := by
  intro hmem
  have hhex := h.2.2 ':' hmem
  revert hhex
  decide

theorem colons_cons (piece next : Text) (pieces : List Text) :
    colons (piece :: next :: pieces) = piece ++ ':' :: colons (next :: pieces) := by
  rw [colons, List.intercalate_cons_cons, List.append_assoc]
  rfl

theorem colons_concat (pieces : List Text) (last : Text) :
    colons (pieces ++ [last]) = pieces.flatMap (· ++ [':']) ++ last := by
  induction pieces with
  | nil => exact List.intercalate_singleton
  | cons piece pieces ih =>
    have hne : pieces ++ [last] ≠ [] := by simp
    rw [colons, List.cons_append, List.intercalate_cons_of_ne_nil hne, ← colons, ih,
      List.flatMap_cons, List.append_assoc, List.append_assoc, List.append_assoc]

theorem splitOn_colons (hne : pieces ≠ []) (h : ∀ piece ∈ pieces, ':' ∉ piece) :
    (colons pieces).splitOn ':' = pieces :=
  List.splitOn_intercalate ':' h hne

theorem colons_splitOn (text : Text) : colons (text.splitOn ':') = text :=
  List.intercalate_splitOn ':'

theorem last_piece {front front' piece piece' : Text} (h : ':' ∉ piece) (h' : ':' ∉ piece')
    (heq : front ++ ':' :: piece = front' ++ ':' :: piece') : front = front' ∧ piece = piece' := by
  have hcut := congrArg (List.splitOn ':') heq
  rw [List.splitOn_append_cons_self, List.splitOn_append_cons_self, List.splitOn_eq_singleton h,
    List.splitOn_eq_singleton h'] at hcut
  obtain ⟨hfront, hpiece⟩ := List.append_inj' hcut rfl
  have hjoined := congrArg colons hfront
  rw [colons_splitOn, colons_splitOn] at hjoined
  exact ⟨hjoined, (List.cons.inj hpiece).1⟩

attribute [local simp] splitDouble

theorem splitDouble_ne_nil (text : Text) : splitDouble text ≠ [] := by
  induction text using splitDouble.induct with
  | case1 rest ih => simp [splitDouble]
  | case2 c rest hnot ih =>
    rw [splitDouble]
    · simpa using ih
    · exact hnot
  | case3 => simp [splitDouble]

theorem intercalate_splitDouble (text : Text) : [':', ':'].intercalate (splitDouble text) = text := by
  induction text using splitDouble.induct with
  | case1 rest ih =>
    rw [splitDouble, List.intercalate_cons_of_ne_nil (splitDouble_ne_nil rest), ih]
    rfl
  | case2 c rest hnot ih =>
    rw [splitDouble]
    · obtain ⟨first, more, hcut⟩ := List.exists_cons_of_ne_nil (splitDouble_ne_nil rest)
      rw [hcut] at ih ⊢
      cases more with
      | nil =>
        rw [List.intercalate_singleton] at ih
        rw [List.modifyHead_cons, List.intercalate_singleton, ih]
      | cons next more =>
        rw [List.intercalate_cons_cons] at ih
        rw [List.modifyHead_cons, List.intercalate_cons_cons, List.cons_append, List.cons_append, ih]
    · exact hnot
  | case3 => rfl

theorem splitDouble_single {text one : Text} (h : splitDouble text = [one]) : text = one := by
  have hjoined := intercalate_splitDouble text
  rwa [h, List.intercalate_singleton, eq_comm] at hjoined

theorem splitDouble_pair {text first second : Text} (h : splitDouble text = [first, second]) :
    text = first ++ ':' :: ':' :: second := by
  have hjoined := intercalate_splitDouble text
  rw [h, List.intercalate_cons_cons, List.intercalate_singleton, List.append_assoc] at hjoined
  exact hjoined.symm

theorem splitDouble_cons_of_ne {c : Char} (h : c ≠ ':') (rest : Text) :
    splitDouble (c :: rest) = (splitDouble rest).modifyHead (c :: ·) := by
  rw [splitDouble]
  rintro rest' rfl -
  exact h rfl

theorem modifyHead_append (front : Text) (cuts : List Text) (c : Char) :
    (cuts.modifyHead (front ++ ·)).modifyHead (c :: ·) = cuts.modifyHead (c :: front ++ ·) := by
  cases cuts <;> rfl

theorem splitDouble_append {piece : Text} (h : ':' ∉ piece) (rest : Text) :
    splitDouble (piece ++ rest) = (splitDouble rest).modifyHead (piece ++ ·) := by
  induction piece with
  | nil =>
    rw [List.nil_append]
    cases splitDouble rest <;> rfl
  | cons c piece ih =>
    obtain ⟨hc, hpiece⟩ : ':' ≠ c ∧ ':' ∉ piece := by simpa using h
    rw [List.cons_append, splitDouble_cons_of_ne (Ne.symm hc), ih hpiece, modifyHead_append]

theorem splitDouble_colons (h : ∀ piece ∈ pieces, piece ≠ [] ∧ ':' ∉ piece) (rest : Text) :
    splitDouble (colons pieces ++ rest) = (splitDouble rest).modifyHead (colons pieces ++ ·) := by
  induction pieces with
  | nil =>
    show splitDouble rest = _
    cases splitDouble rest <;> rfl
  | cons piece pieces ih =>
    have hpiece := (h piece List.mem_cons_self).2
    cases pieces with
    | nil =>
      rw [colons, List.intercalate_singleton]
      exact splitDouble_append hpiece rest
    | cons next pieces =>
      have hrest := ih fun other hother => h other (List.mem_cons_of_mem _ hother)
      obtain ⟨hne, hcolon⟩ := h next (List.mem_cons_of_mem _ List.mem_cons_self)
      obtain ⟨c, more, hnext⟩ := List.exists_cons_of_ne_nil hne
      have hc : c ≠ ':' := fun heq => hcolon (by rw [hnext, heq]; exact List.mem_cons_self)
      have hbegin : ∃ tail, colons (next :: pieces) ++ rest = c :: tail := by
        cases pieces with
        | nil => exact ⟨more ++ rest, by rw [colons, List.intercalate_singleton, hnext]; rfl⟩
        | cons _ _ =>
          exact ⟨_, by rw [colons_cons, hnext]; rfl⟩
      obtain ⟨tail, htail⟩ := hbegin
      have hcut : splitDouble (':' :: (colons (next :: pieces) ++ rest)) =
          (splitDouble (colons (next :: pieces) ++ rest)).modifyHead (':' :: ·) := by
        rw [htail, splitDouble]
        rintro rest' - heq
        exact hc (List.cons.inj heq).1
      have hjoined : colons (piece :: next :: pieces) ++ rest =
          piece ++ ':' :: (colons (next :: pieces) ++ rest) := by
        rw [colons_cons, List.append_assoc]
        rfl
      rw [hjoined, splitDouble_append hpiece, hcut, hrest, modifyHead_append]
      cases splitDouble rest with
      | nil => rfl
      | cons first others =>
        simp only [List.modifyHead_cons, colons_cons piece, List.append_assoc, List.cons_append]

theorem splitDouble_full (h : ∀ piece ∈ pieces, piece ≠ [] ∧ ':' ∉ piece) :
    splitDouble (colons pieces) = [colons pieces] := by
  have hcut := splitDouble_colons h []
  rw [List.append_nil] at hcut
  rw [hcut]
  simp [splitDouble]

theorem splitDouble_short {left right : List Text}
    (hleft : ∀ piece ∈ left, piece ≠ [] ∧ ':' ∉ piece)
    (hright : ∀ piece ∈ right, piece ≠ [] ∧ ':' ∉ piece) :
    splitDouble (colons left ++ ':' :: ':' :: colons right) = [colons left, colons right] := by
  rw [splitDouble_colons hleft, splitDouble, splitDouble_full hright]
  simp

end Apim.Net
