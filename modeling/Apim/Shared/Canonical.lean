import Apim.DataPlane.JsonWriter
import Apim.Shared.Decimals
import Mathlib.Data.List.Sort
import Mathlib.Order.Lex
import Mathlib.Data.List.Lex

/-!
# Canonical JSON

`canonicalJson` (`shared/canonical.ts:7-21`) and what the validator decides by it: `sameValue` and
`uniqueItems` (`shared/jsonschema.ts:454-461, 573-583`). A canonical text stands for the value without its
members named `__proto__` and with `null` for its infinite numbers (`kept`); two values have one text where
these are the same up to the order of members (`canonicalJson_eq_iff`).
-/

namespace Apim.Canonical
open JsonReader JsNumber

/-! ### Numbers -/

inductive SignedNumber where
  | double (d : Double)
  | minusZero
  deriving DecidableEq, Repr

def SignedNumber.shown : SignedNumber → Double
  | .double d => d
  | .minusZero => .finite 0

def SignedNumber.isFinite (n : SignedNumber) : Bool :=
  match n.shown with
  | .finite _ => true
  | .infinite _ => false

abbrev JsonValue := Value SignedNumber

mutual
def shownValue : JsonValue → JsValue
  | .null => .null
  | .bool b => .bool b
  | .num n => .num n.shown
  | .str s => .str s
  | .arr items => .arr (shownItems items)
  | .obj members => .obj (shownMembers members)

def shownItems : List JsonValue → List JsValue
  | [] => []
  | v :: rest => shownValue v :: shownItems rest

def shownMembers : List (Units × JsonValue) → List (Units × JsValue)
  | [] => []
  | (key, v) :: rest => (key, shownValue v) :: shownMembers rest
end

/-! ### The order of names -/

def before (a b : Units) : Bool := decide (a.map UInt16.toNat ≤ b.map UInt16.toNat)

def arrayIndex (key : Units) : Option Nat :=
  let n := key.foldl (fun n u => 10 * n + (u.toNat - 48)) 0
  if key = units (toString n) ∧ n < 2 ^ 32 - 1 then some n else none

section Arrange
variable {α β : Type}

def enumerate (members : List (Units × α)) : List (Units × α) :=
  (members.filter fun m => (arrayIndex m.1).isSome).mergeSort
    (fun a b => decide ((arrayIndex a.1).getD 0 ≤ (arrayIndex b.1).getD 0)) ++
    members.filter fun m => !(arrayIndex m.1).isSome

def arrange (members : List (Units × α)) : List (Units × α) :=
  enumerate ((members.mergeSort fun a b => before a.1 b.1).filter fun m => m.1 != PROTO)

theorem enumerate_perm (members : List (Units × α)) : (enumerate members).Perm members :=
  ((List.mergeSort_perm _ _).append_right _).trans (List.filter_append_perm _ _)

theorem before_trans (a b c : Units × α) (hab : before a.1 b.1 = true) (hbc : before b.1 c.1 = true) :
    before a.1 c.1 = true :=
  decide_eq_true ((of_decide_eq_true hab).trans (of_decide_eq_true hbc))

theorem before_total (a b : Units × α) : (before a.1 b.1 || before b.1 a.1) = true := by
  rw [Bool.or_eq_true]
  exact (le_total _ _).imp decide_eq_true decide_eq_true

theorem before_antisymm {a b : Units} (hab : before a b = true) (hba : before b a = true) : a = b :=
  List.map_injective_iff.mpr (fun _ _ h => UInt16.toNat_inj.mp h)
    (le_antisymm (of_decide_eq_true hab) (of_decide_eq_true hba))

theorem sorted_eq {l m : List (Units × α)} (hl : l.Pairwise fun a b => before a.1 b.1 = true)
    (hm : m.Pairwise fun a b => before a.1 b.1 = true) (hnames : (l.map Prod.fst).Nodup) (h : l.Perm m) :
    l = m := by
  refine List.Perm.eq_of_pairwise ?_ hl hm h
  intro a b ha hb hab hba
  exact List.inj_on_of_nodup_map hnames ha (h.mem_iff.mpr hb) (before_antisymm hab hba)

theorem filtered_perm (l : List (Units × α)) :
    ((l.mergeSort fun a b => before a.1 b.1).filter fun m => m.1 != PROTO).Perm
      (l.filter fun m => m.1 != PROTO) :=
  (List.mergeSort_perm _ _).filter _

theorem arrange_eq_iff {l m : List (Units × α)} (hnames : (l.map Prod.fst).Nodup) :
    arrange l = arrange m ↔ (l.filter fun a => a.1 != PROTO).Perm (m.filter fun a => a.1 != PROTO) := by
  constructor
  · intro h
    have hl := (enumerate_perm _).trans (filtered_perm l)
    have hm := (enumerate_perm _).trans (filtered_perm m)
    rw [arrange] at h
    rw [h] at hl
    exact hl.symm.trans hm
  · intro h
    have hsorted : ∀ k : List (Units × α), ((k.mergeSort fun a b => before a.1 b.1).filter
        fun a => a.1 != PROTO).Pairwise fun a b => before a.1 b.1 = true := fun k =>
      (List.pairwise_mergeSort before_trans before_total k).filter _
    have hdistinct : ((((l.mergeSort fun a b => before a.1 b.1).filter
        fun a => a.1 != PROTO)).map Prod.fst).Nodup :=
      (((List.mergeSort_perm l _).map Prod.fst).nodup_iff.mpr hnames).sublist
        (List.filter_sublist.map Prod.fst)
    rw [arrange, arrange, sorted_eq (hsorted l) (hsorted m) hdistinct
      ((filtered_perm l).trans (h.trans (filtered_perm m).symm))]

theorem arrange_map (f : α → β) (l : List (Units × α)) :
    arrange (l.map fun m => (m.1, f m.2)) = (arrange l).map fun m => (m.1, f m.2) := by
  have hsort : ∀ (le : Units → Units → Bool) (k : List (Units × α)),
      (k.map fun m => (m.1, f m.2)).mergeSort (fun a b => le a.1 b.1) =
        (k.mergeSort fun a b => le a.1 b.1).map fun m => (m.1, f m.2) := by
    intro le k
    symm
    apply List.map_mergeSort
    intro a _ b _
    rfl
  rw [arrange, hsort before, List.filter_map, arrange, enumerate, enumerate, List.filter_map, List.filter_map,
    hsort (fun a b => decide ((arrayIndex a).getD 0 ≤ (arrayIndex b).getD 0)), List.map_append]
  rfl

theorem filter_proto_cons (key : Units) (x : α) (rest : List (Units × α)) :
    ((key, x) :: rest).filter (fun m => m.1 != PROTO) =
      if key = PROTO then rest.filter fun m => m.1 != PROTO
      else (key, x) :: rest.filter fun m => m.1 != PROTO := by
  by_cases hproto : key = PROTO
  · rw [if_pos hproto]
    exact List.filter_cons_of_neg fun h => bne_iff_ne.mp h hproto
  · rw [if_neg hproto]
    exact List.filter_cons_of_pos (bne_iff_ne.mpr hproto)

end Arrange

/-! ### Canonical form -/

mutual
/-- `canonicalize` (`shared/canonical.ts:7-16`). -/
def canonicalize : JsonValue → JsonValue
  | .arr items => .arr (canonicalItems items)
  | .obj members => .obj (arrange (canonicalMembers members))
  | v => v

def canonicalItems : List JsonValue → List JsonValue
  | [] => []
  | v :: rest => canonicalize v :: canonicalItems rest

def canonicalMembers : List (Units × JsonValue) → List (Units × JsonValue)
  | [] => []
  | (key, v) :: rest => (key, canonicalize v) :: canonicalMembers rest
end

def canonicalJson (v : JsonValue) : List Char := stringify (shownValue (canonicalize v))

/-- `digestOf` (`shared/canonical.ts:27-30`). -/
def digestOf (sha256Hex : List Char → String) (v : JsonValue) : String := "sha256:" ++ sha256Hex (canonicalJson v)

def strictEquals : JsonValue → JsonValue → Bool
  | .null, .null => true
  | .bool a, .bool b => a == b
  | .num m, .num n => decide (m.shown = n.shown)
  | .str s, .str t => s == t
  | _, _ => false

def isObject : JsonValue → Bool
  | .arr _ | .obj _ => true
  | _ => false

/-- `sameValue` (`shared/jsonschema.ts:454-461`). -/
def sameValue (a b : JsonValue) : Bool :=
  strictEquals a b || (isObject a && isObject b && decide (canonicalJson a = canonicalJson b))

/-- The index of the first item whose text was seen (`shared/jsonschema.ts:573-583`). -/
def duplicateFrom (seen : List (List Char)) (i : Nat) : List JsonValue → Option Nat
  | [] => none
  | v :: rest =>
    if canonicalJson v ∈ seen then some i else duplicateFrom (canonicalJson v :: seen) (i + 1) rest

def duplicateItem (items : List JsonValue) : Option Nat := duplicateFrom [] 0 items

/-! ### Equality up to the order of members -/

mutual
def Same : JsonValue → JsonValue → Prop
  | .null, .null => True
  | .bool a, .bool b => a = b
  | .num m, .num n => m.shown = n.shown
  | .str s, .str t => s = t
  | .arr items, .arr others => SameItems items others
  | .obj members, .obj others => SameMembers members others
  | _, _ => False

def SameItems : List JsonValue → List JsonValue → Prop
  | [], [] => True
  | v :: rest, w :: others => Same v w ∧ SameItems rest others
  | _, _ => False

def SameMembers : List (Units × JsonValue) → List (Units × JsonValue) → Prop
  | [], others => others = []
  | (key, v) :: rest, others =>
    ∃ front w back, others = front ++ (key, w) :: back ∧ Same v w ∧ SameMembers rest (front ++ back)
end

mutual
/-- A value JSON may have: its numbers are doubles, and the names of an object differ. -/
def IsJson : JsonValue → Prop
  | .num n => ∀ x, n.shown = .finite x → IsDouble x
  | .arr items => ItemsJson items
  | .obj members => (members.map Prod.fst).Nodup ∧ MembersJson members
  | _ => True

def ItemsJson : List JsonValue → Prop
  | [] => True
  | v :: rest => IsJson v ∧ ItemsJson rest

def MembersJson : List (Units × JsonValue) → Prop
  | [] => True
  | (_, v) :: rest => IsJson v ∧ MembersJson rest
end

mutual
def kept : JsonValue → JsonValue
  | .num n => if n.isFinite = true then .num n else .null
  | .arr items => .arr (keptItems items)
  | .obj members => .obj (keptMembers members)
  | v => v

def keptItems : List JsonValue → List JsonValue
  | [] => []
  | v :: rest => kept v :: keptItems rest

def keptMembers : List (Units × JsonValue) → List (Units × JsonValue)
  | [] => []
  | (key, v) :: rest => if key = PROTO then keptMembers rest else (key, kept v) :: keptMembers rest
end

/-! ### The tree of a canonical text -/

mutual
def tree : JsonValue → Tree
  | .null => .null
  | .bool b => .bool b
  | .num n => printed (.num n.shown)
  | .str s => .str s
  | .arr items => .arr (treeItems items)
  | .obj members => .obj (arrange (treeMembers members))

def treeItems : List JsonValue → List Tree
  | [] => []
  | v :: rest => tree v :: treeItems rest

def treeMembers : List (Units × JsonValue) → List (Units × Tree)
  | [] => []
  | (key, v) :: rest => (key, tree v) :: treeMembers rest
end

theorem membersPrinted_eq_map (members : List (Units × JsValue)) :
    membersPrinted members = members.map fun m => (m.1, printed m.2) := by
  induction members with
  | nil => rfl
  | cons m rest ih => rw [membersPrinted, ih, List.map_cons]

theorem shownMembers_eq_map (members : List (Units × JsonValue)) :
    shownMembers members = members.map fun m => (m.1, shownValue m.2) := by
  induction members with
  | nil => rfl
  | cons m rest ih => rw [shownMembers, ih, List.map_cons]

theorem treeMembers_eq_map (members : List (Units × JsonValue)) :
    treeMembers members = members.map fun m => (m.1, tree m.2) := by
  induction members with
  | nil => rfl
  | cons m rest ih => rw [treeMembers, ih, List.map_cons]

mutual
theorem printed_canonicalize : ∀ v : JsonValue, printed (shownValue (canonicalize v)) = tree v
  | .null | .bool _ | .num _ | .str _ => rfl
  | .arr items => congrArg Value.arr (printed_canonicalItems items)
  | .obj members => by
    rw [canonicalize, shownValue, printed, tree, membersPrinted_eq_map, shownMembers_eq_map, ← arrange_map,
      ← arrange_map, ← shownMembers_eq_map, ← membersPrinted_eq_map, printed_canonicalMembers members]

theorem printed_canonicalItems :
    ∀ items : List JsonValue, itemsPrinted (shownItems (canonicalItems items)) = treeItems items
  | [] => rfl
  | v :: rest => by
    rw [canonicalItems, shownItems, itemsPrinted, treeItems, printed_canonicalize v, printed_canonicalItems rest]

theorem printed_canonicalMembers :
    ∀ members : List (Units × JsonValue),
      membersPrinted (shownMembers (canonicalMembers members)) = treeMembers members
  | [] => rfl
  | (key, v) :: rest => by
    rw [canonicalMembers, shownMembers, membersPrinted, treeMembers, printed_canonicalize v,
      printed_canonicalMembers rest]
end

theorem canonicalJson_eq_iff_tree (a b : JsonValue) : canonicalJson a = canonicalJson b ↔ tree a = tree b := by
  rw [← printed_canonicalize a, ← printed_canonicalize b]
  constructor
  · intro h
    have hread := readTree_stringify (shownValue (canonicalize a))
    have htext : stringify (shownValue (canonicalize a)) = stringify (shownValue (canonicalize b)) := h
    rw [htext, readTree_stringify] at hread
    exact (Except.ok.inj hread).symm
  · intro h
    exact congrArg textOf h

/-! ### What is kept -/

mutual
def Plain : JsonValue → Prop
  | .num n => ∃ x, n.shown = .finite x ∧ IsDouble x
  | .arr items => ItemsPlain items
  | .obj members => (members.map Prod.fst).Nodup ∧ PROTO ∉ members.map Prod.fst ∧ MembersPlain members
  | _ => True

def ItemsPlain : List JsonValue → Prop
  | [] => True
  | v :: rest => Plain v ∧ ItemsPlain rest

def MembersPlain : List (Units × JsonValue) → Prop
  | [] => True
  | (_, v) :: rest => Plain v ∧ MembersPlain rest
end

theorem keptMembers_eq_map (members : List (Units × JsonValue)) :
    keptMembers members = (members.filter fun m => m.1 != PROTO).map fun m => (m.1, kept m.2) := by
  induction members with
  | nil => rfl
  | cons m rest ih =>
    obtain ⟨key, v⟩ := m
    rw [keptMembers, filter_proto_cons, ih]
    split
    · rfl
    · rw [List.map_cons]

theorem names_keptMembers (members : List (Units × JsonValue)) :
    (keptMembers members).map Prod.fst = (members.map Prod.fst).filter fun key => key != PROTO := by
  rw [keptMembers_eq_map, List.map_map, List.filter_map]
  rfl

theorem isFinite_iff {n : SignedNumber} : n.isFinite = true ↔ ∃ x, n.shown = .finite x := by
  rw [SignedNumber.isFinite]
  cases n.shown with
  | finite x => exact ⟨fun _ => ⟨x, rfl⟩, fun _ => rfl⟩
  | infinite _ => exact ⟨nofun, fun ⟨_, h⟩ => (nomatch h)⟩

mutual
theorem plain_kept : ∀ v : JsonValue, IsJson v → Plain (kept v)
  | .null, _ => trivial
  | .bool _, _ => trivial
  | .str _, _ => trivial
  | .num n, h => by
    rw [kept]
    split
    · next hfinite =>
      obtain ⟨x, hx⟩ := isFinite_iff.mp hfinite
      exact ⟨x, hx, h x hx⟩
    · trivial
  | .arr items, h => plain_keptItems items h
  | .obj members, h => by
    refine ⟨?_, ?_, plain_keptMembers members h.2⟩
    · rw [names_keptMembers]
      exact h.1.filter _
    · rw [names_keptMembers]
      intro hmem
      exact bne_iff_ne.mp (List.mem_filter.mp hmem).2 rfl

theorem plain_keptItems : ∀ items : List JsonValue, ItemsJson items → ItemsPlain (keptItems items)
  | [], _ => trivial
  | v :: rest, h => ⟨plain_kept v h.1, plain_keptItems rest h.2⟩

theorem plain_keptMembers :
    ∀ members : List (Units × JsonValue), MembersJson members → MembersPlain (keptMembers members)
  | [], _ => trivial
  | (key, v) :: rest, h => by
    rw [keptMembers]
    split
    · exact plain_keptMembers rest h.2
    · exact ⟨plain_kept v h.1, plain_keptMembers rest h.2⟩
end

mutual
theorem tree_kept : ∀ v : JsonValue, IsJson v → tree (kept v) = tree v
  | .null, _ | .bool _, _ | .str _, _ => rfl
  | .num n, _ => by
    rw [kept]
    split
    · rfl
    · next hinfinite =>
      rw [tree, tree]
      cases hshown : n.shown with
      | finite x => exact absurd (isFinite_iff.mpr ⟨x, hshown⟩) hinfinite
      | infinite _ => rfl
  | .arr items, h => congrArg Value.arr (tree_keptItems items h)
  | .obj members, h => by
    rw [kept, tree, tree]
    refine congrArg Value.obj ((arrange_eq_iff ?_).mpr ?_)
    · rw [treeMembers_eq_map, List.map_map]
      show ((keptMembers members).map Prod.fst).Nodup
      rw [names_keptMembers]
      exact h.1.filter _
    · rw [tree_keptMembers members h.2]

theorem tree_keptItems : ∀ items : List JsonValue, ItemsJson items → treeItems (keptItems items) = treeItems items
  | [], _ => rfl
  | v :: rest, h => by
    rw [keptItems, treeItems, treeItems, tree_kept v h.1, tree_keptItems rest h.2]

theorem tree_keptMembers : ∀ members : List (Units × JsonValue), MembersJson members →
    (treeMembers (keptMembers members)).filter (fun m => m.1 != PROTO) =
      (treeMembers members).filter fun m => m.1 != PROTO
  | [], _ => rfl
  | (key, v) :: rest, h => by
    rw [keptMembers, treeMembers, filter_proto_cons]
    split
    · exact tree_keptMembers rest h.2
    · next hname =>
      rw [treeMembers, filter_proto_cons, if_neg hname, tree_kept v h.1, tree_keptMembers rest h.2]
end

/-! ### Equal trees -/

theorem membersPlain_iff {members : List (Units × JsonValue)} :
    MembersPlain members ↔ ∀ m ∈ members, Plain m.2 := by
  induction members with
  | nil => exact ⟨nofun, fun _ => trivial⟩
  | cons m rest ih => rw [MembersPlain, ih, List.forall_mem_cons]

theorem filter_proto_of_plain {members : List (Units × JsonValue)} (h : PROTO ∉ members.map Prod.fst) :
    (treeMembers members).filter (fun m => m.1 != PROTO) = treeMembers members := by
  rw [treeMembers_eq_map, List.filter_eq_self]
  intro m hm
  obtain ⟨member, hmember, rfl⟩ := List.mem_map.mp hm
  refine bne_iff_ne.mpr fun hproto => h ?_
  rw [← hproto]
  exact List.mem_map_of_mem hmember

theorem tree_num {n : SignedNumber} {x : Rat} (h : n.shown = .finite x) : tree (.num n) = .num (toLiteral x) := by
  rw [tree, h, printed]

mutual
theorem tree_eq_iff : ∀ a b : JsonValue, Plain a → Plain b → (tree a = tree b ↔ Same a b)
  | .null, b, _, hb => by
    cases b with
    | null => exact ⟨fun _ => trivial, fun _ => rfl⟩
    | num n =>
      obtain ⟨x, hx, -⟩ := hb
      rw [tree_num hx]
      exact ⟨nofun, False.elim⟩
    | _ => exact ⟨nofun, False.elim⟩
  | .bool c, b, _, hb => by
    cases b with
    | bool d => exact ⟨fun h => Value.bool.inj h, fun h => congrArg Value.bool h⟩
    | num n =>
      obtain ⟨x, hx, -⟩ := hb
      rw [tree_num hx]
      exact ⟨nofun, False.elim⟩
    | _ => exact ⟨nofun, False.elim⟩
  | .str s, b, _, hb => by
    cases b with
    | str t => exact ⟨fun h => Value.str.inj h, fun h => congrArg Value.str h⟩
    | num n =>
      obtain ⟨x, hx, -⟩ := hb
      rw [tree_num hx]
      exact ⟨nofun, False.elim⟩
    | _ => exact ⟨nofun, False.elim⟩
  | .num m, b, ha, hb => by
    obtain ⟨x, hx, hdouble⟩ := ha
    rw [tree_num hx]
    cases b with
    | num n =>
      obtain ⟨y, hy, hdouble'⟩ := hb
      rw [tree_num hy, Same, hx, hy]
      constructor
      · intro h
        rw [toLiteral_inj hdouble hdouble' (Value.num.inj h)]
      · intro h
        rw [Double.finite.inj h]
    | _ => exact ⟨nofun, False.elim⟩
  | .arr items, b, ha, hb => by
    cases b with
    | arr others =>
      rw [tree, tree, Same, ← treeItems_eq_iff items others ha hb]
      exact ⟨fun h => Value.arr.inj h, fun h => congrArg Value.arr h⟩
    | num n =>
      obtain ⟨x, hx, -⟩ := hb
      rw [tree_num hx]
      exact ⟨nofun, False.elim⟩
    | _ => exact ⟨nofun, False.elim⟩
  | .obj members, b, ha, hb => by
    cases b with
    | obj others =>
      have hnames : ((treeMembers members).map Prod.fst).Nodup := by
        rw [treeMembers_eq_map, List.map_map]
        exact ha.1
      rw [tree, tree, Same, ← treeMembers_perm_iff members others ha.2.2 (membersPlain_iff.mp hb.2.2),
        ← filter_proto_of_plain ha.2.1, ← filter_proto_of_plain hb.2.1, ← arrange_eq_iff hnames,
        filter_proto_of_plain ha.2.1, filter_proto_of_plain hb.2.1]
      exact ⟨fun h => Value.obj.inj h, fun h => congrArg Value.obj h⟩
    | num n =>
      obtain ⟨x, hx, -⟩ := hb
      rw [tree_num hx]
      exact ⟨nofun, False.elim⟩
    | _ => exact ⟨nofun, False.elim⟩

theorem treeItems_eq_iff : ∀ items others : List JsonValue, ItemsPlain items → ItemsPlain others →
    (treeItems items = treeItems others ↔ SameItems items others)
  | [], others, _, _ => by
    cases others with
    | nil => exact ⟨fun _ => trivial, fun _ => rfl⟩
    | cons w more => exact ⟨nofun, False.elim⟩
  | v :: rest, others, ha, hb => by
    cases others with
    | nil => exact ⟨nofun, False.elim⟩
    | cons w more =>
      rw [treeItems, treeItems, List.cons.injEq, SameItems, tree_eq_iff v w ha.1 hb.1,
        treeItems_eq_iff rest more ha.2 hb.2]

theorem treeMembers_perm_iff : ∀ members others : List (Units × JsonValue), MembersPlain members →
    (∀ m ∈ others, Plain m.2) → ((treeMembers members).Perm (treeMembers others) ↔ SameMembers members others)
  | [], others, _, _ => by
    rw [treeMembers, SameMembers, List.nil_perm, treeMembers_eq_map, List.map_eq_nil_iff]
  | (key, v) :: rest, others, ha, hb => by
    rw [treeMembers, SameMembers]
    -- The member of that name among the others, and what is beside it.
    have hsplit : ∀ {front back : List (Units × JsonValue)} {w : JsonValue},
        others = front ++ (key, w) :: back →
          (treeMembers others).Perm ((key, tree w) :: treeMembers (front ++ back)) ∧ Plain w ∧
            ∀ m ∈ front ++ back, Plain m.2 := by
      intro front back w hothers
      have hperm : others.Perm ((key, w) :: (front ++ back)) := by
        rw [hothers]
        exact List.perm_middle
      rw [treeMembers_eq_map, treeMembers_eq_map]
      refine ⟨hperm.map _, hb _ (hperm.mem_iff.mpr List.mem_cons_self), fun m hm => ?_⟩
      exact hb m (hperm.mem_iff.mpr (List.mem_cons_of_mem _ hm))
    constructor
    · intro h
      have hmem : (key, tree v) ∈ treeMembers others := h.mem_iff.mp List.mem_cons_self
      rw [treeMembers_eq_map] at hmem
      obtain ⟨⟨name, w⟩, hw, heq⟩ := List.mem_map.mp hmem
      obtain ⟨hname, htree⟩ := Prod.mk.inj heq
      dsimp only at hname htree
      subst hname
      obtain ⟨front, back, hothers⟩ := List.append_of_mem hw
      obtain ⟨hperm, hplain, hbeside⟩ := hsplit hothers
      rw [htree] at hperm
      refine ⟨front, w, back, hothers, (tree_eq_iff v w ha.1 hplain).mp htree.symm, ?_⟩
      exact (treeMembers_perm_iff rest (front ++ back) ha.2 hbeside).mp
        ((List.perm_cons _).mp (h.trans hperm))
    · rintro ⟨front, w, back, hothers, hsame, hrest⟩
      obtain ⟨hperm, hplain, hbeside⟩ := hsplit hothers
      have htree := (tree_eq_iff v w ha.1 hplain).mpr hsame
      rw [htree]
      exact (((treeMembers_perm_iff rest (front ++ back) ha.2 hbeside).mpr hrest).cons _).trans hperm.symm
end

theorem canonicalJson_eq_iff {a b : JsonValue} (ha : IsJson a) (hb : IsJson b) :
    canonicalJson a = canonicalJson b ↔ Same (kept a) (kept b) := by
  rw [canonicalJson_eq_iff_tree, ← tree_kept a ha, ← tree_kept b hb,
    tree_eq_iff _ _ (plain_kept a ha) (plain_kept b hb)]

/-! ### What is decided by the text -/

theorem keptMembers_append (front back : List (Units × JsonValue)) :
    keptMembers (front ++ back) = keptMembers front ++ keptMembers back := by
  rw [keptMembers_eq_map, keptMembers_eq_map, keptMembers_eq_map, List.filter_append, List.map_append]

mutual
theorem same_kept : ∀ {a b : JsonValue}, Same a b → Same (kept a) (kept b)
  | .null, b, h => by
    cases b with
    | null => trivial
    | _ => exact h.elim
  | .bool c, b, h => by
    cases b with
    | bool d => exact h
    | _ => exact h.elim
  | .str s, b, h => by
    cases b with
    | str t => exact h
    | _ => exact h.elim
  | .num m, b, h => by
    cases b with
    | num n =>
      have hshown : m.shown = n.shown := h
      have hfinite : m.isFinite = n.isFinite := by rw [SignedNumber.isFinite, hshown, SignedNumber.isFinite]
      rw [kept, kept, ← hfinite]
      split
      · exact h
      · trivial
    | _ => exact h.elim
  | .arr items, b, h => by
    cases b with
    | arr others => exact sameItems_kept h
    | _ => exact h.elim
  | .obj members, b, h => by
    cases b with
    | obj others => exact sameMembers_kept h
    | _ => exact h.elim

theorem sameItems_kept : ∀ {items others : List JsonValue}, SameItems items others →
    SameItems (keptItems items) (keptItems others)
  | [], others, h => by
    cases others with
    | nil => trivial
    | cons w more => exact h.elim
  | v :: rest, others, h => by
    cases others with
    | nil => exact h.elim
    | cons w more => exact ⟨same_kept h.1, sameItems_kept h.2⟩

theorem sameMembers_kept : ∀ {members others : List (Units × JsonValue)}, SameMembers members others →
    SameMembers (keptMembers members) (keptMembers others)
  | [], others, h => by
    have hnone : others = [] := h
    rw [hnone]
    rfl
  | (key, v) :: rest, others, h => by
    obtain ⟨front, w, back, rfl, hsame, hrest⟩ := h
    have hbeside := sameMembers_kept hrest
    rw [keptMembers_append] at hbeside
    rw [keptMembers_append, keptMembers, keptMembers]
    split
    · exact hbeside
    · exact ⟨keptMembers front, kept w, keptMembers back, rfl, same_kept hsame, hbeside⟩
end

theorem isObject_kept (v : JsonValue) : isObject (kept v) = isObject v := by
  cases v with
  | num n =>
    rw [kept]
    split <;> rfl
  | _ => rfl

theorem isObject_of_same {a b : JsonValue} (h : Same a b) : isObject a = isObject b := by
  cases a <;> cases b <;> first | rfl | exact h.elim

theorem strictEquals_iff (a b : JsonValue) : strictEquals a b = true ↔ isObject a = false ∧ Same a b := by
  cases a <;> cases b <;>
    simp only [strictEquals, isObject, Same, beq_iff_eq, decide_eq_true_eq, Bool.true_eq_false,
      Bool.false_eq_true, false_and, true_and, and_false]

theorem sameValue_iff {a b : JsonValue} (ha : IsJson a) (hb : IsJson b) :
    sameValue a b = true ↔ if isObject a = true then Same (kept a) (kept b) else Same a b := by
  rw [sameValue, Bool.or_eq_true, strictEquals_iff, Bool.and_eq_true, Bool.and_eq_true, decide_eq_true_eq,
    canonicalJson_eq_iff ha hb]
  cases hobject : isObject a with
  | false =>
    simp only [Bool.false_eq_true, if_false, true_and, false_and, or_false]
  | true =>
    simp only [Bool.true_eq_false, false_and, false_or, true_and, if_true]
    refine ⟨fun h => h.2, fun h => ⟨?_, h⟩⟩
    rw [← isObject_kept, ← isObject_of_same h, isObject_kept, hobject]

theorem sameValue_of_same {a b : JsonValue} (ha : IsJson a) (hb : IsJson b) (h : Same a b) :
    sameValue a b = true := by
  rw [sameValue_iff ha hb]
  split
  · exact same_kept h
  · exact h

theorem duplicateFrom_eq_none {items : List JsonValue} {seen : List (List Char)} {i : Nat} :
    duplicateFrom seen i items = none ↔
      (∀ v ∈ items, canonicalJson v ∉ seen) ∧ items.Pairwise fun v w => canonicalJson v ≠ canonicalJson w := by
  induction items generalizing seen i with
  | nil => exact ⟨fun _ => ⟨nofun, .nil⟩, fun _ => rfl⟩
  | cons v rest ih =>
    rw [duplicateFrom, List.forall_mem_cons, List.pairwise_cons]
    split
    · next hseen => exact ⟨nofun, fun h => absurd hseen h.1.1⟩
    · next hnew =>
      rw [ih]
      constructor
      · rintro ⟨hfresh, hrest⟩
        refine ⟨⟨hnew, fun w hw hmem => hfresh w hw (List.mem_cons_of_mem _ hmem)⟩, fun w hw heq => ?_, hrest⟩
        exact hfresh w hw (heq ▸ List.mem_cons_self)
      · rintro ⟨⟨-, hfresh⟩, hfirst, hrest⟩
        refine ⟨fun w hw hmem => ?_, hrest⟩
        rcases List.mem_cons.mp hmem with heq | hmem
        · exact hfirst w hw heq.symm
        · exact hfresh w hw hmem

theorem duplicateItem_eq_none {items : List JsonValue} (h : ∀ v ∈ items, IsJson v) :
    duplicateItem items = none ↔ items.Pairwise fun v w => ¬Same (kept v) (kept w) := by
  rw [duplicateItem, duplicateFrom_eq_none]
  have hpairs : (items.Pairwise fun v w => canonicalJson v ≠ canonicalJson w) ↔
      items.Pairwise fun v w => ¬Same (kept v) (kept w) := by
    apply List.Pairwise.iff_of_mem
    intro v w hv hw
    rw [Ne, canonicalJson_eq_iff (h v hv) (h w hw)]
  rw [hpairs]
  exact ⟨fun hboth => hboth.2, fun hpairwise => ⟨fun _ _ => List.not_mem_nil, hpairwise⟩⟩

/-- Two values are found equal, by their text and as `enum` and `const` compare them, exactly where they are
the same. -/
structure DecidesEquality (a b : JsonValue) : Prop where
  text : canonicalJson a = canonicalJson b ↔ Same a b
  value : sameValue a b = true ↔ Same a b

theorem decidesEquality_iff {a b : JsonValue} (ha : IsJson a) (hb : IsJson b) :
    DecidesEquality a b ↔ (Same (kept a) (kept b) → Same a b) := by
  constructor
  · intro h hkept
    exact h.text.mp ((canonicalJson_eq_iff ha hb).mpr hkept)
  · intro h
    refine ⟨?_, fun hvalue => ?_, sameValue_of_same ha hb⟩
    · rw [canonicalJson_eq_iff ha hb]
      exact ⟨h, same_kept⟩
    · rw [sameValue_iff ha hb] at hvalue
      split at hvalue
      · exact h hvalue
      · exact hvalue

/-- One text is one value up to the order of members, in digests, in `enum` and `const` and among the items
of an array, exactly where no two values differ by what is not kept alone. -/
theorem one_text_iff (a b : JsonValue) (allowed : List JsonValue) (value : JsonValue)
    (items : List JsonValue) (ha : IsJson a) (hb : IsJson b) (hallowed : ∀ v ∈ allowed, IsJson v)
    (hvalue : IsJson value) (hitems : ∀ v ∈ items, IsJson v) :
    ((DecidesEquality a b ↔ (Same (kept a) (kept b) → Same a b)) ∧
      ∀ sha256Hex : List Char → String,
        (sha256Hex (canonicalJson a) = sha256Hex (canonicalJson b) → canonicalJson a = canonicalJson b) →
        ((digestOf sha256Hex a = digestOf sha256Hex b ↔ Same a b) ↔ (Same (kept a) (kept b) → Same a b))) ∧
    ((allowed.any (sameValue · value) = true ↔ ∃ v ∈ allowed, Same v value) ↔
      ((∃ v ∈ allowed, isObject v = true ∧ Same (kept v) (kept value)) → ∃ v ∈ allowed, Same v value)) ∧
    ((duplicateItem items = none ↔ items.Pairwise fun v w => ¬Same v w) ↔
      ((items.Pairwise fun v w => ¬Same v w) → items.Pairwise fun v w => ¬Same (kept v) (kept w))) := by
  refine ⟨⟨decidesEquality_iff ha hb, fun sha256Hex hcollision => ?_⟩, ?_, ?_⟩
  · have hdigest : digestOf sha256Hex a = digestOf sha256Hex b ↔ Same (kept a) (kept b) := by
      rw [← canonicalJson_eq_iff ha hb]
      constructor
      · intro h
        exact hcollision ((String.append_right_inj _).mp h)
      · intro h
        rw [digestOf, h, digestOf]
    rw [hdigest]
    exact ⟨fun h => h.mp, fun h => ⟨h, same_kept⟩⟩
  · have hfound : (∃ v ∈ allowed, Same v value) → allowed.any (sameValue · value) = true := by
      rintro ⟨v, hv, hsame⟩
      exact List.any_eq_true.mpr ⟨v, hv, sameValue_of_same (hallowed v hv) hvalue hsame⟩
    constructor
    · rintro h ⟨v, hv, hobject, hkept⟩
      refine h.mp (List.any_eq_true.mpr ⟨v, hv, (sameValue_iff (hallowed v hv) hvalue).mpr ?_⟩)
      rw [if_pos hobject]
      exact hkept
    · intro h
      refine ⟨fun hany => ?_, hfound⟩
      obtain ⟨v, hv, hequal⟩ := List.any_eq_true.mp hany
      rw [sameValue_iff (hallowed v hv) hvalue] at hequal
      split at hequal
      · next hobject => exact h ⟨v, hv, hobject, hequal⟩
      · exact ⟨v, hv, hequal⟩
  · rw [duplicateItem_eq_none hitems]
    refine ⟨fun h => h.mpr, fun h => ⟨fun hkept => ?_, h⟩⟩
    exact hkept.imp fun hdifferent hsame => hdifferent (same_kept hsame)

theorem one_text_reordered :
    let sha256Hex := fun _ : List Char => "e7633e38ebc428f2c8f74182cfef44040f1b845feae432551f8620d157c1337d"
    digestOf sha256Hex (.obj [([97], .num (.double (.finite 0))), ([98], .null)]) =
      digestOf sha256Hex (.obj [([98], .null), ([97], .num .minusZero)]) := by
  intro sha256Hex
  have hzero : IsDouble 0 := rfl
  have hfirst : IsJson (.obj [([97], .num (.double (.finite 0))), ([98], .null)]) :=
    ⟨by decide, fun x hx => Double.finite.inj hx ▸ hzero, trivial, trivial⟩
  have hsecond : IsJson (.obj [([98], .null), ([97], .num .minusZero)]) :=
    ⟨by decide, trivial, fun x hx => Double.finite.inj hx ▸ hzero, trivial⟩
  have hsame : Same (.obj [([97], .num (.double (.finite 0))), ([98], .null)])
      (.obj [([98], .null), ([97], .num .minusZero)]) :=
    ⟨[([98], .null)], .num .minusZero, [], rfl, rfl, [], .null, [], rfl, trivial, rfl⟩
  have htext := (canonicalJson_eq_iff hfirst hsecond).mpr (same_kept hsame)
  have hiff := (one_text_iff _ _ [] .null [] hfirst hsecond nofun trivial nofun).1.2 sha256Hex fun _ => htext
  exact (hiff.mpr fun _ => hsame).mpr hsame

theorem proto_in_no_text :
    IsJson (.obj [(PROTO, .bool true)]) ∧ IsJson (.obj []) ∧
      canonicalJson (.obj [(PROTO, .bool true)]) = canonicalJson (.obj []) ∧
      ¬Same (.obj [(PROTO, .bool true)]) (.obj []) := by
  have hproto : IsJson (.obj [(PROTO, .bool true)]) := ⟨List.nodup_singleton _, trivial, trivial⟩
  have hempty : IsJson (.obj []) := ⟨List.nodup_nil, trivial⟩
  have hkept : Same (kept (.obj [(PROTO, .bool true)])) (kept (.obj [])) := by
    show SameMembers (keptMembers [(PROTO, .bool true)]) []
    rw [keptMembers, if_pos rfl]
    rfl
  refine ⟨hproto, hempty, (canonicalJson_eq_iff hproto hempty).mpr hkept, ?_⟩
  rintro ⟨front, w, back, hothers, -, -⟩
  exact absurd hothers.symm (List.append_ne_nil_of_right_ne_nil front (List.cons_ne_nil _ _))

end Apim.Canonical
