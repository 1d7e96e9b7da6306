import Apim.DataPlane.JsonGrammar

/-!
# What the bounded reader accepts

The bounded reader reads the trees that the grammar derives within the limits (`readTree_eq_ok`). Duplicates
are looked for among the names an object has by then, and one name is never among them: whether the reader
accepts what it should turns on that name (`reads_exactly`).
-/

namespace Apim.JsonReader
open DataPlane (JsonLimits DuplicateKeys)
open Hex JsNumber

/-! ### Limits and names -/

mutual
def Within (l : JsonLimits) : Nat → Tree → Prop
  | depth, .arr items => depth ≤ l.maxDepth ∧ items.length ≤ l.maxArrayLength ∧ ItemsWithin l (depth + 1) items
  | depth, .obj members =>
    depth ≤ l.maxDepth ∧ members.length ≤ l.maxObjectKeys ∧ MembersWithin l (depth + 1) members
  | depth, _ => depth ≤ l.maxDepth

def ItemsWithin (l : JsonLimits) : Nat → List Tree → Prop
  | _, [] => True
  | depth, v :: rest => Within l depth v ∧ ItemsWithin l depth rest

def MembersWithin (l : JsonLimits) : Nat → List (Units × Tree) → Prop
  | _, [] => True
  | depth, (_, v) :: rest => Within l depth v ∧ MembersWithin l depth rest
end

mutual
/-- No object has two members of one name, among the names that are looked at. -/
def Distinct (looked : Units → Bool) : Tree → Prop
  | .arr items => ItemsDistinct looked items
  | .obj members => ((members.map (·.1)).filter looked).Nodup ∧ MembersDistinct looked members
  | _ => True

def ItemsDistinct (looked : Units → Bool) : List Tree → Prop
  | [] => True
  | v :: rest => Distinct looked v ∧ ItemsDistinct looked rest

def MembersDistinct (looked : Units → Bool) : List (Units × Tree) → Prop
  | [] => True
  | (_, v) :: rest => Distinct looked v ∧ MembersDistinct looked rest
end

mutual
def HasProto : Tree → Prop
  | .arr items => ItemsHaveProto items
  | .obj members => MembersHaveProto members
  | _ => False

def ItemsHaveProto : List Tree → Prop
  | [] => False
  | v :: rest => HasProto v ∨ ItemsHaveProto rest

def MembersHaveProto : List (Units × Tree) → Prop
  | [] => False
  | (key, v) :: rest => key = PROTO ∨ HasProto v ∨ MembersHaveProto rest
end

mutual
/-- What `JSON.parse` makes of a tree without duplicates: every member is a property. -/
def denoted : Tree → JsValue
  | .null => .null
  | .bool b => .bool b
  | .num n => .num (ofRat n.value)
  | .str s => .str s
  | .arr items => .arr (itemsDenoted items)
  | .obj members => .obj (membersDenoted members)

def itemsDenoted : List Tree → List JsValue
  | [] => []
  | v :: rest => denoted v :: itemsDenoted rest

def membersDenoted : List (Units × Tree) → List (Units × JsValue)
  | [] => []
  | (key, v) :: rest => (key, denoted v) :: membersDenoted rest
end

def isOwn (key : Units) : Bool := key != PROTO

/-! ### What a reader with limits lets through -/

variable {limits : Option JsonLimits}

structure Allowed (limits : Option JsonLimits) (depth : Nat) (v : Tree) : Prop where
  within : ∀ l ∈ limits, Within l depth v
  distinct : ∀ l ∈ limits, l.duplicateKeys = .reject → Distinct isOwn v

structure ItemsAllowed (limits : Option JsonLimits) (depth count : Nat) (items : List Tree) : Prop where
  length : ∀ l ∈ limits, count + items.length ≤ l.maxArrayLength
  within : ∀ l ∈ limits, ItemsWithin l (depth + 1) items
  distinct : ∀ l ∈ limits, l.duplicateKeys = .reject → ItemsDistinct isOwn items

structure Fresh (own : List Units) (members : List (Units × Tree)) : Prop where
  notOwn : ∀ member ∈ members, member.1 ∉ own
  nodup : ((members.map (·.1)).filter isOwn).Nodup

structure MembersAllowed (limits : Option JsonLimits) (depth : Nat) (own : List Units) (keys : Nat)
    (members : List (Units × Tree)) : Prop where
  length : ∀ l ∈ limits, keys + members.length ≤ l.maxObjectKeys
  within : ∀ l ∈ limits, MembersWithin l (depth + 1) members
  fresh : ∀ l ∈ limits, l.duplicateKeys = .reject → Fresh own members
  distinct : ∀ l ∈ limits, l.duplicateKeys = .reject → MembersDistinct isOwn members

theorem exceeds_eq_false {bound : JsonLimits → Nat} {n : Nat} :
    exceeds limits bound n = false ↔ ∀ l ∈ limits, n ≤ bound l := by
  simp [exceeds, Option.any_eq_false]

variable {own : List Units} {key : Units}

theorem isDuplicate_eq_false :
    isDuplicate limits own key = false ↔ ∀ l ∈ limits, l.duplicateKeys = .reject → key ∉ own := by
  cases limits with
  | none => simp [isDuplicate]
  | some l =>
    simp only [isDuplicate, Option.any_some, Option.mem_some_iff, forall_eq', Bool.and_eq_false_iff,
      List.contains_eq_mem, decide_eq_false_iff_not, beq_eq_false_iff_ne]
    exact ⟨fun h hreject => h.resolve_right (not_not_intro hreject), fun h => by
      by_cases hreject : l.duplicateKeys = .reject
      · exact .inl (h hreject)
      · exact .inr hreject⟩

variable {depth : Nat} {v : Tree}

theorem allowed_scalar (harr : ∀ items, v ≠ .arr items) (hobj : ∀ members, v ≠ .obj members) :
    Allowed limits depth v ↔ ∀ l ∈ limits, depth ≤ l.maxDepth := by
  have hwithin : ∀ l, Within l depth v ↔ depth ≤ l.maxDepth := by
    intro l
    cases v with
    | arr items => exact absurd rfl (harr items)
    | obj members => exact absurd rfl (hobj members)
    | _ => exact Iff.rfl
  have hdistinct : Distinct isOwn v := by
    cases v with
    | arr items => exact absurd rfl (harr items)
    | obj members => exact absurd rfl (hobj members)
    | _ => exact trivial
  exact ⟨fun h l hl => (hwithin l).mp (h.within l hl),
    fun h => ⟨fun l hl => (hwithin l).mpr (h l hl), fun _ _ _ => hdistinct⟩⟩

variable {items : List Tree}

theorem allowed_arr : Allowed limits depth (.arr items) ↔
    (∀ l ∈ limits, depth ≤ l.maxDepth) ∧ ItemsAllowed limits depth 0 items := by
  constructor
  · intro h
    refine ⟨fun l hl => (h.within l hl).1, fun l hl => ?_, fun l hl => (h.within l hl).2.2, h.distinct⟩
    rw [Nat.zero_add]
    exact (h.within l hl).2.1
  · rintro ⟨hdepth, h⟩
    refine ⟨fun l hl => ⟨hdepth l hl, ?_, h.within l hl⟩, h.distinct⟩
    have := h.length l hl
    omega

variable {members : List (Units × Tree)}

theorem allowed_obj : Allowed limits depth (.obj members) ↔
    (∀ l ∈ limits, depth ≤ l.maxDepth) ∧ MembersAllowed limits depth [] 0 members := by
  constructor
  · intro h
    refine ⟨fun l hl => (h.within l hl).1, fun l hl => ?_, fun l hl => (h.within l hl).2.2,
      fun l hl hreject => ⟨fun _ _ => List.not_mem_nil, (h.distinct l hl hreject).1⟩,
      fun l hl hreject => (h.distinct l hl hreject).2⟩
    rw [Nat.zero_add]
    exact (h.within l hl).2.1
  · rintro ⟨hdepth, h⟩
    refine ⟨fun l hl => ⟨hdepth l hl, ?_, h.within l hl⟩,
      fun l hl hreject => ⟨(h.fresh l hl hreject).nodup, h.distinct l hl hreject⟩⟩
    have := h.length l hl
    omega

theorem itemsAllowed_nil {count : Nat} :
    ItemsAllowed limits depth count [] ↔ ∀ l ∈ limits, count ≤ l.maxArrayLength :=
  ⟨fun h => h.length, fun h => ⟨h, fun _ _ => trivial, fun _ _ _ => trivial⟩⟩

theorem itemsAllowed_cons {count : Nat} :
    ItemsAllowed limits depth count (v :: items) ↔
      Allowed limits (depth + 1) v ∧ ItemsAllowed limits depth (count + 1) items := by
  constructor
  · intro h
    refine ⟨⟨fun l hl => (h.within l hl).1, fun l hl hreject => (h.distinct l hl hreject).1⟩,
      fun l hl => ?_, fun l hl => (h.within l hl).2, fun l hl hreject => (h.distinct l hl hreject).2⟩
    have := h.length l hl
    rw [List.length_cons] at this
    omega
  · rintro ⟨hv, h⟩
    refine ⟨fun l hl => ?_, fun l hl => ⟨hv.within l hl, h.within l hl⟩,
      fun l hl hreject => ⟨hv.distinct l hl hreject, h.distinct l hl hreject⟩⟩
    have := h.length l hl
    rw [List.length_cons]
    omega

theorem fresh_cons :
    Fresh own ((key, v) :: members) ↔ key ∉ own ∧ Fresh (assigned own key) members := by
  by_cases hproto : key = PROTO
  · have hown : ¬isOwn key = true := by simp [isOwn, hproto]
    rw [assigned, if_pos hproto]
    constructor
    · intro h
      refine ⟨h.notOwn _ List.mem_cons_self, fun member hmember => h.notOwn _ (List.mem_cons_of_mem _ hmember), ?_⟩
      have hnodup := h.nodup
      rwa [List.map_cons, List.filter_cons_of_neg hown] at hnodup
    · rintro ⟨hkey, h⟩
      refine ⟨List.forall_mem_cons.mpr ⟨hkey, h.notOwn⟩, ?_⟩
      rw [List.map_cons, List.filter_cons_of_neg hown]
      exact h.nodup
  · have hown : isOwn key = true := by simp [isOwn, hproto]
    rw [assigned, if_neg hproto]
    constructor
    · intro h
      have hnodup := h.nodup
      rw [List.map_cons, List.filter_cons_of_pos hown, List.nodup_cons] at hnodup
      refine ⟨h.notOwn _ List.mem_cons_self, fun member hmember hmem => ?_, hnodup.2⟩
      obtain heq | hmem := List.mem_cons.mp hmem
      · exact hnodup.1 (List.mem_filter.mpr ⟨List.mem_map.mpr ⟨member, hmember, heq⟩, hown⟩)
      · exact h.notOwn _ (List.mem_cons_of_mem _ hmember) hmem
    · rintro ⟨hkey, h⟩
      refine ⟨List.forall_mem_cons.mpr ⟨hkey, fun member hmember hmem =>
        h.notOwn member hmember (List.mem_cons_of_mem _ hmem)⟩, ?_⟩
      rw [List.map_cons, List.filter_cons_of_pos hown, List.nodup_cons]
      refine ⟨fun hmem => ?_, h.nodup⟩
      obtain ⟨member, hmember, rfl⟩ := List.mem_map.mp (List.mem_of_mem_filter hmem)
      exact h.notOwn member hmember List.mem_cons_self

theorem membersAllowed_nil {keys : Nat} :
    MembersAllowed limits depth own keys [] ↔ ∀ l ∈ limits, keys ≤ l.maxObjectKeys :=
  ⟨fun h => h.length, fun h => ⟨h, fun _ _ => trivial, fun _ _ _ => ⟨nofun, List.nodup_nil⟩,
    fun _ _ _ => trivial⟩⟩

theorem membersAllowed_cons {keys : Nat} :
    MembersAllowed limits depth own keys ((key, v) :: members) ↔
      isDuplicate limits own key = false ∧ Allowed limits (depth + 1) v ∧
        MembersAllowed limits depth (assigned own key) (keys + 1) members := by
  rw [isDuplicate_eq_false]
  constructor
  · intro h
    refine ⟨fun l hl hreject => (fresh_cons.mp (h.fresh l hl hreject)).1,
      ⟨fun l hl => (h.within l hl).1, fun l hl hreject => (h.distinct l hl hreject).1⟩,
      fun l hl => ?_, fun l hl => (h.within l hl).2,
      fun l hl hreject => (fresh_cons.mp (h.fresh l hl hreject)).2,
      fun l hl hreject => (h.distinct l hl hreject).2⟩
    have := h.length l hl
    rw [List.length_cons] at this
    omega
  · rintro ⟨hkey, hv, h⟩
    refine ⟨fun l hl => ?_, fun l hl => ⟨hv.within l hl, h.within l hl⟩,
      fun l hl hreject => fresh_cons.mpr ⟨hkey l hl hreject, h.fresh l hl hreject⟩,
      fun l hl hreject => ⟨hv.distinct l hl hreject, h.distinct l hl hreject⟩⟩
    have := h.length l hl
    rw [List.length_cons]
    omega

theorem ItemsAllowed.count {count : Nat} (h : ItemsAllowed limits depth count (v :: items)) :
    ∀ l ∈ limits, count + 1 ≤ l.maxArrayLength := by
  intro l hl
  have := h.length l hl
  rw [List.length_cons] at this
  omega

theorem MembersAllowed.keys {keys : Nat} {member : Units × Tree}
    (h : MembersAllowed limits depth own keys (member :: members)) :
    ∀ l ∈ limits, keys + 1 ≤ l.maxObjectKeys := by
  intro l hl
  have := h.length l hl
  rw [List.length_cons] at this
  omega

/-! ### What is read is derived -/

variable {text rest : List Char}

theorem Ws.trans {front : List Char} (h : Ws text front) (h' : Ws front rest) : Ws text rest := by
  induction h with
  | nil => exact h'
  | cons hc _ ih => exact .cons hc (ih h')

theorem derivesItems_of_ws {front : List Char} (hws : Ws text front)
    (h : DerivesItems front items rest) : DerivesItems text items rest := by
  cases h with
  | last hfront hv hend => exact .last (hws.trans hfront) hv hend
  | next hfront hv hcomma hmore => exact .next (hws.trans hfront) hv hcomma hmore

theorem derivesMembers_of_ws {front : List Char} (hws : Ws text front)
    (h : DerivesMembers front members rest) : DerivesMembers text members rest := by
  cases h with
  | last hkey hname hcolon hfront hv hend => exact .last (hws.trans hkey) hname hcolon hfront hv hend
  | next hkey hname hcolon hfront hv hcomma hmore =>
    exact .next (hws.trans hkey) hname hcolon hfront hv hcomma hmore

theorem ws_of_skipWs (h : skipWs text = rest) : Ws text rest := h ▸ ws_skipWs text

variable {c : Char}

theorem ws_of_head (h : (skipWs text).head? = some c) : Ws text (c :: (skipWs text).tail) := by
  obtain ⟨more, hmore⟩ := List.head?_eq_some_iff.mp h
  rw [hmore]
  exact ws_of_skipWs hmore

theorem map_eq_ok {ε α β : Type} {x : Except ε α} {f : α → β} {b : β} :
    x.map f = .ok b ↔ ∃ a, x = .ok a ∧ f a = b := by
  cases x with
  | error e => exact ⟨nofun, nofun⟩
  | ok a => simp [Except.map]

theorem literal_eq_ok {word : String} {value : Tree} (h : literal word value text = .ok (v, rest)) :
    v = value ∧ text = word.toList ++ rest := by
  unfold literal at h
  split at h
  next hfront =>
    obtain ⟨more, rfl⟩ := List.isPrefixOf_iff_prefix.mp hfront
    cases h
    refine ⟨rfl, ?_⟩
    rw [← String.length_toList, List.drop_left]
  next => cases h

def ValueSound (limits : Option JsonLimits) (fuel : Nat) : Prop :=
  ∀ (depth : Nat) (path : List Step) (text : List Char) (v : Tree) (rest : List Char),
    readValue limits fuel depth path text = .ok (v, rest) →
      (∃ front, Ws text front ∧ Derives front v rest) ∧ Allowed limits depth v

def ItemsSound (limits : Option JsonLimits) (fuel : Nat) : Prop :=
  ∀ (depth : Nat) (path : List Step) (count : Nat) (text : List Char) (items : List Tree) (rest : List Char),
    readItems limits fuel depth path count text = .ok (items, rest) →
      DerivesItems text items rest ∧ ItemsAllowed limits depth count items

def MembersSound (limits : Option JsonLimits) (fuel : Nat) : Prop :=
  ∀ (depth : Nat) (path : List Step) (own : List Units) (keys : Nat) (text : List Char)
    (members : List (Units × Tree)) (rest : List Char),
    readMembers limits fuel depth path own keys text = .ok (members, rest) →
      DerivesMembers text members rest ∧ MembersAllowed limits depth own keys members

theorem allowed_of_depth (hdepth : ∀ l ∈ limits, depth ≤ l.maxDepth)
    (harr : ∀ items, v ≠ .arr items := by simp) (hobj : ∀ members, v ≠ .obj members := by simp) :
    Allowed limits depth v :=
  (allowed_scalar harr hobj).mpr hdepth

variable {fuel : Nat}

theorem readValue_sound (hitems : ItemsSound limits fuel) (hmembers : MembersSound limits fuel) :
    ValueSound limits (fuel + 1) := by
  intro depth path text v rest h
  rw [readValue] at h
  by_cases hexceeds : exceeds limits JsonLimits.maxDepth depth = true
  · rw [if_pos hexceeds] at h
    cases h
  rw [if_neg hexceeds] at h
  have hdepth := exceeds_eq_false.mp (Bool.eq_false_iff.mpr hexceeds)
  cases htext : skipWs text with
  | nil =>
    rw [htext] at h
    cases h
  | cons c more =>
    rw [htext] at h
    have hws := ws_of_skipWs htext
    simp only at h
    split at h
    next hquote =>
      subst hquote
      obtain ⟨⟨s, rest'⟩, hread, heq⟩ := map_eq_ok.mp h
      cases heq
      exact ⟨⟨_, hws, .str (chars_of_readString hread)⟩, allowed_of_depth hdepth⟩
    next =>
    split at h
    next =>
      obtain ⟨⟨n, rest'⟩, hread, heq⟩ := map_eq_ok.mp h
      cases heq
      exact ⟨⟨_, hws, .num (number_of_readNumber hread)⟩, allowed_of_depth hdepth⟩
    next =>
    split at h
    next =>
      obtain ⟨rfl, hword⟩ := literal_eq_ok h
      rw [hword] at hws
      exact ⟨⟨_, hws, .yes rest⟩, allowed_of_depth hdepth⟩
    next =>
    split at h
    next =>
      obtain ⟨rfl, hword⟩ := literal_eq_ok h
      rw [hword] at hws
      exact ⟨⟨_, hws, .no rest⟩, allowed_of_depth hdepth⟩
    next =>
    split at h
    next =>
      obtain ⟨rfl, hword⟩ := literal_eq_ok h
      rw [hword] at hws
      exact ⟨⟨_, hws, .null rest⟩, allowed_of_depth hdepth⟩
    next =>
    split at h
    next hbracket =>
      subst hbracket
      split at h
      next hclose =>
        cases h
        exact ⟨⟨_, hws, .noItems (ws_of_head hclose)⟩,
          allowed_arr.mpr ⟨hdepth, itemsAllowed_nil.mpr fun _ _ => Nat.zero_le _⟩⟩
      next =>
        obtain ⟨⟨items, rest'⟩, hread, heq⟩ := map_eq_ok.mp h
        cases heq
        obtain ⟨hderives, hallowed⟩ := hitems _ _ _ _ _ _ hread
        exact ⟨⟨_, hws, .items (derivesItems_of_ws (ws_skipWs more) hderives)⟩,
          allowed_arr.mpr ⟨hdepth, hallowed⟩⟩
    next =>
    split at h
    next hbrace =>
      subst hbrace
      split at h
      next hclose =>
        cases h
        exact ⟨⟨_, hws, .noMembers (ws_of_head hclose)⟩,
          allowed_obj.mpr ⟨hdepth, membersAllowed_nil.mpr fun _ _ => Nat.zero_le _⟩⟩
      next =>
        obtain ⟨⟨members, rest'⟩, hread, heq⟩ := map_eq_ok.mp h
        cases heq
        obtain ⟨hderives, hallowed⟩ := hmembers _ _ _ _ _ _ _ hread
        exact ⟨⟨_, hws, .members (derivesMembers_of_ws (ws_skipWs more) hderives)⟩,
          allowed_obj.mpr ⟨hdepth, hallowed⟩⟩
    next => cases h

theorem readItems_sound (hvalue : ValueSound limits fuel) (hitems : ItemsSound limits fuel) :
    ItemsSound limits (fuel + 1) := by
  intro depth path count text items rest h
  rw [readItems] at h
  by_cases hexceeds : exceeds limits JsonLimits.maxArrayLength (count + 1) = true
  · rw [if_pos hexceeds] at h
    cases h
  rw [if_neg hexceeds] at h
  have hlength := exceeds_eq_false.mp (Bool.eq_false_iff.mpr hexceeds)
  obtain ⟨⟨v, behind⟩, hread, h⟩ := Guard.bind_eq_ok.mp h
  obtain ⟨⟨front, hfront, hv⟩, hallowed⟩ := hvalue _ _ _ _ _ hread
  simp only at h
  cases hbehind : skipWs behind with
  | nil =>
    rw [hbehind] at h
    cases h
  | cons c more =>
    rw [hbehind] at h
    have hws := ws_of_skipWs hbehind
    simp only at h
    split at h
    next hcomma =>
      subst hcomma
      obtain ⟨⟨others, rest'⟩, hmore, heq⟩ := Guard.bind_eq_ok.mp h
      cases heq
      obtain ⟨hderives, hothers⟩ := hitems _ _ _ _ _ _ hmore
      exact ⟨.next hfront hv hws hderives, itemsAllowed_cons.mpr ⟨hallowed, hothers⟩⟩
    next =>
      split at h
      next hbracket =>
        subst hbracket
        cases h
        exact ⟨.last hfront hv hws, itemsAllowed_cons.mpr ⟨hallowed, itemsAllowed_nil.mpr hlength⟩⟩
      next => cases h

theorem readMembers_sound (hvalue : ValueSound limits fuel) (hmembers : MembersSound limits fuel) :
    MembersSound limits (fuel + 1) := by
  intro depth path own keys text members rest h
  rw [readMembers] at h
  by_cases hhead : (skipWs text).head? = some '"'
  case neg =>
    rw [if_pos hhead] at h
    cases h
  rw [if_neg (not_not_intro hhead)] at h
  obtain ⟨⟨key, behind⟩, hname, h⟩ := Guard.bind_eq_ok.mp h
  simp only at h
  by_cases hexceeds : exceeds limits JsonLimits.maxObjectKeys (keys + 1) = true
  · rw [if_pos hexceeds] at h
    cases h
  rw [if_neg hexceeds] at h
  by_cases hduplicate : isDuplicate limits own key = true
  · rw [if_pos hduplicate] at h
    cases h
  rw [if_neg hduplicate] at h
  by_cases hcolon : (skipWs behind).head? = some ':'
  case neg =>
    rw [if_pos hcolon] at h
    cases h
  rw [if_neg (not_not_intro hcolon)] at h
  obtain ⟨⟨v, behind'⟩, hread, h⟩ := Guard.bind_eq_ok.mp h
  have hlength := exceeds_eq_false.mp (Bool.eq_false_iff.mpr hexceeds)
  have hnew := Bool.eq_false_iff.mpr hduplicate
  obtain ⟨⟨front, hfront, hv⟩, hallowed⟩ := hvalue _ _ _ _ _ hread
  have hchars := chars_of_readString hname
  simp only at h
  cases hbehind : skipWs behind' with
  | nil =>
    rw [hbehind] at h
    cases h
  | cons c more =>
    rw [hbehind] at h
    have hws := ws_of_skipWs hbehind
    simp only at h
    split at h
    next hcomma =>
      subst hcomma
      obtain ⟨⟨others, rest'⟩, hmore, heq⟩ := Guard.bind_eq_ok.mp h
      cases heq
      obtain ⟨hderives, hothers⟩ := hmembers _ _ _ _ _ _ _ hmore
      exact ⟨.next (ws_of_head hhead) hchars (ws_of_head hcolon) hfront hv hws hderives,
        membersAllowed_cons.mpr ⟨hnew, hallowed, hothers⟩⟩
    next =>
      split at h
      next hbrace =>
        subst hbrace
        cases h
        exact ⟨.last (ws_of_head hhead) hchars (ws_of_head hcolon) hfront hv hws,
          membersAllowed_cons.mpr ⟨hnew, hallowed, membersAllowed_nil.mpr hlength⟩⟩
      next => cases h

theorem read_sound (limits : Option JsonLimits) (fuel : Nat) :
    ValueSound limits fuel ∧ ItemsSound limits fuel ∧ MembersSound limits fuel := by
  induction fuel with
  | zero =>
    refine ⟨?_, ?_, ?_⟩
    · intro depth path text v rest h
      rw [readValue] at h
      cases h
    · intro depth path count text items rest h
      rw [readItems] at h
      cases h
    · intro depth path own keys text members rest h
      rw [readMembers] at h
      cases h
  | succ fuel ih =>
    obtain ⟨hvalue, hitems, hmembers⟩ := ih
    exact ⟨readValue_sound hitems hmembers, readItems_sound hvalue hitems, readMembers_sound hvalue hmembers⟩

/-! ### What is derived is read -/

theorem number_head {n : Literal} (h : Number text n rest) :
    ∃ c more, text = c :: more ∧ (c = '-' ∨ isDigit c = true) := by
  obtain ⟨hwell, exponent, -, rfl⟩ := h
  obtain ⟨c, more, hwhole, hdigit⟩ := head_whole hwell.whole
  cases n.negative with
  | true => exact ⟨'-', _, rfl, .inl rfl⟩
  | false => exact ⟨c, _, by rw [hwhole]; rfl, .inr hdigit⟩

theorem number_start (h : c = '-' ∨ isDigit c = true) : isWs c = false ∧ c ≠ '"' ∧ c ≠ ']' := by
  obtain rfl | hdigit := h
  · decide
  · have hne : ∀ d, isDigit d = false → c ≠ d := by
      rintro d hd rfl
      rw [hdigit] at hd
      cases hd
    refine ⟨?_, hne _ (by decide), hne _ (by decide)⟩
    simp only [isWs, Bool.or_eq_false_iff, beq_eq_false_iff_ne]
    exact ⟨⟨⟨hne _ (by decide), hne _ (by decide)⟩, hne _ (by decide)⟩, hne _ (by decide)⟩

theorem derives_head (h : Derives text v rest) :
    ∃ c more, text = c :: more ∧ isWs c = false ∧ c ≠ ']' := by
  cases h with
  | num h =>
    obtain ⟨c, more, rfl, hc⟩ := number_head h
    obtain ⟨hws, -, hbracket⟩ := number_start hc
    exact ⟨c, more, rfl, hws, hbracket⟩
  | _ => exact ⟨_, _, rfl, by decide, by decide⟩

theorem skipWs_of_derives {front : List Char} (hws : Ws text front) (h : Derives front v rest) :
    skipWs text = front := by
  obtain ⟨c, more, rfl, hc, -⟩ := derives_head h
  refine skipWs_of_ws hws fun d hd => ?_
  cases hd
  exact hc

variable {more : List Char}

theorem skipWs_of_cons (h : Ws text (c :: more)) (hc : isWs c = false) : skipWs text = c :: more := by
  refine skipWs_of_ws h fun d hd => ?_
  cases hd
  exact hc

theorem follows_of_ws (h : Ws text (c :: more)) (hc : c = ',' ∨ c = ']' ∨ c = '\x7d') :
    Follows text := by
  cases h with
  | nil =>
    intro d hd
    cases hd
    exact .inr hc
  | cons hws _ =>
    intro d hd
    cases hd
    exact .inl hws

mutual
theorem length_of_derives : ∀ (v : Tree) {text rest : List Char}, Derives text v rest → rest.length < text.length
  | .null, _, _, .null rest => by
    simp only [List.length_cons]
    omega
  | .bool _, _, _, .yes rest => by
    simp only [List.length_cons]
    omega
  | .bool _, _, _, .no rest => by
    simp only [List.length_cons]
    omega
  | .num _, _, _, .num h => length_of_number h
  | .str _, _, _, .str h => Nat.lt_succ_of_lt (length_of_chars h)
  | .arr [], _, _, .noItems h => Nat.lt_succ_of_lt (length_of_ws h)
  | .arr items, _, _, .items h => Nat.lt_succ_of_lt (length_of_items items h)
  | .obj [], _, _, .noMembers h => Nat.lt_succ_of_lt (length_of_ws h)
  | .obj members, _, _, .members h => Nat.lt_succ_of_lt (length_of_members members h)

theorem length_of_items : ∀ (items : List Tree) {text rest : List Char}, DerivesItems text items rest →
    rest.length < text.length
  | [v], _, rest, .last hfront hv hend => by
    have hvalue := length_of_derives v hv
    have hws := length_of_ws hfront
    have hclose := length_of_ws hend
    rw [List.length_cons] at hclose
    omega
  | v :: items, _, rest, .next hfront hv hcomma hmore => by
    have hvalue := length_of_derives v hv
    have hothers := length_of_items items hmore
    have hws := length_of_ws hfront
    have hclose := length_of_ws hcomma
    rw [List.length_cons] at hclose
    omega

theorem length_of_members : ∀ (members : List (Units × Tree)) {text rest : List Char},
    DerivesMembers text members rest → rest.length < text.length
  | [(_, v)], _, rest, .last hkey hname hcolon hfront hv hend => by
    have hvalue := length_of_derives v hv
    have hopen := length_of_ws hkey
    have hchars := length_of_chars hname
    have hpoint := length_of_ws hcolon
    have hws := length_of_ws hfront
    have hclose := length_of_ws hend
    rw [List.length_cons] at hopen hpoint hclose
    omega
  | (_, v) :: members, _, rest, .next hkey hname hcolon hfront hv hcomma hmore => by
    have hvalue := length_of_derives v hv
    have hothers := length_of_members members hmore
    have hopen := length_of_ws hkey
    have hchars := length_of_chars hname
    have hpoint := length_of_ws hcolon
    have hws := length_of_ws hfront
    have hclose := length_of_ws hcomma
    rw [List.length_cons] at hopen hpoint hclose
    omega
end

theorem derivesItems_skipWs (h : DerivesItems text items rest) :
    DerivesItems (skipWs text) items rest := by
  cases h with
  | last hfront hv hend =>
    rw [skipWs_of_derives hfront hv]
    exact .last (.nil _) hv hend
  | next hfront hv hcomma hmore =>
    rw [skipWs_of_derives hfront hv]
    exact .next (.nil _) hv hcomma hmore

theorem items_head (h : DerivesItems text items rest) : ¬(skipWs text).head? = some ']' := by
  have hfirst : ∃ front v behind, Ws text front ∧ Derives front v behind := by
    cases h with
    | last hfront hv _ => exact ⟨_, _, _, hfront, hv⟩
    | next hfront hv _ _ => exact ⟨_, _, _, hfront, hv⟩
  obtain ⟨front, v, behind, hfront, hv⟩ := hfirst
  rw [skipWs_of_derives hfront hv]
  obtain ⟨c, more, rfl, -, hc⟩ := derives_head hv
  exact fun hhead => hc (Option.some.inj hhead)

theorem derivesMembers_skipWs (h : DerivesMembers text members rest) :
    DerivesMembers (skipWs text) members rest ∧ ¬(skipWs text).head? = some '\x7d' := by
  cases h with
  | last hkey hname hcolon hfront hv hend =>
    rw [skipWs_of_cons hkey (by decide)]
    exact ⟨.last (.nil _) hname hcolon hfront hv hend, fun hhead => absurd (Option.some.inj hhead) (by decide)⟩
  | next hkey hname hcolon hfront hv hcomma hmore =>
    rw [skipWs_of_cons hkey (by decide)]
    exact ⟨.next (.nil _) hname hcolon hfront hv hcomma hmore, fun hhead => absurd (Option.some.inj hhead) (by decide)⟩

theorem readValue_eq (hdepth : ∀ l ∈ limits, depth ≤ l.maxDepth) (htext : skipWs text = c :: more)
    (fuel : Nat) (path : List Step) :
    readValue limits (fuel + 1) depth path text =
      if c = '"' then (readString more).map fun (s, rest) => (.str s, rest)
      else if c = '-' ∨ isDigit c = true then
        (readNumber (c :: more)).map fun (n, rest) => (.num n, rest)
      else if c = 't' then literal "true" (.bool true) (c :: more)
      else if c = 'f' then literal "false" (.bool false) (c :: more)
      else if c = 'n' then literal "null" .null (c :: more)
      else if c = '[' then
        if (skipWs more).head? = some ']' then .ok (.arr [], (skipWs more).tail)
        else (readItems limits fuel depth path 0 (skipWs more)).map fun (items, rest) => (.arr items, rest)
      else if c = '\x7b' then
        if (skipWs more).head? = some '\x7d' then .ok (.obj [], (skipWs more).tail)
        else (readMembers limits fuel depth path [] 0 (skipWs more)).map fun (members, rest) =>
          (.obj members, rest)
      else .error ⟨.unexpectedCharacter, c :: more, []⟩ := by
  have hexceeds := Bool.eq_false_iff.mp (exceeds_eq_false.mpr hdepth)
  rw [readValue, if_neg hexceeds, htext]

theorem readValue_arr (hdepth : ∀ l ∈ limits, depth ≤ l.maxDepth)
    (htext : skipWs text = '[' :: more) (path : List Step)  :
    readValue limits (fuel + 1) depth path text =
      if (skipWs more).head? = some ']' then .ok (.arr [], (skipWs more).tail)
      else (readItems limits fuel depth path 0 (skipWs more)).map fun (items, rest) => (.arr items, rest) := by
  rw [readValue_eq hdepth htext, if_neg (by decide), if_neg (by decide), if_neg (by decide), if_neg (by decide),
    if_neg (by decide), if_pos rfl]

theorem readValue_obj (hdepth : ∀ l ∈ limits, depth ≤ l.maxDepth)
    (htext : skipWs text = '\x7b' :: more) (path : List Step) :
    readValue limits (fuel + 1) depth path text =
      if (skipWs more).head? = some '\x7d' then .ok (.obj [], (skipWs more).tail)
      else (readMembers limits fuel depth path [] 0 (skipWs more)).map fun (members, rest) =>
        (.obj members, rest) := by
  rw [readValue_eq hdepth htext, if_neg (by decide), if_neg (by decide), if_neg (by decide), if_neg (by decide),
    if_neg (by decide), if_neg (by decide), if_pos rfl]

theorem readScalar_of {front : List Char} (path : List Step) (harr : ∀ items, v ≠ .arr items)
    (hobj : ∀ members, v ≠ .obj members) (hws : Ws text front) (h : Derives front v rest)
    (hrest : Follows rest) (hallowed : Allowed limits depth v) :
    readValue limits (fuel + 1) depth path text = .ok (v, rest) := by
  have hdepth := (allowed_scalar harr hobj).mp hallowed
  have htext := skipWs_of_derives hws h
  cases h with
  | null =>
    rw [readValue_eq hdepth htext]
    rfl
  | yes =>
    rw [readValue_eq hdepth htext]
    rfl
  | no =>
    rw [readValue_eq hdepth htext]
    rfl
  | str h =>
    rw [readValue_eq hdepth htext, if_pos rfl, readString_of_chars h]
    rfl
  | num h =>
    obtain ⟨c, more, rfl, hc⟩ := number_head h
    rw [readValue_eq hdepth htext, if_neg (number_start hc).2.1, if_pos hc, readNumber_of h hrest]
    rfl
  | noItems => exact absurd rfl (harr _)
  | items => exact absurd rfl (harr _)
  | noMembers => exact absurd rfl (hobj _)
  | members => exact absurd rfl (hobj _)

theorem readItems_of {count : Nat} {path : List Step} {behind : List Char}
    (hlength : ∀ l ∈ limits, count + 1 ≤ l.maxArrayLength)
    (hv : readValue limits fuel (depth + 1) (path ++ [.index count]) text = .ok (v, behind))
    (hws : Ws behind (c :: more)) (hc : isWs c = false) :
    readItems limits (fuel + 1) depth path count text =
      if c = ',' then (do
        let (items, rest) ← readItems limits fuel depth path (count + 1) more
        pure (v :: items, rest))
      else if c = ']' then .ok ([v], more)
      else .error ⟨.expectedItemEnd, c :: more, path⟩ := by
  rw [readItems, if_neg (Bool.eq_false_iff.mp (exceeds_eq_false.mpr hlength)), hv]
  simp only [bind, Except.bind]
  rw [skipWs_of_cons hws hc]

theorem readMembers_of {keys : Nat} {path : List Step} {key colon value behind : List Char}
    {name : Units} (hlength : ∀ l ∈ limits, keys + 1 ≤ l.maxObjectKeys)
    (hnew : isDuplicate limits own name = false) (hkey : Ws text ('"' :: key))
    (hname : Chars key name colon) (hcolon : Ws colon (':' :: value))
    (hv : readValue limits fuel (depth + 1) (path ++ [.name name]) value = .ok (v, behind))
    (hws : Ws behind (c :: more)) (hc : isWs c = false) :
    readMembers limits (fuel + 1) depth path own keys text =
      if c = ',' then (do
        let (members, rest) ← readMembers limits fuel depth path (assigned own name) (keys + 1) more
        pure ((name, v) :: members, rest))
      else if c = '\x7d' then .ok ([(name, v)], more)
      else .error ⟨.expectedMemberEnd, c :: more, path⟩ := by
  rw [readMembers, skipWs_of_cons hkey (by decide), if_neg (not_not_intro List.head?_cons), List.tail_cons,
    readString_of_chars hname]
  simp only [bind, Except.bind]
  rw [if_neg (Bool.eq_false_iff.mp (exceeds_eq_false.mpr hlength)), if_neg (Bool.eq_false_iff.mp hnew),
    skipWs_of_cons hcolon (by decide), if_neg (not_not_intro List.head?_cons), List.tail_cons, hv]
  simp only
  rw [skipWs_of_cons hws hc]

mutual
theorem readValue_derived : ∀ (v : Tree) {text front rest : List Char} {fuel depth : Nat} (path : List Step),
    Ws text front → Derives front v rest → Follows rest → Allowed limits depth v →
      2 * text.length ≤ fuel + 2 * rest.length → readValue limits fuel depth path text = .ok (v, rest)
  | .arr items, text, front, rest, fuel, depth, path, hws, h, hrest, hallowed, hfuel => by
    have hfront := length_of_ws hws
    have hlength := length_of_derives (.arr items) h
    obtain ⟨left, rfl⟩ : ∃ left, fuel = left + 1 := ⟨fuel - 1, by omega⟩
    obtain ⟨hdepth, hitems⟩ := allowed_arr.mp hallowed
    have htext := skipWs_of_derives hws h
    cases h with
    | noItems hclose =>
      rw [readValue_arr hdepth htext, skipWs_of_cons hclose (by decide), if_pos List.head?_cons]
      rfl
    | @items more _ _ h =>
      have hskip := length_of_ws (ws_skipWs more)
      rw [List.length_cons] at hfront
      rw [readValue_arr hdepth htext, if_neg (items_head h),
        readItems_derived items path (derivesItems_skipWs h) hitems (by omega)]
      rfl
  | .obj members, text, front, rest, fuel, depth, path, hws, h, hrest, hallowed, hfuel => by
    have hfront := length_of_ws hws
    have hlength := length_of_derives (.obj members) h
    obtain ⟨left, rfl⟩ : ∃ left, fuel = left + 1 := ⟨fuel - 1, by omega⟩
    obtain ⟨hdepth, hmembers⟩ := allowed_obj.mp hallowed
    have htext := skipWs_of_derives hws h
    cases h with
    | noMembers hclose =>
      rw [readValue_obj hdepth htext, skipWs_of_cons hclose (by decide), if_pos List.head?_cons]
      rfl
    | @members more _ _ h =>
      obtain ⟨hmore, hopen⟩ := derivesMembers_skipWs h
      have hskip := length_of_ws (ws_skipWs more)
      rw [List.length_cons] at hfront
      rw [readValue_obj hdepth htext, if_neg hopen,
        readMembers_derived members path hmore hmembers (by omega)]
      rfl
  | .null, text, front, rest, fuel, depth, path, hws, h, hrest, hallowed, hfuel => by
    have hfront := length_of_ws hws
    have hlength := length_of_derives .null h
    obtain ⟨left, rfl⟩ : ∃ left, fuel = left + 1 := ⟨fuel - 1, by omega⟩
    exact readScalar_of path nofun nofun hws h hrest hallowed
  | .bool b, text, front, rest, fuel, depth, path, hws, h, hrest, hallowed, hfuel => by
    have hfront := length_of_ws hws
    have hlength := length_of_derives (.bool b) h
    obtain ⟨left, rfl⟩ : ∃ left, fuel = left + 1 := ⟨fuel - 1, by omega⟩
    exact readScalar_of path nofun nofun hws h hrest hallowed
  | .num n, text, front, rest, fuel, depth, path, hws, h, hrest, hallowed, hfuel => by
    have hfront := length_of_ws hws
    have hlength := length_of_derives (.num n) h
    obtain ⟨left, rfl⟩ : ∃ left, fuel = left + 1 := ⟨fuel - 1, by omega⟩
    exact readScalar_of path nofun nofun hws h hrest hallowed
  | .str s, text, front, rest, fuel, depth, path, hws, h, hrest, hallowed, hfuel => by
    have hfront := length_of_ws hws
    have hlength := length_of_derives (.str s) h
    obtain ⟨left, rfl⟩ : ∃ left, fuel = left + 1 := ⟨fuel - 1, by omega⟩
    exact readScalar_of path nofun nofun hws h hrest hallowed

theorem readItems_derived : ∀ (items : List Tree) {text rest : List Char} {fuel depth count : Nat} (path : List Step),
    DerivesItems text items rest → ItemsAllowed limits depth count items →
      2 * text.length ≤ fuel + 2 * rest.length →
        readItems limits fuel depth path count text = .ok (items, rest)
  | [v], text, rest, fuel, depth, count, path, .last hfront hv hend, hallowed, hfuel => by
    have hlength := length_of_items [v] (.last hfront hv hend)
    have hclose := length_of_ws hend
    rw [List.length_cons] at hclose
    obtain ⟨left, rfl⟩ : ∃ left, fuel = left + 1 := ⟨fuel - 1, by omega⟩
    have hread : readValue limits left (depth + 1) (path ++ [.index count]) text = .ok (v, _) :=
      readValue_derived v _ hfront hv (follows_of_ws hend (by decide)) (itemsAllowed_cons.mp hallowed).1 (by omega)
    rw [readItems_of hallowed.count hread hend (by decide)]
    rfl
  | v :: items, text, rest, fuel, depth, count, path, .next hfront hv hcomma hmore, hallowed, hfuel => by
    have hvalue := length_of_derives v hv
    have hothers := length_of_items items hmore
    have hopen := length_of_ws hfront
    have hclose := length_of_ws hcomma
    rw [List.length_cons] at hclose
    obtain ⟨left, rfl⟩ : ∃ left, fuel = left + 1 := ⟨fuel - 1, by omega⟩
    obtain ⟨hfirst, hrest⟩ := itemsAllowed_cons.mp hallowed
    have hread : readValue limits left (depth + 1) (path ++ [.index count]) text = .ok (v, _) :=
      readValue_derived v _ hfront hv (follows_of_ws hcomma (by decide)) hfirst (by omega)
    have hitems : readItems limits left depth path (count + 1) _ = .ok (items, rest) :=
      readItems_derived items path hmore hrest (by omega)
    rw [readItems_of hallowed.count hread hcomma (by decide), if_pos rfl, hitems]
    rfl

theorem readMembers_derived : ∀ (members : List (Units × Tree)) {text rest : List Char} {fuel depth keys : Nat}
    {own : List Units} (path : List Step),
    DerivesMembers text members rest → MembersAllowed limits depth own keys members →
      2 * text.length ≤ fuel + 2 * rest.length →
        readMembers limits fuel depth path own keys text = .ok (members, rest)
  | [(name, v)], text, rest, fuel, depth, keys, own, path, .last hkey hname hcolon hfront hv hend, hallowed, hfuel => by
    have hopen := length_of_ws hkey
    have hchars := length_of_chars hname
    have hpoint := length_of_ws hcolon
    have hvalue := length_of_derives v hv
    have hclose := length_of_ws hend
    have hws := length_of_ws hfront
    rw [List.length_cons] at hopen hpoint hclose
    obtain ⟨left, rfl⟩ : ∃ left, fuel = left + 1 := ⟨fuel - 1, by omega⟩
    obtain ⟨hnew, hfirst, -⟩ := membersAllowed_cons.mp hallowed
    have hread : readValue limits left (depth + 1) (path ++ [.name name]) _ = .ok (v, _) :=
      readValue_derived v _ hfront hv (follows_of_ws hend (by decide)) hfirst (by omega)
    rw [readMembers_of hallowed.keys hnew hkey hname hcolon hread hend (by decide)]
    rfl
  | (name, v) :: members, text, rest, fuel, depth, keys, own, path,
    .next hkey hname hcolon hfront hv hcomma hmore, hallowed, hfuel => by
    have hopen := length_of_ws hkey
    have hchars := length_of_chars hname
    have hpoint := length_of_ws hcolon
    have hvalue := length_of_derives v hv
    have hothers := length_of_members members hmore
    have hclose := length_of_ws hcomma
    have hws := length_of_ws hfront
    rw [List.length_cons] at hopen hpoint hclose
    obtain ⟨left, rfl⟩ : ∃ left, fuel = left + 1 := ⟨fuel - 1, by omega⟩
    obtain ⟨hnew, hfirst, hrest⟩ := membersAllowed_cons.mp hallowed
    have hread : readValue limits left (depth + 1) (path ++ [.name name]) _ = .ok (v, _) :=
      readValue_derived v _ hfront hv (follows_of_ws hcomma (by decide)) hfirst (by omega)
    have hmembers : readMembers limits left depth path (assigned own name) (keys + 1) _ = .ok (members, rest) :=
      readMembers_derived members path hmore hrest (by omega)
    rw [readMembers_of hallowed.keys hnew hkey hname hcolon hread hcomma (by decide), if_pos rfl, hmembers]
    rfl
end

/-! ### Whole texts -/

theorem readTree_eq_ok : readTree limits text = .ok v ↔ JsonText text v ∧ Allowed limits 1 v := by
  constructor
  · intro h
    rw [readTree] at h
    obtain ⟨⟨t, rest⟩, hread, h⟩ := Guard.bind_eq_ok.mp h
    simp only at h
    split at h
    next hend =>
      cases h
      obtain ⟨⟨front, hfront, hderives⟩, hallowed⟩ := (read_sound limits _).1 _ _ _ _ _ hread
      exact ⟨⟨front, rest, hfront, hderives, ws_of_skipWs hend⟩, hallowed⟩
    next => cases h
  · rintro ⟨⟨front, behind, hfront, hderives, hend⟩, hallowed⟩
    have hfollows : Follows behind := by
      cases hend with
      | nil => simp [Follows]
      | cons hws _ =>
        intro c hc
        cases hc
        exact .inl hws
    have hread : readValue limits (2 * text.length + 2) 1 [] text = .ok (v, behind) :=
      readValue_derived v [] hfront hderives hfollows hallowed (by omega)
    rw [readTree, hread]
    show (if skipWs behind = [] then _ else _) = _
    rw [if_pos (skipWs_of_ws hend (by simp))]

theorem jsonText_unique {w : Tree} (hv : JsonText text v) (hw : JsonText text w) : v = w := by
  have hallowed : ∀ t : Tree, Allowed none 1 t := fun _ => ⟨nofun, nofun⟩
  have hreadv := readTree_eq_ok.mpr ⟨hv, hallowed v⟩
  have hreadw := readTree_eq_ok.mpr ⟨hw, hallowed w⟩
  exact Except.ok.inj (hreadv.symm.trans hreadw)

theorem readJsonBounded_eq_ok {l : JsonLimits} (hreject : l.duplicateKeys = .reject) {v : JsValue} :
    readJsonBounded text l = .ok v ↔
      ∃ tree, JsonText text tree ∧ Within l 1 tree ∧ Distinct isOwn tree ∧ v = toJs tree := by
  rw [readJsonBounded, map_eq_ok]
  constructor
  · rintro ⟨tree, hread, rfl⟩
    obtain ⟨htext, hallowed⟩ := readTree_eq_ok.mp hread
    exact ⟨tree, htext, hallowed.within l rfl, hallowed.distinct l rfl hreject, rfl⟩
  · rintro ⟨tree, htext, hwithin, hdistinct, rfl⟩
    refine ⟨tree, readTree_eq_ok.mpr ⟨htext, ?_, ?_⟩, rfl⟩
    · intro l' hl
      obtain rfl := Option.some.inj hl
      exact hwithin
    · intro l' hl _
      obtain rfl := Option.some.inj hl
      exact hdistinct

/-! ### What is made of the members -/

theorem assign_new {out : List (Units × JsValue)} (hproto : key ≠ PROTO)
    (hnew : key ∉ out.map (·.1)) (value : JsValue) :
    assign out key value = out ++ [(key, value)] := by
  have hany : ¬out.any (fun member => member.1 == key) = true := by
    rw [List.any_eq_true]
    rintro ⟨member, hmember, heq⟩
    exact hnew (List.mem_map.mpr ⟨member, hmember, eq_of_beq heq⟩)
  rw [assign, if_neg hproto, if_neg hany]

theorem foldl_assign (members : List (Units × JsValue)) : ∀ out : List (Units × JsValue),
    (∀ member ∈ members, member.1 ∉ out.map (·.1)) → ((members.map (·.1)).filter isOwn).Nodup →
      members.foldl (fun out member => assign out member.1 member.2) out =
        out ++ members.filter fun member => isOwn member.1 := by
  induction members with
  | nil => exact fun out _ _ => (List.append_nil out).symm
  | cons member members ih =>
    intro out hnew hnodup
    rw [List.foldl_cons]
    by_cases hproto : member.1 = PROTO
    · have hown : ¬isOwn member.1 = true := by simp [isOwn, hproto]
      rw [List.map_cons, List.filter_cons_of_neg hown] at hnodup
      rw [assign, if_pos hproto, List.filter_cons, if_neg hown,
        ih out (fun m hm => hnew m (List.mem_cons_of_mem _ hm)) hnodup]
    · have hown : isOwn member.1 = true := by simp [isOwn, hproto]
      rw [List.map_cons, List.filter_cons_of_pos hown, List.nodup_cons] at hnodup
      have hrest : ∀ m ∈ members, m.1 ∉ (out ++ [(member.1, member.2)]).map (·.1) := by
        intro m hm hmem
        rw [List.map_append, List.mem_append] at hmem
        obtain hmem | hmem := hmem
        · exact hnew m (List.mem_cons_of_mem _ hm) hmem
        · have heq : m.1 = member.1 := List.mem_singleton.mp hmem
          exact hnodup.1 (List.mem_filter.mpr ⟨List.mem_map.mpr ⟨m, hm, heq⟩, hown⟩)
      rw [assign_new hproto (hnew member List.mem_cons_self), ih _ hrest hnodup.2,
        List.filter_cons, if_pos hown, List.append_assoc]
      rfl

theorem membersToJs_names (members : List (Units × Tree)) :
    (membersToJs members).map (·.1) = members.map (·.1) := by
  induction members with
  | nil => rfl
  | cons member members ih => exact congrArg _ ih

theorem membersDenoted_names (members : List (Units × Tree)) :
    (membersDenoted members).map (·.1) = members.map (·.1) := by
  induction members with
  | nil => rfl
  | cons member members ih => exact congrArg _ ih

theorem toJs_obj (h : ((members.map (·.1)).filter isOwn).Nodup) :
    toJs (.obj members) = .obj ((membersToJs members).filter fun member => isOwn member.1) := by
  rw [← membersToJs_names] at h
  rw [toJs, foldl_assign _ [] (fun _ _ => List.not_mem_nil) h]
  rfl

theorem membersHaveProto_of_mem {member : Units × Tree} (h : member ∈ members)
    (hproto : member.1 = PROTO) : MembersHaveProto members := by
  induction h with
  | head => exact .inl hproto
  | tail _ _ ih => exact .inr (.inr ih)

mutual
theorem toJs_eq_denoted : ∀ v : Tree, Distinct isOwn v → (toJs v = denoted v ↔ ¬HasProto v)
  | .null, _ | .bool _, _ | .num _, _ | .str _, _ => iff_of_true rfl not_false
  | .arr items, h => by
    rw [toJs, denoted, Value.arr.injEq]
    exact itemsToJs_eq_denoted items h
  | .obj members, h => by
    obtain ⟨hnodup, hmembers⟩ := h
    rw [toJs_obj hnodup, denoted, Value.obj.injEq]
    by_cases hnames : ∀ member ∈ members, member.1 ≠ PROTO
    · have hall : ∀ member ∈ membersToJs members, isOwn member.1 = true := by
        intro member hmember
        have hname : member.1 ∈ (membersToJs members).map (·.1) := List.mem_map.mpr ⟨member, hmember, rfl⟩
        rw [membersToJs_names] at hname
        obtain ⟨source, hsource, heq⟩ := List.mem_map.mp hname
        rw [← heq]
        exact bne_iff_ne.mpr (hnames source hsource)
      rw [List.filter_eq_self.mpr hall]
      exact membersToJs_eq_denoted members hmembers hnames
    · refine iff_of_false (fun heq => hnames fun member hmember hproto => ?_) fun hno => hnames ?_
      · have hname : PROTO ∈ (membersDenoted members).map (·.1) := by
          rw [membersDenoted_names]
          exact List.mem_map.mpr ⟨member, hmember, hproto⟩
        rw [← heq] at hname
        obtain ⟨kept, hkept, hproto⟩ := List.mem_map.mp hname
        have hown := (List.mem_filter.mp hkept).2
        exact bne_iff_ne.mp hown hproto
      · exact fun member hmember hproto => hno (membersHaveProto_of_mem hmember hproto)

theorem itemsToJs_eq_denoted : ∀ items : List Tree, ItemsDistinct isOwn items →
    (itemsToJs items = itemsDenoted items ↔ ¬ItemsHaveProto items)
  | [], _ => iff_of_true rfl not_false
  | v :: rest, h => by
    rw [itemsToJs, itemsDenoted, List.cons.injEq, ItemsHaveProto, not_or, toJs_eq_denoted v h.1,
      itemsToJs_eq_denoted rest h.2]

theorem membersToJs_eq_denoted : ∀ members : List (Units × Tree), MembersDistinct isOwn members →
    (∀ member ∈ members, member.1 ≠ PROTO) →
      (membersToJs members = membersDenoted members ↔ ¬MembersHaveProto members)
  | [], _, _ => iff_of_true rfl not_false
  | (key, v) :: rest, h, hnames => by
    have hkey : key ≠ PROTO := hnames _ List.mem_cons_self
    rw [membersToJs, membersDenoted, List.cons.injEq, MembersHaveProto, Prod.mk.injEq, not_or, not_or,
      toJs_eq_denoted v h.1,
      membersToJs_eq_denoted rest h.2 fun m hm => hnames m (List.mem_cons_of_mem _ hm)]
    exact ⟨fun ⟨⟨_, hv⟩, hrest⟩ => ⟨hkey, hv, hrest⟩, fun ⟨_, hv, hrest⟩ => ⟨⟨rfl, hv⟩, hrest⟩⟩
end

mutual
theorem distinct_own : ∀ v : Tree, Distinct (fun _ => true) v → Distinct isOwn v
  | .null, _ | .bool _, _ | .num _, _ | .str _, _ => trivial
  | .arr items, h => itemsDistinct_own items h
  | .obj members, h => by
    obtain ⟨hnodup, hmembers⟩ := h
    rw [List.filter_eq_self.mpr fun _ _ => rfl] at hnodup
    exact ⟨hnodup.filter _, membersDistinct_own members hmembers⟩

theorem itemsDistinct_own : ∀ items : List Tree, ItemsDistinct (fun _ => true) items → ItemsDistinct isOwn items
  | [], _ => trivial
  | v :: rest, h => ⟨distinct_own v h.1, itemsDistinct_own rest h.2⟩

theorem membersDistinct_own : ∀ members : List (Units × Tree), MembersDistinct (fun _ => true) members →
    MembersDistinct isOwn members
  | [], _ => trivial
  | (_, v) :: rest, h => ⟨distinct_own v h.1, membersDistinct_own rest h.2⟩
end

mutual
theorem distinct_of_own : ∀ v : Tree, ¬HasProto v → Distinct isOwn v → Distinct (fun _ => true) v
  | .null, _, _ | .bool _, _, _ | .num _, _, _ | .str _, _, _ => trivial
  | .arr items, hno, h => itemsDistinct_of_own items hno h
  | .obj members, hno, h => by
    obtain ⟨hnodup, hmembers⟩ := h
    have hall : ∀ name ∈ members.map (·.1), isOwn name = true := by
      intro name hname
      obtain ⟨member, hmember, rfl⟩ := List.mem_map.mp hname
      exact bne_iff_ne.mpr fun hproto => hno (membersHaveProto_of_mem hmember hproto)
    rw [List.filter_eq_self.mpr hall] at hnodup
    exact ⟨hnodup.filter _, membersDistinct_of_own members hno hmembers⟩

theorem itemsDistinct_of_own : ∀ items : List Tree, ¬ItemsHaveProto items → ItemsDistinct isOwn items →
    ItemsDistinct (fun _ => true) items
  | [], _, _ => trivial
  | v :: rest, hno, h => ⟨distinct_of_own v (fun hv => hno (.inl hv)) h.1,
      itemsDistinct_of_own rest (fun hrest => hno (.inr hrest)) h.2⟩

theorem membersDistinct_of_own : ∀ members : List (Units × Tree), ¬MembersHaveProto members →
    MembersDistinct isOwn members → MembersDistinct (fun _ => true) members
  | [], _, _ => trivial
  | (_, v) :: rest, hno, h => ⟨distinct_of_own v (fun hv => hno (.inr (.inl hv))) h.1,
      membersDistinct_of_own rest (fun hrest => hno (.inr (.inr hrest))) h.2⟩
end

/-! ### Reading exactly -/

/-- A value is returned where the text is a JSON text within the limits without duplicates, and it is then
what the text denotes. -/
def ReadsExactly (l : JsonLimits) (text : List Char) : Prop :=
  ∀ v, readJsonBounded text l = .ok v ↔
    ∃ tree, JsonText text tree ∧ Within l 1 tree ∧ Distinct (fun _ => true) tree ∧ v = denoted tree

/-- A text that is read, of which some object has a member named `__proto__`. -/
def ReadsProto (l : JsonLimits) (text : List Char) : Prop :=
  ∃ tree, JsonText text tree ∧ Within l 1 tree ∧ Distinct isOwn tree ∧ HasProto tree

theorem chars_of_plain {word : List Char} (h : ∀ c ∈ word, c ≠ '"' ∧ c ≠ '\\' ∧ 0x20 ≤ c.toNat) (rest : List Char) :
    Chars (word ++ '"' :: rest) (word.flatMap unitsOf) rest := by
  induction word with
  | nil => exact .close rest
  | cons c word ih =>
    obtain ⟨hquote, hslash, hcontrol⟩ := h c List.mem_cons_self
    exact .plain hquote hslash hcontrol (ih fun d hd => h d (List.mem_cons_of_mem _ hd))

end Apim.JsonReader
