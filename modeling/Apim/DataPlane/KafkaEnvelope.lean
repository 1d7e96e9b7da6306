import Apim.DataPlane.JsonWriter

/-!
# The record a body is produced as

`kafkaProduce` (`data-plane/src/pipeline.ts:1260-1302`) reads the body into a JavaScript value and writes
the value into an envelope. Both texts are compared as trees, whose numbers and names are exact
(`SameAt`).
-/

namespace Apim.KafkaEnvelope
open DataPlane (JsonLimits)
open JsonReader JsNumber

/-! ### The envelope -/

def envelope (data : JsValue) : JsValue :=
  .obj [(units "value", .obj [(units "type", .str (units "JSON")), (units "data", data)])]

/-- The body of the produce request (`data-plane/src/pipeline.ts:1285-1298`). -/
def produced (text : List Char) (limits : JsonLimits) : Except JsonError (List Char) :=
  (readJsonBounded text limits).map fun data => stringify (envelope data)

/-! ### What a document has -/

def lookup {α : Type} (key : Units) : List (Units × α) → Option α
  | [] => none
  | (name, v) :: rest => (lookup key rest).or (if name = key then some v else none)

def child {ν : Type} : Value ν → Step → Option (Value ν)
  | .arr items, .index i => items[i]?
  | .obj members, .name key => lookup key members
  | _, _ => none

def valueAt {ν : Type} (v : Value ν) : List Step → Option (Value ν)
  | [] => some v
  | step :: path => (child v step).bind fun w => valueAt w path

inductive Shape where
  | null
  | bool (b : Bool)
  | num (q : Rat)
  | str (s : Units)
  | arr (length : Nat)
  | obj
  deriving DecidableEq, Repr

def shape : Tree → Shape
  | .null => .null
  | .bool b => .bool b
  | .num n => .num n.value
  | .str s => .str s
  | .arr items => .arr items.length
  | .obj _ => .obj

def shapeAt (t : Tree) (path : List Step) : Option Shape := (valueAt t path).map shape

def SameAt (document : Tree) (place : List Step) (t : Tree) : Prop :=
  ∀ path, shapeAt document (place ++ path) = shapeAt t path

def dataPlace : List Step := [.name (units "value"), .name (units "data")]

/-- No member the document has is called `__proto__`, and every number is the shortest decimal of its
double. -/
def Carried (t : Tree) : Prop :=
  ∀ path v, valueAt t path = some v → Step.name PROTO ∉ path ∧ ∀ q, shape v = .num q → Kept q

theorem valueAt_append {ν : Type} (v : Value ν) (front back : List Step) :
    valueAt v (front ++ back) = (valueAt v front).bind fun w => valueAt w back := by
  induction front generalizing v with
  | nil => rfl
  | cons step front ih =>
    rw [List.cons_append, valueAt, valueAt]
    cases child v step with
    | none => rfl
    | some w => exact ih w

/-! ### Without limits -/

theorem not_exceeds (bound : JsonLimits → Nat) (n : Nat) : ¬exceeds none bound n = true :=
  Bool.false_ne_true

theorem not_isDuplicate (own : List Units) (key : Units) : ¬isDuplicate none own key = true := by
  rw [isDuplicate, Option.any_none, Bool.and_false]
  exact Bool.false_ne_true

theorem map_ok {α β : Type} {x y : Except JsonError α} {f : α → β} {r : β}
    (h : ∀ a, x = .ok a → y = .ok a) (hx : x.map f = .ok r) : y.map f = .ok r := by
  cases hread : x with
  | error e => rw [hread] at hx; cases hx
  | ok a =>
    rw [hread] at hx
    rw [h a hread]
    exact hx

theorem bind_ok {α β : Type} {x y : Except JsonError α} {f g : α → Except JsonError β} {r : β}
    (h : ∀ a, x = .ok a → y = .ok a) (hf : ∀ a, f a = .ok r → g a = .ok r)
    (hx : (x >>= f) = .ok r) : (y >>= g) = .ok r := by
  cases hread : x with
  | error e => rw [hread] at hx; cases hx
  | ok a =>
    rw [hread] at hx
    rw [h a hread]
    exact hf a hx

theorem read_relax (limits : Option JsonLimits) (fuel : Nat) :
    (∀ depth path text r, readValue limits fuel depth path text = .ok r →
      readValue none fuel depth path text = .ok r) ∧
    (∀ depth path count text r, readItems limits fuel depth path count text = .ok r →
      readItems none fuel depth path count text = .ok r) ∧
    ∀ depth path own keys text r, readMembers limits fuel depth path own keys text = .ok r →
      readMembers none fuel depth path own keys text = .ok r := by
  induction fuel with
  | zero =>
    refine ⟨fun _ _ _ _ h => ?_, fun _ _ _ _ _ h => ?_, fun _ _ _ _ _ _ h => ?_⟩
    · rw [readValue] at h
      cases h
    · rw [readItems] at h
      cases h
    · rw [readMembers] at h
      cases h
  | succ fuel ih =>
    obtain ⟨ihValue, ihItems, ihMembers⟩ := ih
    refine ⟨?_, ?_, ?_⟩
    · intro depth path text r h
      rw [readValue] at h ⊢
      rw [if_neg (not_exceeds _ _)]
      split at h
      · cases h
      · revert h
        cases skipWs text with
        | nil => exact id
        | cons c rest =>
          dsimp only
          split
          · exact id
          split
          · exact id
          split
          · exact id
          split
          · exact id
          split
          · exact id
          split
          · split
            · exact id
            · exact map_ok (ihItems _ _ _ _)
          split
          · split
            · exact id
            · exact map_ok (ihMembers _ _ _ _ _)
          · exact id
    · intro depth path count text r h
      rw [readItems] at h ⊢
      rw [if_neg (not_exceeds _ _)]
      split at h
      · cases h
      · refine bind_ok (ihValue _ _ _) ?_ h
        rintro ⟨v, rest⟩
        dsimp only
        cases skipWs rest with
        | nil => exact id
        | cons c rest =>
          dsimp only
          split
          · exact bind_ok (ihItems _ _ _ _) fun _ => id
          · exact id
    · intro depth path own keys text r h
      rw [readMembers] at h ⊢
      split at h
      · cases h
      · next hquote =>
        rw [if_neg hquote]
        refine bind_ok (fun _ => id) ?_ h
        rintro ⟨key, rest⟩ h
        dsimp only at h ⊢
        rw [if_neg (not_exceeds _ _), if_neg (not_isDuplicate _ _)]
        split at h
        · cases h
        split at h
        · cases h
        · revert h
          split
          · exact id
          · refine bind_ok (ihValue _ _ _) ?_
            rintro ⟨v, rest⟩
            dsimp only
            cases skipWs rest with
            | nil => exact id
            | cons c rest =>
              dsimp only
              split
              · exact bind_ok (ihMembers _ _ _ _ _) fun _ => id
              · exact id

theorem readTree_relax {limits : Option JsonLimits} {text : List Char} {t : Tree}
    (h : readTree limits text = .ok t) : readTree none text = .ok t :=
  bind_ok ((read_relax limits _).1 _ _ _) (fun _ => id) h

/-! ### From text to value to text -/

theorem lookup_map {α β : Type} (f : α → β) (key : Units) (members : List (Units × α)) :
    lookup key (members.map fun member => (member.1, f member.2)) = (lookup key members).map f := by
  induction members with
  | nil => rfl
  | cons member rest ih =>
    rw [List.map_cons, lookup, lookup, ih]
    cases lookup key rest with
    | some v => rfl
    | none =>
      show (if member.1 = key then _ else _) = (if member.1 = key then _ else _ : Option α).map f
      split <;> rfl

theorem lookup_append {α : Type} (key : Units) (front back : List (Units × α)) :
    lookup key (front ++ back) = (lookup key back).or (lookup key front) := by
  induction front with
  | nil => exact Option.or_none.symm
  | cons member rest ih => rw [List.cons_append, lookup, lookup, ih, Option.or_assoc]

theorem lookup_replaced {members : List (Units × JsValue)} (key name : Units) (value : JsValue)
    (h : members.any (fun member => member.1 == name) = true) :
    lookup key (members.map fun member => if member.1 = name then (name, value) else member) =
      if name = key then some value else lookup key members := by
  have hreplaced : ∀ members : List (Units × JsValue),
      lookup key (members.map fun member => if member.1 = name then (name, value) else member) =
        if name = key then (lookup key members).map fun _ => value else lookup key members := by
    intro members
    induction members with
    | nil => exact (ite_self _).symm
    | cons member rest ih =>
      rw [List.map_cons, lookup, lookup, ih]
      by_cases hname : member.1 = name <;> by_cases hkey : name = key <;>
        cases lookup key rest <;> grind
  rw [hreplaced]
  split
  · next hkey =>
    subst hkey
    have hsome : (lookup name members).isSome = true := by
      induction members with
      | nil => cases h
      | cons member rest ih =>
        rw [List.any_cons, Bool.or_eq_true, beq_iff_eq] at h
        rw [lookup, Option.isSome_or, Bool.or_eq_true]
        rcases h with hname | hrest
        · rw [if_pos hname]
          exact Or.inr rfl
        · exact Or.inl (ih hrest)
    obtain ⟨v, hv⟩ := Option.isSome_iff_exists.mp hsome
    rw [hv]
    rfl
  · rfl

theorem lookup_assign (members : List (Units × JsValue)) (key name : Units) (value : JsValue) :
    lookup key (assign members name value) =
      if name = key ∧ name ≠ PROTO then some value else lookup key members := by
  rw [assign]
  by_cases hproto : name = PROTO
  · rw [if_pos hproto, if_neg fun h => h.2 hproto]
  · rw [if_neg hproto]
    have hname : (if name = key ∧ name ≠ PROTO then some value else lookup key members) =
        if name = key then some value else lookup key members :=
      if_congr (and_iff_left hproto) rfl rfl
    rw [hname]
    split
    · next hany => exact lookup_replaced key name value hany
    · rw [lookup_append]
      show (if name = key then some value else none).or (lookup key members) = _
      split <;> rfl

theorem lookup_foldl_assign (members out : List (Units × JsValue)) (key : Units) :
    lookup key (members.foldl (fun out member => assign out member.1 member.2) out) =
      if key = PROTO then lookup key out else (lookup key members).or (lookup key out) := by
  induction members generalizing out with
  | nil =>
    show lookup key out = if key = PROTO then lookup key out else lookup key out
    rw [ite_self]
  | cons member rest ih =>
    rw [List.foldl_cons, ih, lookup_assign, lookup]
    by_cases hproto : key = PROTO
    · rw [if_pos hproto, if_pos hproto, if_neg]
      exact fun h => h.2 (h.1.trans hproto)
    · rw [if_neg hproto, if_neg hproto, Option.or_assoc]
      by_cases hname : member.1 = key
      · rw [if_pos ⟨hname, fun h => hproto (hname.symm.trans h)⟩, if_pos hname]
        rfl
      · rw [if_neg fun h => hname h.1, if_neg hname]
        rfl

theorem itemsPrinted_eq (items : List JsValue) : itemsPrinted items = items.map printed := by
  induction items with
  | nil => rfl
  | cons v rest ih => rw [itemsPrinted, ih, List.map_cons]

theorem membersPrinted_eq (members : List (Units × JsValue)) :
    membersPrinted members = members.map fun member => (member.1, printed member.2) := by
  induction members with
  | nil => rfl
  | cons member rest ih => rw [membersPrinted, ih, List.map_cons]

theorem itemsToJs_eq (items : List Tree) : itemsToJs items = items.map toJs := by
  induction items with
  | nil => rfl
  | cons v rest ih => rw [itemsToJs, ih, List.map_cons]

theorem membersToJs_eq (members : List (Units × Tree)) :
    membersToJs members = members.map fun member => (member.1, toJs member.2) := by
  induction members with
  | nil => rfl
  | cons member rest ih => rw [membersToJs, ih, List.map_cons]

theorem child_printed (v : JsValue) (step : Step) : child (printed v) step = (child v step).map printed := by
  cases v with
  | null => cases step <;> rfl
  | bool b => cases step <;> rfl
  | num n => cases n <;> cases step <;> rfl
  | str s => cases step <;> rfl
  | arr items =>
    cases step with
    | index i =>
      show (itemsPrinted items)[i]? = items[i]?.map printed
      rw [itemsPrinted_eq, List.getElem?_map]
    | name key => rfl
  | obj members =>
    cases step with
    | index i => rfl
    | name key =>
      show lookup key (membersPrinted members) = (lookup key members).map printed
      rw [membersPrinted_eq, lookup_map]

theorem child_toJs (t : Tree) (step : Step) :
    child (toJs t) step = if step = .name PROTO then none else (child t step).map toJs := by
  cases t with
  | null => cases step <;> exact (ite_self _).symm
  | bool b => cases step <;> exact (ite_self _).symm
  | num n => cases step <;> exact (ite_self _).symm
  | str s => cases step <;> exact (ite_self _).symm
  | arr items =>
    cases step with
    | index i =>
      show (itemsToJs items)[i]? = if Step.index i = .name PROTO then none else items[i]?.map toJs
      rw [itemsToJs_eq, List.getElem?_map, if_neg nofun]
    | name key => exact (ite_self _).symm
  | obj members =>
    cases step with
    | index i => exact (ite_self _).symm
    | name key =>
      show lookup key ((membersToJs members).foldl (fun out member => assign out member.1 member.2) []) =
        if Step.name key = .name PROTO then none else (lookup key members).map toJs
      rw [lookup_foldl_assign, membersToJs_eq, lookup_map]
      by_cases hproto : key = PROTO
      · rw [if_pos hproto, if_pos (by rw [hproto])]
        rfl
      · rw [if_neg hproto, if_neg (fun h => hproto (Step.name.inj h))]
        exact Option.or_none

theorem valueAt_printed (v : JsValue) (path : List Step) :
    valueAt (printed v) path = (valueAt v path).map printed := by
  induction path generalizing v with
  | nil => rfl
  | cons step path ih =>
    rw [valueAt, valueAt, child_printed]
    cases child v step with
    | none => rfl
    | some w => exact ih w

theorem valueAt_toJs (t : Tree) (path : List Step) :
    valueAt (toJs t) path = if .name PROTO ∈ path then none else (valueAt t path).map toJs := by
  induction path generalizing t with
  | nil => rfl
  | cons step path ih =>
    rw [valueAt, valueAt, child_toJs]
    by_cases hstep : step = .name PROTO
    · rw [if_pos hstep, if_pos (by rw [hstep]; exact List.mem_cons_self)]
      rfl
    · rw [if_neg hstep]
      have hmem : Step.name PROTO ∈ step :: path ↔ Step.name PROTO ∈ path := by
        rw [List.mem_cons]
        exact ⟨fun h => h.resolve_left fun heq => hstep heq.symm, Or.inr⟩
      rw [if_congr hmem rfl rfl]
      cases child t step with
      | none => exact (ite_self _).symm
      | some w => exact ih w

def reshaped : Shape → Shape
  | .num q => ((ofRat q).shown.map Shape.num).getD .null
  | s => s

theorem shape_printed_toJs (t : Tree) : shape (printed (toJs t)) = reshaped (shape t) := by
  cases t with
  | null => rfl
  | bool b => rfl
  | num n =>
    show shape (printed (.num (ofRat n.value))) = ((ofRat n.value).shown.map Shape.num).getD .null
    cases ofRat n.value <;> rfl
  | str s => rfl
  | arr items =>
    show Shape.arr (itemsPrinted (itemsToJs items)).length = .arr items.length
    rw [itemsPrinted_eq, itemsToJs_eq, List.length_map, List.length_map]
  | obj members => rfl

theorem shapeAt_printed_toJs (t : Tree) (path : List Step) : shapeAt (printed (toJs t)) path =
    if .name PROTO ∈ path then none else (shapeAt t path).map reshaped := by
  rw [shapeAt, valueAt_printed, valueAt_toJs]
  split
  · rfl
  · rw [shapeAt, Option.map_map, Option.map_map, Option.map_map]
    exact congrArg (fun f => (valueAt t path).map f) (funext shape_printed_toJs)

theorem reshaped_eq_iff (s : Shape) : reshaped s = s ↔ ∀ q, s = .num q → Kept q := by
  cases s with
  | num q =>
    have hkept : reshaped (.num q) = .num q ↔ (ofRat q).shown = some q := by
      rw [reshaped]
      cases (ofRat q).shown with
      | none => exact ⟨nofun, nofun⟩
      | some r => exact ⟨fun h => congrArg some (Shape.num.inj h), fun h => congrArg Shape.num (Option.some.inj h)⟩
    rw [hkept]
    exact ⟨fun h r hr => Shape.num.inj hr ▸ h, fun h => h q rfl⟩
  | null => exact ⟨fun _ => nofun, fun _ => rfl⟩
  | bool b => exact ⟨fun _ => nofun, fun _ => rfl⟩
  | str s => exact ⟨fun _ => nofun, fun _ => rfl⟩
  | arr length => exact ⟨fun _ => nofun, fun _ => rfl⟩
  | obj => exact ⟨fun _ => nofun, fun _ => rfl⟩

theorem sameAt_printed_toJs (t : Tree) : SameAt (printed (toJs t)) [] t ↔ Carried t := by
  refine forall_congr' fun path => ?_
  rw [List.nil_append, shapeAt_printed_toJs, shapeAt]
  cases valueAt t path with
  | none => exact ⟨fun _ => nofun, fun _ => ite_self _⟩
  | some v =>
    show (if Step.name PROTO ∈ path then none else some (reshaped (shape v))) = some (shape v) ↔ _
    split
    · next hproto => exact ⟨nofun, fun h => absurd hproto (h v rfl).1⟩
    · next hproto =>
      refine ⟨fun h w hw => ⟨hproto, ?_⟩, fun h => ?_⟩
      · rw [← Option.some.inj hw, ← reshaped_eq_iff]
        exact Option.some.inj h
      · rw [(reshaped_eq_iff (shape v)).mpr (h v rfl).2]

theorem valueAt_envelope (v : JsValue) : valueAt (printed (envelope v)) dataPlace = some (printed v) := by
  rw [valueAt_printed]
  rfl

/-! ### The record -/

theorem produced_of_read {text : List Char} {limits : JsonLimits} {body : Tree}
    (h : readTree (some limits) text = .ok body) :
    produced text limits = .ok (stringify (envelope (toJs body))) := by
  rw [produced, readJsonBounded, h]
  rfl

theorem shapeAt_record (body : Tree) (path : List Step) :
    shapeAt (printed (envelope (toJs body))) (dataPlace ++ path) = shapeAt (printed (toJs body)) path := by
  rw [shapeAt, valueAt_append, valueAt_envelope]
  rfl

def usual : JsonLimits := DataPlane.jsonLimitsOf {}

end Apim.KafkaEnvelope
