import Mathlib.Data.List.Forall2

/-!
# Truth values of checks that may be given up

An evaluation over some kind of truth values is evaluated over three of them here: over Booleans, where what
is given up counts as false; over Kleene's values, where it has no value; and over the latter with two marks
that say how far the Boolean can be trusted. Whatever evaluation it is, its values correspond (`Related`),
so the marks of the whole are right where those of its parts are (`trusted`).
-/

namespace Apim.Truth

/-- Truth values of a kind. -/
class Values (T : Type) where
  ofBool : Bool → T
  /-- A check that is given up, and its outcome where it has one. -/
  refused : Option Bool → T
  both : T → T → T
  /-- The second is looked at where the first is not true. -/
  either : T → T → T
  neg : T → T
  branch : T → T → T → T
  /-- At least so many are true. -/
  atLeast : Nat → List T → T

export Values (ofBool refused both either neg branch atLeast)

section
variable {T : Type} [Values T]

def all (values : List T) : T := values.foldr both (ofBool true)

def any (values : List T) : T := values.foldr either (ofBool false)

end

/-! ### Three kinds -/

/-- What is given up counts as false. -/
instance : Values Bool where
  ofBool b := b
  refused _ := false
  both := and
  either := or
  neg := not
  branch c a b := if c then a else b
  atLeast n values := n ≤ values.countP id

instance : Values (Option Bool) where
  ofBool := some
  refused b := b
  both
    | some false, _ => some false
    | _, some false => some false
    | some true, some true => some true
    | _, _ => none
  either
    | some true, _ => some true
    | _, some true => some true
    | some false, some false => some false
    | _, _ => none
  neg := Option.map not
  branch
    | some true, a, _ => a
    | some false, _, b => b
    | none, _, _ => none
  atLeast n values :=
    if n ≤ values.countP (· = some true) then some true
    else if values.countP (· ≠ some false) < n then some false
    else none

/-- A value, and whether the Boolean may be trusted where it is true, and where it is false. -/
structure Marked where
  value : Option Bool
  sound : Bool
  complete : Bool
  deriving DecidableEq, Repr

def Marked.exact (m : Marked) : Bool := m.sound && m.complete

instance : Values Marked where
  ofBool b := ⟨some b, true, true⟩
  refused b := ⟨b, true, b = some false⟩
  both a b := ⟨both a.value b.value, a.sound && b.sound, a.complete && b.complete⟩
  either a b :=
    if a.value = some true then a
    else ⟨either a.value b.value, a.sound && b.sound, a.complete && b.complete⟩
  -- what is false may be trusted under a negation where it may be trusted as true
  neg a := ⟨neg a.value, a.complete, a.sound⟩
  branch c a b :=
    match c.value with
    | some true => ⟨a.value, c.exact && a.sound, c.exact && a.complete⟩
    | some false => ⟨b.value, c.exact && b.sound, c.exact && b.complete⟩
    | none => ⟨none, false, false⟩
  atLeast n values := ⟨atLeast n (values.map (·.value)), values.all (·.sound), values.all (·.complete)⟩

/-! ### Values that correspond -/

/-- A relation that the operations respect. -/
structure Related {T U : Type} [Values T] [Values U] (R : T → U → Prop) : Prop where
  ofBool : ∀ b, R (ofBool b) (ofBool b)
  refused : ∀ b, R (refused b) (refused b)
  both : ∀ {x y x' y'}, R x x' → R y y' → R (both x y) (both x' y')
  either : ∀ {x y x' y'}, R x x' → R y y' → R (either x y) (either x' y')
  neg : ∀ {x x'}, R x x' → R (neg x) (neg x')
  branch : ∀ {c x y c' x' y'}, R c c' → R x x' → R y y' → R (branch c x y) (branch c' x' y')
  atLeast : ∀ n {values values'}, List.Forall₂ R values values' → R (atLeast n values) (atLeast n values')

namespace Related
variable {T U : Type} [Values T] [Values U] {R : T → U → Prop}

theorem all (h : Related R) {values : List T} {values' : List U} (hvalues : List.Forall₂ R values values') :
    R (all values) (all values') := by
  induction hvalues with
  | nil => exact h.ofBool true
  | cons hfirst _ ih => exact h.both hfirst ih

theorem any (h : Related R) {values : List T} {values' : List U} (hvalues : List.Forall₂ R values values') :
    R (any values) (any values') := by
  induction hvalues with
  | nil => exact h.ofBool false
  | cons hfirst _ ih => exact h.either hfirst ih

end Related

/-- The marks of a Boolean are right. -/
def Trusted (b : Bool) (m : Marked) : Prop :=
  (m.sound = true → b = true → m.value = some true) ∧ (m.complete = true → b = false → m.value = some false)

theorem Trusted.of_exact {b : Bool} {m : Marked} (h : Trusted b m) (hexact : m.exact = true) :
    m.value = some b := by
  obtain ⟨hsound, hcomplete⟩ := Bool.and_eq_true_iff.mp hexact
  cases b with
  | true => exact h.1 hsound rfl
  | false => exact h.2 hcomplete rfl

theorem Trusted.under {c m : Marked} {b : Bool} (h : c.exact = true → Trusted b m) :
    Trusted b ⟨m.value, c.exact && m.sound, c.exact && m.complete⟩ := by
  constructor
  · intro hsound htrue
    obtain ⟨hexact, hm⟩ := Bool.and_eq_true_iff.mp hsound
    exact (h hexact).1 hm htrue
  · intro hcomplete hfalse
    obtain ⟨hexact, hm⟩ := Bool.and_eq_true_iff.mp hcomplete
    exact (h hexact).2 hm hfalse

/-- Of Booleans that may be trusted where they are true, no more are true than of the values. -/
theorem countP_le_of_sound {bools : List Bool} {marked : List Marked} (h : List.Forall₂ Trusted bools marked)
    (hsound : marked.all (·.sound) = true) :
    bools.countP id ≤ (marked.map (·.value)).countP (· = some true) := by
  induction h with
  | nil => exact Nat.le_refl _
  | @cons b m bools marked hfirst _ ih =>
    obtain ⟨hm, hmarked⟩ := Bool.and_eq_true_iff.mp hsound
    rw [List.map_cons, List.countP_cons, List.countP_cons]
    refine Nat.add_le_add (ih hmarked) ?_
    cases b with
    | true => rw [hfirst.1 hm rfl]; decide
    | false => exact Nat.zero_le _

theorem le_countP_of_complete {bools : List Bool} {marked : List Marked}
    (h : List.Forall₂ Trusted bools marked) (hcomplete : marked.all (·.complete) = true) :
    (marked.map (·.value)).countP (· ≠ some false) ≤ bools.countP id := by
  induction h with
  | nil => exact Nat.le_refl _
  | @cons b m bools marked hfirst _ ih =>
    obtain ⟨hm, hmarked⟩ := Bool.and_eq_true_iff.mp hcomplete
    rw [List.map_cons, List.countP_cons, List.countP_cons]
    refine Nat.add_le_add (ih hmarked) ?_
    cases b with
    | true => split <;> decide
    | false => rw [hfirst.2 hm rfl]; decide

theorem countP_true_le (values : List (Option Bool)) :
    values.countP (· = some true) ≤ values.countP (· ≠ some false) := by
  refine List.countP_mono_left fun v _ h => ?_
  rw [decide_eq_true_eq] at h ⊢
  rw [h]
  decide

theorem trusted : Related Trusted where
  ofBool b := by
    cases b with
    | true => exact ⟨fun _ _ => rfl, fun _ h => (nomatch h)⟩
    | false => exact ⟨fun _ h => (nomatch h), fun _ _ => rfl⟩
  refused b := by
    refine ⟨fun _ h => (nomatch h), fun hcomplete _ => ?_⟩
    exact of_decide_eq_true hcomplete
  both {x y x' y'} hx hy := by
    constructor
    · intro hsound htrue
      obtain ⟨hx', hy'⟩ := Bool.and_eq_true_iff.mp hsound
      obtain ⟨rfl, rfl⟩ := Bool.and_eq_true_iff.mp htrue
      show both x'.value y'.value = _
      rw [hx.1 hx' rfl, hy.1 hy' rfl]
      rfl
    · intro hcomplete hfalse
      obtain ⟨hx', hy'⟩ := Bool.and_eq_true_iff.mp hcomplete
      show both x'.value y'.value = _
      obtain rfl | rfl := Bool.and_eq_false_iff.mp hfalse
      · rw [hx.2 hx' rfl]
        rfl
      · rw [hy.2 hy' rfl]
        rcases x'.value with _ | _ | _ <;> rfl
  either {x y x' y'} hx hy := by
    show Trusted (x || y) (if x'.value = some true then x' else _)
    split
    next hvalue =>
      refine ⟨fun _ _ => hvalue, fun hcomplete hfalse => ?_⟩
      obtain ⟨rfl, -⟩ := Bool.or_eq_false_iff.mp hfalse
      exact hx.2 hcomplete rfl
    next =>
      constructor
      · intro hsound htrue
        obtain ⟨hx', hy'⟩ := Bool.and_eq_true_iff.mp hsound
        show either x'.value y'.value = _
        obtain rfl | rfl := Bool.or_eq_true_iff.mp htrue
        · rw [hx.1 hx' rfl]
          rfl
        · rw [hy.1 hy' rfl]
          rcases x'.value with _ | _ | _ <;> rfl
      · intro hcomplete hfalse
        obtain ⟨hx', hy'⟩ := Bool.and_eq_true_iff.mp hcomplete
        obtain ⟨rfl, rfl⟩ := Bool.or_eq_false_iff.mp hfalse
        show either x'.value y'.value = _
        rw [hx.2 hx' rfl, hy.2 hy' rfl]
        rfl
  neg {x x'} hx := by
    constructor
    · intro hcomplete htrue
      obtain rfl := Bool.not_eq_true' x ▸ htrue
      show neg x'.value = _
      rw [hx.2 hcomplete rfl]
      rfl
    · intro hsound hfalse
      obtain rfl := Bool.not_eq_false' x ▸ hfalse
      show neg x'.value = _
      rw [hx.1 hsound rfl]
      rfl
  branch {c x y c' x' y'} hc hx hy := by
    have hsame : ∀ {b}, c'.value = some b → c'.exact = true → c = b := by
      intro b hvalue hexact
      exact Option.some.inj ((hc.of_exact hexact).symm.trans hvalue)
    show Trusted (if c then x else y) (match c'.value with
      | some true => ⟨x'.value, c'.exact && x'.sound, c'.exact && x'.complete⟩
      | some false => ⟨y'.value, c'.exact && y'.sound, c'.exact && y'.complete⟩
      | none => ⟨none, false, false⟩)
    rcases hvalue : c'.value with _ | _ | _
    · exact ⟨nofun, nofun⟩
    · refine .under fun hexact => ?_
      rw [hsame hvalue hexact]
      exact hy
    · refine .under fun hexact => ?_
      rw [hsame hvalue hexact]
      exact hx
  atLeast n {bools marked} h := by
    constructor
    · intro hsound htrue
      have hle := countP_le_of_sound h hsound
      have hn : n ≤ bools.countP id := of_decide_eq_true htrue
      exact if_pos (Nat.le_trans hn hle)
    · intro hcomplete hfalse
      have hle := le_countP_of_complete h hcomplete
      have hn : ¬n ≤ bools.countP id := of_decide_eq_false hfalse
      have hfew := countP_true_le (marked.map (·.value))
      show (if _ then _ else if _ then _ else _) = _
      rw [if_neg (by omega), if_pos (by omega)]

/-- The values under the marks are Kleene's. -/
theorem value_marked : Related fun (v : Option Bool) (m : Marked) => m.value = v where
  ofBool _ := rfl
  refused _ := rfl
  both hx hy := by
    rw [← hx, ← hy]
    rfl
  either {x y x' y'} hx hy := by
    subst hx hy
    show (if x'.value = some true then x' else _).value = _
    split
    next hvalue =>
      rw [hvalue]
      rfl
    next => rfl
  neg hx := by
    rw [← hx]
    rfl
  branch {c x y c' x' y'} hc hx hy := by
    subst hc hx hy
    show (match c'.value with
      | some true => (⟨x'.value, c'.exact && x'.sound, c'.exact && x'.complete⟩ : Marked)
      | some false => ⟨y'.value, c'.exact && y'.sound, c'.exact && y'.complete⟩
      | none => ⟨none, false, false⟩).value = _
    rcases c'.value with _ | _ | _ <;> rfl
  atLeast n {values marked} h := by
    have heq : marked.map (·.value) = values := by
      induction h with
      | nil => rfl
      | cons hfirst _ ih => rw [List.map_cons, hfirst, ih]
    show atLeast n (marked.map (·.value)) = _
    rw [heq]

/-! ### More is known further on -/

/-- A value stays what it is. -/
def Below (v w : Option Bool) : Prop := v = none ∨ v = w

theorem Below.refl (v : Option Bool) : Below v v := .inr rfl

theorem Below.eq_some {v w : Option Bool} (h : Below v w) {b : Bool} (hv : v = some b) : w = some b := by
  obtain rfl | rfl := h
  · cases hv
  · exact hv

theorem countP_below {values values' : List (Option Bool)} (h : List.Forall₂ Below values values') :
    values.countP (· = some true) ≤ values'.countP (· = some true) ∧
      values'.countP (· ≠ some false) ≤ values.countP (· ≠ some false) := by
  induction h with
  | nil => exact ⟨Nat.le_refl _, Nat.le_refl _⟩
  | @cons v w _ _ hfirst _ ih =>
    simp only [List.countP_cons]
    obtain rfl | rfl := hfirst
    · refine ⟨Nat.add_le_add ih.1 (Nat.zero_le _), Nat.add_le_add ih.2 ?_⟩
      split <;> decide
    · exact ⟨Nat.add_le_add_right ih.1 _, Nat.add_le_add_right ih.2 _⟩

theorem below : Related Below where
  ofBool _ := .refl _
  refused _ := .refl _
  both {x y x' y'} hx hy := by
    obtain rfl | rfl := hx <;> obtain rfl | rfl := hy
    · exact .inl rfl
    · rcases y with _ | _ | _
      · exact .inl rfl
      · right
        rcases x' with _ | _ | _ <;> rfl
      · exact .inl rfl
    · rcases x with _ | _ | _
      · exact .inl rfl
      · exact .inr rfl
      · exact .inl rfl
    · exact .refl _
  either {x y x' y'} hx hy := by
    obtain rfl | rfl := hx <;> obtain rfl | rfl := hy
    · exact .inl rfl
    · rcases y with _ | _ | _
      · exact .inl rfl
      · exact .inl rfl
      · right
        rcases x' with _ | _ | _ <;> rfl
    · rcases x with _ | _ | _
      · exact .inl rfl
      · exact .inl rfl
      · exact .inr rfl
    · exact .refl _
  neg {x x'} hx := by
    obtain rfl | rfl := hx
    · exact .inl rfl
    · exact .refl _
  branch {c x y c' x' y'} hc hx hy := by
    obtain rfl | rfl := hc
    · exact .inl rfl
    · rcases c with _ | _ | _
      · exact .inl rfl
      · exact hy
      · exact hx
  atLeast n {values values'} h := by
    obtain ⟨hmore, hfewer⟩ := countP_below h
    show Below (if _ then _ else if _ then _ else _) (if _ then _ else if _ then _ else _)
    split
    next hyes => rw [if_pos (Nat.le_trans hyes hmore)]; exact .refl _
    next =>
      split
      next hno =>
        have htrue := countP_true_le values'
        rw [if_neg (by omega), if_pos (by omega)]
        exact .refl _
      next => exact .inl rfl

end Apim.Truth
