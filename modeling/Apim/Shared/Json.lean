import Mathlib.Data.Rat.Defs

/-!
# JSON values

The values of policy units, as `JSON.parse` gives them back from `value_json`. The members of an
object keep their order and a number is an exact rational, so two values are equal here when
`JSON.stringify` writes the same text for both, which is how the control plane compares two units
(`control-plane/src/globals.ts:150-168`, `control-plane/src/operations.ts:1290-1297`).
-/

namespace Apim

inductive Json where
  | null
  | bool (b : Bool)
  | num (n : Rat)
  | str (s : String)
  | arr (items : List Json)
  | obj (members : List (String × Json))

namespace Json

/-! ### Equality is decidable -/

mutual
def same : Json → Json → Bool
  | .null, .null => true
  | .bool a, .bool b => a == b
  | .num a, .num b => decide (a = b)
  | .str a, .str b => a == b
  | .arr as, .arr bs => sameItems as bs
  | .obj as, .obj bs => sameMembers as bs
  | _, _ => false

def sameItems : List Json → List Json → Bool
  | [], [] => true
  | a :: as, b :: bs => same a b && sameItems as bs
  | _, _ => false

def sameMembers : List (String × Json) → List (String × Json) → Bool
  | [], [] => true
  | (k, a) :: as, (l, b) :: bs => k == l && (same a b && sameMembers as bs)
  | _, _ => false
end

mutual
theorem same_iff : ∀ a b : Json, same a b = true ↔ a = b
  | .null, b => by cases b <;> simp [same]
  | .bool a, b => by cases b <;> simp [same]
  | .num a, b => by cases b <;> simp [same]
  | .str a, b => by cases b <;> simp [same]
  | .arr as, b => by
    cases b with
    | arr bs => simp only [same, sameItems_iff as bs, arr.injEq]
    | _ => simp [same]
  | .obj as, b => by
    cases b with
    | obj bs => simp only [same, sameMembers_iff as bs, obj.injEq]
    | _ => simp [same]

theorem sameItems_iff : ∀ as bs : List Json, sameItems as bs = true ↔ as = bs
  | [], bs => by cases bs <;> simp [sameItems]
  | a :: as, [] => by simp [sameItems]
  | a :: as, b :: bs => by
    simp only [sameItems, Bool.and_eq_true, same_iff a b, sameItems_iff as bs, List.cons.injEq]

theorem sameMembers_iff : ∀ as bs : List (String × Json), sameMembers as bs = true ↔ as = bs
  | [], bs => by cases bs <;> simp [sameMembers]
  | (k, a) :: as, [] => by simp [sameMembers]
  | (k, a) :: as, (l, b) :: bs => by
    simp only [sameMembers, Bool.and_eq_true, beq_iff_eq, same_iff a b, sameMembers_iff as bs,
      List.cons.injEq, Prod.mk.injEq, and_assoc]
end

instance : DecidableEq Json := fun a b => decidable_of_iff _ (same_iff a b)

/-! ### Reading a value -/

/-- The member of an object, `none` for any other value: what `value.name` reads. -/
def member? (name : String) : Json → Option Json
  | .obj members => members.lookup name
  | _ => none

def asString? : Json → Option String
  | .str s => some s
  | _ => none

def strings : Json → List String
  | .arr items => items.filterMap asString?
  | _ => []

def isTrue (name : String) (value : Json) : Bool :=
  value.member? name == some (.bool true)

end Json

end Apim
