import Mathlib.Data.List.Basic
import Mathlib.Algebra.Group.Nat.Defs

/-!
# The product an API is sold in

A publish that names no product takes the one its API is already sold in, or makes one
(`control-plane/src/operations.ts:599-629`). The name of a new product is looked for among the API's
own name, the name with the application's slug, and that with a counter, each cut to 61 characters.
`ownProductFor` searches as long as the names it tries are taken; `fuel` is how many it may try.
-/

namespace Apim.ProductNames

abbrev Name := List Char

/-! ### The names -/

def isPlain (c : Char) : Bool := c.isLower || c.isDigit || c == '-'

def isName (name : Name) : Bool :=
  match name with
  | [] => false
  | c :: rest => (c.isLower || c.isDigit) && rest.all isPlain && 1 ≤ rest.length && rest.length ≤ 60

def units (c : Char) : Nat := if c.toNat < 0x10000 then 1 else 2

/-- `applicationId.replace(/^application[_-]/, "").replace(/[^a-z0-9-]/g, "-")`. -/
def slugOf (applicationId : String) : Name :=
  let written := applicationId.toList
  let own := if "application_".toList.isPrefixOf written || "application-".toList.isPrefixOf written
    then written.drop 12 else written
  own.flatMap fun c => if isPlain c then [c] else List.replicate (units c) '-'

def cut (name : Name) : Name := name.take 61

def tieBreak (apiName slug : Name) : Name := cut (apiName ++ '-' :: slug)

def stem (apiName slug : Name) : Name := apiName ++ '-' :: slug ++ ['-']

def numbered (apiName slug : Name) (n : Nat) : Name := cut (stem apiName slug ++ Nat.toDigits 10 n)

/-! ### The estate -/

structure Product where
  id : String
  name : Name
  applicationId : String
  active : Bool
  deriving DecidableEq, Repr

structure Resource where
  applicationId : String
  name : Name
  products : List String
  deriving DecidableEq, Repr

structure Estate where
  products : List Product
  resources : List Resource

def Estate.taken (db : Estate) (name : Name) : Bool := db.products.any (·.name == name)

def Estate.already (db : Estate) (applicationId : String) (apiName : Name) : Option Product :=
  db.products.find? fun p =>
    p.applicationId == applicationId && p.active && db.resources.any fun r =>
      r.applicationId == p.applicationId && r.name == apiName && r.products.contains p.id

def search (taken : Name → Bool) (apiName slug : Name) : Nat → Nat → Name → Option Name
  | 0, _, _ => none
  | fuel + 1, n, name =>
    if taken name then search taken apiName slug fuel (n + 1) (numbered apiName slug n) else some name

def freshName (taken : Name → Bool) (apiName slug : Name) (fuel : Nat) : Option Name :=
  search taken apiName slug fuel 2 (if taken apiName then tieBreak apiName slug else apiName)

/-- `ownProductFor`: the product's id and the rows after; `newId` is what `newId("prod")` gives. -/
def ownProductFor (db : Estate) (applicationId : String) (apiName : Name) (newId : String)
    (fuel : Nat) : Option (String × Estate) :=
  match db.already applicationId apiName with
  | some p => some (p.id, db)
  | none =>
    (freshName db.taken apiName (slugOf applicationId) fuel).map fun name =>
      (newId, { db with products := db.products ++ [⟨newId, name, applicationId, true⟩] })

/-! ### What the search tries -/

section
variable {taken : Name → Bool} {apiName slug : Name}

attribute [local simp] search

theorem search_eq_some {fuel n : Nat} {name found : Name}
    (h : search taken apiName slug fuel n name = some found) :
    taken found = false ∧ (found = name ∨ ∃ m, n ≤ m ∧ found = numbered apiName slug m) := by
  induction fuel generalizing n name with
  | zero => cases h
  | succ fuel ih =>
    rw [search] at h
    split at h
    · obtain ⟨hfree, hfound⟩ := ih h
      refine ⟨hfree, .inr ?_⟩
      rcases hfound with rfl | ⟨m, hm, rfl⟩
      · exact ⟨n, Nat.le_refl n, rfl⟩
      · exact ⟨m, by omega, rfl⟩
    · rename_i hname
      cases h
      exact ⟨eq_false_of_ne_true hname, .inl rfl⟩

theorem search_of_free {name : Name} (h : taken name = false) (fuel n : Nat) :
    search taken apiName slug (fuel + 1) n name = some name := by
  rw [search, h]
  rfl

theorem search_of_numbered {m n : Nat} (hm : n ≤ m) (hfree : taken (numbered apiName slug m) = false)
    (name : Name) : ∃ fuel found, search taken apiName slug fuel n name = some found := by
  obtain ⟨k, rfl⟩ := Nat.exists_eq_add_of_le hm
  induction k generalizing n name with
  | zero =>
    by_cases hname : taken name = true
    · refine ⟨2, numbered apiName slug n, ?_⟩
      rw [search, if_pos hname]
      exact search_of_free hfree 0 (n + 1)
    · exact ⟨1, name, search_of_free (eq_false_of_ne_true hname) 0 n⟩
  | succ k ih =>
    by_cases hname : taken name = true
    · have hnext : n + 1 + k = n + (k + 1) := by omega
      obtain ⟨fuel, found, hfound⟩ := ih (numbered apiName slug n) (by omega) (by rwa [hnext])
      refine ⟨fuel + 1, found, ?_⟩
      rw [search, if_pos hname]
      exact hfound
    · exact ⟨1, name, search_of_free (eq_false_of_ne_true hname) 0 n⟩

end

/-! ### Only so many numbers are told apart -/

theorem length_toDigits_of_le {n r : Nat} (h : 10 ^ r ≤ n) : r < (Nat.toDigits 10 n).length := by
  by_contra hshort
  rcases Nat.eq_zero_or_pos r with rfl | hr
  · have hne : Nat.toDigits 10 n ≠ [] := Nat.toDigits_ne_nil
    have hpos := List.length_pos_iff.mpr hne
    omega
  · have hlt := (Nat.length_toDigits_le_iff (by decide) hr).mp (Nat.le_of_not_lt hshort)
    omega

theorem exists_small (r n : Nat) (hn : 2 ≤ n) :
    ∃ m, 2 ≤ m ∧ m ≤ 10 ^ r + 1 ∧ (Nat.toDigits 10 m).take r = (Nat.toDigits 10 n).take r := by
  induction n using Nat.strongRecOn with
  | ind n ih =>
    by_cases hsmall : n ≤ 10 ^ r + 1
    · exact ⟨n, hn, hsmall, rfl⟩
    · have hpow : 0 < 10 ^ r := Nat.pow_pos (by decide)
      rcases Nat.eq_zero_or_pos r with rfl | hr
      · exact ⟨2, Nat.le_refl 2, by omega, by rw [List.take_zero, List.take_zero]⟩
      · obtain ⟨s, rfl⟩ := Nat.exists_eq_add_of_lt hr
        have hten : 10 ^ (0 + s + 1) = 10 ^ s * 10 := by rw [Nat.zero_add, Nat.pow_succ]
        have hsp : 0 < 10 ^ s := Nat.pow_pos (by decide)
        have hbase : 10 ≤ n := by omega
        have hlong : 10 ^ s ≤ n / 10 := (Nat.le_div_iff_mul_le (by decide)).mpr (by omega)
        have hlen := length_toDigits_of_le hlong
        have hsplit : (Nat.toDigits 10 n).take (0 + s + 1) =
            (Nat.toDigits 10 (n / 10)).take (0 + s + 1) := by
          rw [Nat.toDigits_of_base_le (by decide) hbase]
          exact List.take_append_of_le_length (by omega)
        rw [hsplit]
        by_cases htwo : 2 ≤ n / 10
        · exact ih (n / 10) (by omega) htwo
        · -- From 12 to 19 there is one digit left, a one.
          have hone : n / 10 = 1 := by omega
          have hs : s = 0 := by
            by_contra hne
            have hle : 10 ^ 1 ≤ 10 ^ s := Nat.pow_le_pow_right (by decide) (by omega)
            omega
          subst hs
          rw [hone]
          exact ⟨10, by decide, by decide, by decide⟩

theorem numbered_eq (apiName slug : Name) (n : Nat) :
    numbered apiName slug n = cut (stem apiName slug) ++
      (Nat.toDigits 10 n).take (61 - (stem apiName slug).length) := by
  rw [numbered, cut, List.take_append]
  rfl

/-! ### Names that are legal -/

theorem isName_iff {name : Name} :
    isName name = true ↔ ∃ c rest, name = c :: rest ∧ (c.isLower || c.isDigit) = true ∧
      (∀ x ∈ rest, isPlain x = true) ∧ 1 ≤ rest.length ∧ rest.length ≤ 60 := by
  cases name with
  | nil => simp [isName]
  | cons c rest => simp [isName, and_assoc]

theorem isName_cut {name : Name} (h : isName name = true) {more : List Char}
    (hmore : ∀ x ∈ more, isPlain x = true) : isName (cut (name ++ more)) = true := by
  obtain ⟨c, rest, rfl, hfirst, hrest, hlow, hhigh⟩ := isName_iff.mp h
  refine isName_iff.mpr ⟨c, (rest ++ more).take 60, rfl, hfirst, ?_, ?_, ?_⟩
  · intro x hx
    rcases List.mem_append.mp (List.mem_of_mem_take hx) with hin | hin
    · exact hrest x hin
    · exact hmore x hin
  · rw [List.length_take, List.length_append]
    omega
  · rw [List.length_take]
    omega

theorem plain_slug (applicationId : String) : ∀ x ∈ slugOf applicationId, isPlain x = true := by
  intro x hx
  obtain ⟨c, -, hin⟩ := List.mem_flatMap.mp hx
  split at hin
  · rename_i hplain
    rw [List.mem_singleton.mp hin]
    exact hplain
  · rw [(List.mem_replicate.mp hin).2]
    rfl

theorem plain_digits (n : Nat) : ∀ x ∈ Nat.toDigits 10 n, isPlain x = true := by
  intro x hx
  have hdigit := Nat.isDigit_of_mem_toDigits (by decide) (by decide) hx
  simp [isPlain, hdigit]

section
variable {apiName : Name} (h : isName apiName = true) (applicationId : String)
include h

theorem isName_tieBreak : isName (tieBreak apiName (slugOf applicationId)) = true := by
  refine isName_cut h fun x hx => ?_
  rcases List.mem_cons.mp hx with rfl | hin
  · rfl
  · exact plain_slug applicationId x hin

theorem isName_numbered (n : Nat) : isName (numbered apiName (slugOf applicationId) n) = true := by
  have hsplit : numbered apiName (slugOf applicationId) n =
      cut (apiName ++ ('-' :: slugOf applicationId ++ ['-'] ++ Nat.toDigits 10 n)) := by
    simp [numbered, stem]
  rw [hsplit]
  refine isName_cut h fun x hx => ?_
  rcases List.mem_append.mp hx with hstem | hin
  · rcases List.mem_append.mp hstem with hslug | hin
    · rcases List.mem_cons.mp hslug with rfl | hin
      · rfl
      · exact plain_slug applicationId x hin
    · rw [List.mem_singleton.mp hin]
      rfl
  · exact plain_digits n x hin

/-! ### When the search ends -/

def Ends (db : Estate) (applicationId : String) (apiName : Name) : Prop :=
  ∃ fuel name, freshName db.taken apiName (slugOf applicationId) fuel = some name ∧
    db.taken name = false ∧ isName name = true

/-- The API's name is free, or with the slug, or with one of the numbers that are told apart in the
characters that are left. -/
def HasRoom (db : Estate) (applicationId : String) (apiName : Name) : Prop :=
  let slug := slugOf applicationId
  db.taken apiName = false ∨ db.taken (tieBreak apiName slug) = false ∨
    ∃ n, 2 ≤ n ∧ n ≤ 10 ^ (61 - (stem apiName slug).length) + 1 ∧
      db.taken (numbered apiName slug n) = false

end

theorem search_ends_iff (db : Estate) (applicationId : String) (apiName : Name)
    (h : isName apiName = true) : Ends db applicationId apiName ↔ HasRoom db applicationId apiName := by
  constructor
  · rintro ⟨fuel, name, hsearch, hfree, -⟩
    by_cases hown : db.taken apiName = true
    · rw [freshName, if_pos hown] at hsearch
      obtain ⟨-, rfl | ⟨n, hn, rfl⟩⟩ := search_eq_some hsearch
      · exact .inr (.inl hfree)
      · obtain ⟨m, hlow, hhigh, hdigits⟩ :=
          exists_small (61 - (stem apiName (slugOf applicationId)).length) n hn
        refine .inr (.inr ⟨m, hlow, hhigh, ?_⟩)
        rw [numbered_eq, hdigits, ← numbered_eq]
        exact hfree
    · exact .inl (eq_false_of_ne_true hown)
  · intro hroom
    have hends : ∃ fuel name, freshName db.taken apiName (slugOf applicationId) fuel = some name := by
      rcases hroom with hown | htie | ⟨n, hn, -, hfree⟩
      · refine ⟨1, apiName, ?_⟩
        rw [freshName, hown]
        exact search_of_free hown 0 2
      · by_cases hown : db.taken apiName = true
        · refine ⟨1, tieBreak apiName (slugOf applicationId), ?_⟩
          rw [freshName, if_pos hown]
          exact search_of_free htie 0 2
        · refine ⟨1, apiName, ?_⟩
          rw [freshName, if_neg hown]
          exact search_of_free (eq_false_of_ne_true hown) 0 2
      · exact search_of_numbered hn hfree _
    obtain ⟨fuel, name, hsearch⟩ := hends
    obtain ⟨hfree, hname⟩ := search_eq_some hsearch
    refine ⟨fuel, name, hsearch, hfree, ?_⟩
    rcases hname with rfl | ⟨n, -, rfl⟩
    · split
      · exact isName_tieBreak h applicationId
      · exact h
    · exact isName_numbered h applicationId n

def oneTaken : Estate := ⟨[⟨"prod_1", "checkout".toList, "application_b", true⟩], []⟩

theorem search_ends_checkout :
    Ends oneTaken "application_a" "checkout".toList ↔ HasRoom oneTaken "application_a" "checkout".toList :=
  search_ends_iff oneTaken "application_a" "checkout".toList (by decide)

def longName : Name := List.replicate 61 'a'

def longTaken : Estate := ⟨[⟨"prod_1", longName, "application_b", true⟩], []⟩

theorem long_name_never_ends :
    isName longName = true ∧ ¬ Ends longTaken "application_a" longName ∧
      ∀ fuel, ownProductFor longTaken "application_a" longName "prod_2" fuel = none := by
  have hsame : ∀ more : List Char, cut (longName ++ more) = longName := fun more => rfl
  have htaken : longTaken.taken longName = true := by decide
  have hsearch : ∀ fuel n name, name = longName →
      search longTaken.taken longName (slugOf "application_a") fuel n name = none := by
    intro fuel
    induction fuel with
    | zero =>
      intro n name _
      rfl
    | succ fuel ih =>
      intro n name hname
      rw [search, hname, htaken, if_pos rfl]
      exact ih (n + 1) _ rfl
  have hfresh : ∀ fuel, freshName longTaken.taken longName (slugOf "application_a") fuel = none := by
    intro fuel
    rw [freshName, htaken, if_pos rfl]
    exact hsearch fuel 2 _ rfl
  refine ⟨by decide, ?_, ?_⟩
  · rintro ⟨fuel, name, hfound, -⟩
    rw [hfresh fuel] at hfound
    cases hfound
  · intro fuel
    rw [ownProductFor, hfresh fuel]
    rfl

end Apim.ProductNames
