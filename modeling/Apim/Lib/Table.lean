import Mathlib.Data.List.Nodup
import Mathlib.Data.List.Sort

/-!
# Tables numbered by a counter

The rows of a table that take the next value of a counter as they are inserted: the numbers of a
table increase, and each is below the counter. What is used of it is that a number names one row
(`find?_of_mem`), that a row inserted now is later than every row that is there, and that a table
stays numbered when rows are inserted, rewritten in place or deleted. Beside them stand the first
row that passes a test and the first row of an order.
-/

namespace Apim.Table

/-- The numbers increase, and the counter is above them. -/
structure Numbered (ids : List Nat) (next : Nat) : Prop where
  increasing : ids.Pairwise (· < ·)
  below : ∀ id ∈ ids, id < next

theorem Numbered.nil (next : Nat) : Numbered [] next :=
  ⟨List.Pairwise.nil, fun _ h => absurd h List.not_mem_nil⟩

theorem Numbered.mono {ids : List Nat} {next next' : Nat} (h : Numbered ids next)
    (hle : next ≤ next') : Numbered ids next' :=
  ⟨h.increasing, fun id hid => Nat.lt_of_lt_of_le (h.below id hid) hle⟩

/-- A row inserted now takes the counter, which moves on. -/
theorem Numbered.append {ids : List Nat} {next : Nat} (h : Numbered ids next) :
    Numbered (ids ++ [next]) (next + 1) := by
  constructor
  · rw [List.pairwise_append]
    refine ⟨h.increasing, List.pairwise_singleton _ _, fun id hid id' hid' => ?_⟩
    rw [List.mem_singleton.mp hid']
    exact h.below id hid
  · intro id hid
    rcases List.mem_append.mp hid with hid | hid
    · have hlt := h.below id hid
      omega
    · have heq := List.mem_singleton.mp hid
      omega

theorem Numbered.sublist {ids ids' : List Nat} {next : Nat} (h : Numbered ids next)
    (hsub : ids'.Sublist ids) : Numbered ids' next :=
  ⟨h.increasing.sublist hsub, fun id hid => h.below id (hsub.subset hid)⟩

/-- What a statement does to the numbers of a table: some rows may go, or one is inserted. -/
def Grows (ids : List Nat) (next : Nat) (ids' : List Nat) (next' : Nat) : Prop :=
  (ids'.Sublist ids ∧ next ≤ next') ∨ (ids' = ids ++ [next] ∧ next' = next + 1)

theorem Grows.same {ids ids' : List Nat} {next next' : Nat} (hids : ids' = ids)
    (hnext : next ≤ next') : Grows ids next ids' next' := by
  subst hids
  exact .inl ⟨List.Sublist.refl _, hnext⟩

theorem Numbered.grow {ids ids' : List Nat} {next next' : Nat} (h : Numbered ids next)
    (hgrows : Grows ids next ids' next') : Numbered ids' next' := by
  rcases hgrows with ⟨hsub, hle⟩ | ⟨rfl, rfl⟩
  · exact (h.sublist hsub).mono hle
  · exact h.append

section
variable {α : Type*} {key : α → Nat} {rows : List α} {next : Nat}

theorem Numbered.filter (h : Numbered (rows.map key) next) (p : α → Bool) :
    Numbered ((rows.filter p).map key) next :=
  h.sublist (List.filter_sublist.map key)

/-- Rows rewritten in place keep their numbers. -/
theorem map_key_map (f : α → α) (hf : ∀ r ∈ rows, key (f r) = key r) :
    (rows.map f).map key = rows.map key := by
  rw [List.map_map]
  exact List.map_congr_left hf

theorem Numbered.key_injective (h : Numbered (rows.map key) next) {r r' : α} (hr : r ∈ rows)
    (hr' : r' ∈ rows) (heq : key r = key r') : r = r' :=
  List.inj_on_of_nodup_map (h.increasing.imp fun hlt => Nat.ne_of_lt hlt) hr hr' heq

/-- A number names one row. -/
theorem Numbered.find?_of_mem (h : Numbered (rows.map key) next) {r : α} (hr : r ∈ rows) :
    rows.find? (fun row => key row == key r) = some r := by
  have hsome : (rows.find? fun row => key row == key r).isSome := by
    rw [List.find?_isSome]
    exact ⟨r, hr, beq_self_eq_true _⟩
  obtain ⟨row, hrow⟩ := Option.isSome_iff_exists.mp hsome
  have hkey : key row = key r := by simpa using List.find?_some hrow
  rw [hrow, h.key_injective (List.mem_of_find?_eq_some hrow) hr hkey]

end

/-! ### One row and the others -/

section
variable {α : Type*}

/-- The first row that passes, and the others. -/
def pick (p : α → Bool) : List α → Option (α × List α)
  | [] => none
  | r :: rows =>
    if p r then some (r, rows) else (pick p rows).map fun found => (found.1, r :: found.2)

theorem pick_eq_some {p : α → Bool} {rows rest : List α} {r : α}
    (h : pick p rows = some (r, rest)) : p r = true ∧ rows.Perm (r :: rest) := by
  induction rows generalizing rest with
  | nil => cases h
  | cons first rows ih =>
    rw [pick] at h
    split at h
    · rename_i hfirst
      cases h
      exact ⟨hfirst, List.Perm.refl _⟩
    · obtain ⟨⟨found, others⟩, hfound, heq⟩ := Option.map_eq_some_iff.mp h
      cases heq
      obtain ⟨hp, hperm⟩ := ih hfound
      exact ⟨hp, (hperm.cons first).trans (List.Perm.swap _ _ _)⟩

end

/-! ### The row an order puts first -/

section
variable {α : Type*} {r : α → α → Prop}

/-- No row is before it in the order; of rows that are alike it is the first of the table. -/
def IsFirst (r : α → α → Prop) (rows : List α) (x : α) : Prop :=
  ∃ before after, rows = before ++ x :: after ∧ (∀ y ∈ before, ¬r y x) ∧ ∀ y ∈ after, r x y

theorem IsFirst.mem {rows : List α} {x : α} (h : IsFirst r rows x) : x ∈ rows := by
  obtain ⟨before, after, rfl, -⟩ := h
  exact List.mem_append_right _ List.mem_cons_self

theorem IsFirst.rel (htotal : ∀ a b, r a b ∨ r b a) {rows : List α} {x y : α}
    (h : IsFirst r rows x) (hy : y ∈ rows) : r x y := by
  obtain ⟨before, after, rfl, hbefore, hafter⟩ := h
  rcases List.mem_append.mp hy with hy | hy
  · exact (htotal x y).resolve_right (hbefore y hy)
  · rcases List.mem_cons.mp hy with rfl | hy
    · exact (htotal y y).elim id id
    · exact hafter y hy

theorem IsFirst.unique {rows : List α} {x y : α} (hx : IsFirst r rows x) (hy : IsFirst r rows y) :
    x = y := by
  obtain ⟨before, after, rfl, hbefore, hafter⟩ := hx
  obtain ⟨before', after', hsame, hbefore', hafter'⟩ := hy
  rcases List.append_eq_append_iff.mp hsame with ⟨mid, rfl, hmid⟩ | ⟨mid, rfl, hmid⟩
  · cases mid with
    | nil => exact (List.cons.inj hmid).1
    | cons z mid =>
      obtain ⟨rfl, rfl⟩ := List.cons.inj hmid
      have hnot := hbefore' x (List.mem_append_right _ List.mem_cons_self)
      exact absurd (hafter y (List.mem_append_right _ List.mem_cons_self)) hnot
  · cases mid with
    | nil => exact (List.cons.inj hmid).1.symm
    | cons z mid =>
      obtain ⟨rfl, rfl⟩ := List.cons.inj hmid
      have hnot := hbefore y (List.mem_append_right _ List.mem_cons_self)
      exact absurd (hafter' x (List.mem_append_right _ List.mem_cons_self)) hnot

theorem IsFirst.filter {p : α → Bool} {rows : List α} {x : α} (h : IsFirst r rows x)
    (hx : p x = true) : IsFirst r (rows.filter p) x := by
  obtain ⟨before, after, rfl, hbefore, hafter⟩ := h
  refine ⟨before.filter p, after.filter p, ?_, fun y hy => ?_, fun y hy => ?_⟩
  · rw [List.filter_append, List.filter_cons_of_pos hx]
  · exact hbefore y (List.mem_of_mem_filter hy)
  · exact hafter y (List.mem_of_mem_filter hy)

/-- The first of rows rewritten in place is one of them rewritten. -/
theorem IsFirst.of_map {f : α → α} (hf : ∀ a b, r (f a) (f b) ↔ r a b) {rows : List α} {y : α}
    (h : IsFirst r (rows.map f) y) : ∃ x, IsFirst r rows x ∧ f x = y := by
  obtain ⟨before, after, hrows, hbefore, hafter⟩ := h
  obtain ⟨front, back, rfl, rfl, hback⟩ := List.map_eq_append_iff.mp hrows
  obtain ⟨x, rest, rfl, rfl, rfl⟩ := List.map_eq_cons_iff.mp hback
  refine ⟨x, ⟨front, rest, rfl, fun a ha => ?_, fun a ha => ?_⟩, rfl⟩
  · exact fun hax => hbefore (f a) (List.mem_map_of_mem ha) ((hf a x).mpr hax)
  · exact (hf x a).mp (hafter (f a) (List.mem_map_of_mem ha))

/-- `ORDER BY … LIMIT 1`. -/
theorem isFirst_of_head? [DecidableRel r] (htotal : ∀ a b, r a b ∨ r b a)
    (htrans : ∀ a b c, r a b → r b c → r a c) {rows : List α} {x : α}
    (h : (rows.insertionSort r).head? = some x) : IsFirst r rows x := by
  induction rows generalizing x with
  | nil => cases h
  | cons a rows ih =>
    rw [List.insertionSort_cons] at h
    cases hsorted : rows.insertionSort r with
    | nil =>
      have hrows : rows = [] := by
        have hlength := congrArg List.length hsorted
        rw [List.length_insertionSort] at hlength
        exact List.length_eq_zero_iff.mp hlength
      subst hrows
      cases h
      exact ⟨[], [], rfl, fun y hy => absurd hy List.not_mem_nil,
        fun y hy => absurd hy List.not_mem_nil⟩
    | cons b sorted =>
      have hb : IsFirst r rows b := ih (by rw [hsorted, List.head?_cons])
      rw [hsorted, List.orderedInsert] at h
      split at h
      · rename_i hab
        cases h
        refine ⟨[], rows, rfl, fun y hy => absurd hy List.not_mem_nil, fun y hy => ?_⟩
        exact htrans _ _ _ hab (hb.rel htotal hy)
      · rename_i hab
        cases h
        obtain ⟨before, after, rfl, hbefore, hafter⟩ := hb
        refine ⟨a :: before, after, rfl, fun y hy => ?_, hafter⟩
        rcases List.mem_cons.mp hy with rfl | hy
        · exact hab
        · exact hbefore y hy

theorem head?_insertionSort_isSome [DecidableRel r] {rows : List α} {x : α} (h : x ∈ rows) :
    ∃ first, (rows.insertionSort r).head? = some first := by
  cases hsorted : rows.insertionSort r with
  | nil =>
    rw [← List.mem_insertionSort r, hsorted] at h
    cases h
  | cons first _ => exact ⟨first, rfl⟩

end

end Apim.Table
