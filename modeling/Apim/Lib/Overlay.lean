import Mathlib.Algebra.BigOperators.Group.Finset.Basic
import Mathlib.Data.List.AList
import Mathlib.Algebra.GroupWithZero.Nat

/-!
# Dictionaries laid one over another

A dictionary is Mathlib's `AList` with one type of values. `overlaid own base` is the dictionary in
which `own` answers first and `base` answers for the keys `own` does not have, and
`departures doc base` keeps the entries of `doc` that `base` does not already give. The law of the
module is that storing only the departures loses nothing: laid over the base again they give what
the whole dictionary laid over it gives (`lookup_over_departures`). Which entries are stored, and
which are left to the base, is `lookup_departures`.
-/

namespace Apim.Overlay

variable {κ ν : Type*} [DecidableEq κ]

/-- A finite dictionary. -/
abbrev Dict (κ ν : Type*) := AList (fun _ : κ => ν)

/-! ### Keeping some of the entries -/

/-- The entries of `d` that satisfy `p`. -/
def select (p : κ → ν → Bool) (d : Dict κ ν) : Dict κ ν :=
  ⟨d.entries.filter fun entry => p entry.1 entry.2,
    List.NodupKeys.sublist List.filter_sublist d.nodupKeys⟩

omit [DecidableEq κ] in
theorem mem_entries_select (p : κ → ν → Bool) (d : Dict κ ν) (entry : Σ _ : κ, ν) :
    entry ∈ (select p d).entries ↔ entry ∈ d.entries ∧ p entry.1 entry.2 = true :=
  List.mem_filter

theorem lookup_eq_some_iff (d : Dict κ ν) (k : κ) (v : ν) :
    d.lookup k = some v ↔ (⟨k, v⟩ : Σ _ : κ, ν) ∈ d.entries :=
  AList.mem_lookup_iff

theorem lookup_select (p : κ → ν → Bool) (d : Dict κ ν) (k : κ) :
    (select p d).lookup k = (d.lookup k).filter (p k) := by
  apply Option.ext
  intro v
  rw [lookup_eq_some_iff, mem_entries_select, Option.filter_eq_some_iff, lookup_eq_some_iff]

/-! ### Changing every value -/

/-- The entries of `d` with `f` of their values. -/
def mapValues {μ : Type*} (f : ν → μ) (d : Dict κ ν) : Dict κ μ :=
  ⟨d.entries.map (Sigma.map id fun _ => f), List.NodupKeys.map₂ _ _ d.nodupKeys⟩

theorem lookup_mapValues {μ : Type*} (f : ν → μ) (d : Dict κ ν) (k : κ) :
    (mapValues f d).lookup k = (d.lookup k).map f :=
  List.dlookup_map₂ k

/-! ### One dictionary over another -/

/-- `own` where it has the key, `base` elsewhere. -/
def overlaid (own base : Dict κ ν) : Dict κ ν := own ∪ base

theorem lookup_over (own base : Dict κ ν) (k : κ) :
    (overlaid own base).lookup k = (own.lookup k).or (base.lookup k) := by
  by_cases h : k ∈ own
  · obtain ⟨v, hv⟩ := Option.isSome_iff_exists.mp (AList.lookup_isSome.mpr h)
    rw [overlaid, AList.lookup_union_left h, hv, Option.some_or]
  · rw [overlaid, AList.lookup_union_right h, AList.lookup_eq_none.mpr h, Option.none_or]

/-- Summed over the entries for a key, a dictionary of numbers is its value. -/
theorem sum_entries_eq (d : Dict κ Nat) (k : κ) :
    (d.entries.map fun entry => if entry.1 = k then entry.2 else 0).sum = (d.lookup k).getD 0 := by
  obtain ⟨entries, hnodup⟩ := d
  change _ = (List.dlookup k entries).getD 0
  induction entries with
  | nil => rfl
  | cons entry entries ih =>
    obtain ⟨k', v⟩ := entry
    obtain ⟨hnot, hrest⟩ := List.nodupKeys_cons.mp hnodup
    rw [List.map_cons, List.sum_cons, ih hrest]
    by_cases hk : k' = k
    · subst hk
      rw [if_pos rfl, List.dlookup_cons_eq, List.dlookup_eq_none.mpr hnot]
      rfl
    · rw [if_neg hk, Nat.zero_add]
      exact congrArg (Option.getD · 0) (List.dlookup_cons_ne entries ⟨k', v⟩ (Ne.symm hk)).symm

/-- Where each key has the weight of its occurrences in a list, the entries weigh as much as the list
is long. -/
theorem sum_entries_eq_length (d : Dict κ ν) (weight : ν → Nat) (l : List κ)
    (h : ∀ k, ((d.lookup k).map weight).getD 0 = l.count k) :
    (d.entries.map fun entry => weight entry.2).sum = l.length := by
  have hentries : (d.entries.map fun entry => weight entry.2).sum =
      (d.keys.map fun k => ((d.lookup k).map weight).getD 0).sum := by
    rw [AList.keys, List.keys, List.map_map]
    refine congrArg List.sum (List.map_congr_left fun entry hentry => ?_)
    have hlookup := (lookup_eq_some_iff d entry.1 entry.2).mpr hentry
    dsimp only [Function.comp_apply]
    rw [hlookup]
    rfl
  rw [hentries, ← List.sum_toFinset _ d.keys_nodup, ← List.sum_toFinset_count_eq_length l]
  refine (Finset.sum_congr rfl fun k _ => h k).trans ?_
  refine (Finset.sum_subset (fun k hk => ?_) fun k _ hk => ?_).symm
  · have hcount := List.count_pos_iff.mpr (List.mem_toFinset.mp hk)
    rw [← h k] at hcount
    refine List.mem_toFinset.mpr (AList.mem_keys.mp (AList.lookup_isSome.mp ?_))
    cases hlookup : d.lookup k with
    | none =>
      rw [hlookup] at hcount
      exact absurd hcount (Nat.lt_irrefl 0)
    | some v => rfl
  · exact List.count_eq_zero.mpr fun hin => hk (List.mem_toFinset.mpr hin)
/-! ### Writing several entries -/

section
variable {β : Type*} {write : Dict κ ν → β → Dict κ ν} {key : β → κ}

/-- A key that no row is for is as it was, where each row is written under its own key. -/
theorem lookup_foldl_of_notMem (hown : ∀ d row k, k ≠ key row → (write d row).lookup k = d.lookup k)
    {rows : List β} {k : κ} (d : Dict κ ν) (h : k ∉ rows.map key) :
    (rows.foldl write d).lookup k = d.lookup k := by
  induction rows generalizing d with
  | nil => rfl
  | cons row rows ih =>
    obtain ⟨hne, hrest⟩ : k ≠ key row ∧ k ∉ rows.map key := by simpa using h
    rw [List.foldl_cons, ih _ hrest, hown d row k hne]

/-- The key of the one row that is for it is as that row wrote it, over what was there. -/
theorem lookup_foldl_of_mem (hown : ∀ d row k, k ≠ key row → (write d row).lookup k = d.lookup k)
    {rows : List β} {row : β} (d : Dict κ ν) (hnodup : (rows.map key).Nodup) (h : row ∈ rows) :
    ∃ d', d'.lookup (key row) = d.lookup (key row) ∧
      (rows.foldl write d).lookup (key row) = (write d' row).lookup (key row) := by
  induction rows generalizing d with
  | nil => cases h
  | cons first rows ih =>
    obtain ⟨hfirst, hrest⟩ := List.nodup_cons.mp hnodup
    rw [List.foldl_cons]
    rcases List.mem_cons.mp h with rfl | hlater
    · exact ⟨d, rfl, lookup_foldl_of_notMem hown _ hfirst⟩
    · have hne : key row ≠ key first := fun heq => hfirst (heq ▸ List.mem_map_of_mem hlater)
      obtain ⟨d', hd', hwritten⟩ := ih (write d first) hrest hlater
      exact ⟨d', hd'.trans (hown d first _ hne), hwritten⟩

end

theorem lookup_foldl_insert_of_notMem {rows : List (κ × ν)} {k : κ} (d : Dict κ ν)
    (h : k ∉ rows.map (·.1)) :
    (rows.foldl (fun (d : Dict κ ν) row => d.insert row.1 row.2) d).lookup k = d.lookup k := by
  induction rows generalizing d with
  | nil => rfl
  | cons row rows ih =>
    obtain ⟨hne, hrest⟩ : k ≠ row.1 ∧ k ∉ rows.map (·.1) := by simpa using h
    rw [List.foldl_cons, ih _ hrest, AList.lookup_insert_ne hne]

theorem lookup_foldl_insert_of_mem {rows : List (κ × ν)} {row : κ × ν} (d : Dict κ ν)
    (hnodup : (rows.map (·.1)).Nodup) (h : row ∈ rows) :
    (rows.foldl (fun (d : Dict κ ν) row => d.insert row.1 row.2) d).lookup row.1 =
      some row.2 := by
  induction rows generalizing d with
  | nil => cases h
  | cons first rows ih =>
    obtain ⟨hfirst, hrest⟩ := List.nodup_cons.mp hnodup
    rw [List.foldl_cons]
    rcases List.mem_cons.mp h with rfl | hlater
    · rw [lookup_foldl_insert_of_notMem _ hfirst, AList.lookup_insert]
    · exact ih _ hrest hlater

/-! ### A buffer over a table -/

section
variable {τ : Type*} [DecidableEq τ]

/-- The entry of a key once a buffer is written over a table. The buffer has a row under the text of
its key, and keys may share a text. -/
def laidOver (text : κ → τ) (buffer : Dict τ (κ × ν)) (table : Dict κ ν) (k : κ) : Option ν :=
  match buffer.lookup (text k) with
  | some row => if row.1 = k then some row.2 else table.lookup k
  | none => table.lookup k

/-- Where no other key has the text, buffering a row changes the entry of its key only. -/
theorem laidOver_insert {text : κ → τ} {buffer : Dict τ (κ × ν)} (table : Dict κ ν) {k : κ} (v : ν)
    (halone : ∀ row, buffer.lookup (text k) = some row → row.1 = k) (k' : κ) :
    laidOver text (buffer.insert (text k) (k, v)) table k' =
      if k' = k then some v else laidOver text buffer table k' := by
  unfold laidOver
  by_cases hk : k' = k
  · subst hk
    rw [AList.lookup_insert, if_pos rfl]
    exact if_pos rfl
  · rw [if_neg hk]
    by_cases htext : text k' = text k
    · rw [htext, AList.lookup_insert]
      cases hrow : buffer.lookup (text k) with
      | none => exact if_neg (Ne.symm hk)
      | some row =>
        have hne : row.1 ≠ k' := fun h => hk (h.symm.trans (halone row hrow))
        exact (if_neg (Ne.symm hk)).trans (if_neg hne).symm
    · rw [AList.lookup_insert_ne htext]

/-- Writing the rows of a buffer under the texts of their keys gives the table it is laid over. -/
theorem lookup_foldl_insert_eq_laidOver {text : κ → τ} {buffer : Dict τ (κ × ν)} (table : Dict κ ν)
    (hnamed : ∀ t row, buffer.lookup t = some row → text row.1 = t) (k : κ) :
    ((buffer.entries.map (·.2)).foldl (fun (d : Dict κ ν) row => d.insert row.1 row.2)
      table).lookup k = laidOver text buffer table k := by
  have hmem : ∀ entry ∈ buffer.entries, text entry.2.1 = entry.1 := by
    intro entry hentry
    exact hnamed entry.1 entry.2 ((lookup_eq_some_iff buffer entry.1 entry.2).mpr hentry)
  have hnodup : ((buffer.entries.map (·.2)).map (·.1)).Nodup := by
    refine List.Nodup.of_map text ?_
    have htexts : ((buffer.entries.map (·.2)).map (·.1)).map text = buffer.entries.map (·.1) := by
      rw [List.map_map, List.map_map]
      exact List.map_congr_left hmem
    rw [htexts]
    exact buffer.nodupKeys
  unfold laidOver
  cases hrow : buffer.lookup (text k) with
  | none =>
    refine lookup_foldl_insert_of_notMem table fun hin => ?_
    obtain ⟨row, hwritten, rfl⟩ := List.mem_map.mp hin
    obtain ⟨entry, hentry, rfl⟩ := List.mem_map.mp hwritten
    have hthere := (lookup_eq_some_iff buffer entry.1 entry.2).mpr hentry
    rw [← hmem entry hentry, hrow] at hthere
    cases hthere
  | some row =>
    have hentry := (lookup_eq_some_iff buffer _ _).mp hrow
    by_cases hk : row.1 = k
    · subst hk
      rw [lookup_foldl_insert_of_mem table hnodup (List.mem_map_of_mem hentry)]
      exact (if_pos rfl).symm
    · refine (lookup_foldl_insert_of_notMem table fun hin => hk ?_).trans (if_neg hk).symm
      obtain ⟨row', hwritten, rfl⟩ := List.mem_map.mp hin
      obtain ⟨entry, hentry', rfl⟩ := List.mem_map.mp hwritten
      have hthere := (lookup_eq_some_iff buffer entry.1 entry.2).mpr hentry'
      rw [← hmem entry hentry', hrow] at hthere
      rw [Option.some.inj hthere]

end

/-! ### Storing only what differs -/

section
variable [DecidableEq ν]

/-- The entries of `doc` whose value is not the one `base` gives for the key. -/
def departures (doc base : Dict κ ν) : Dict κ ν :=
  select (fun k v => decide (base.lookup k ≠ some v)) doc

theorem lookup_departures (doc base : Dict κ ν) (k : κ) :
    (departures doc base).lookup k =
      if doc.lookup k = base.lookup k then none else doc.lookup k := by
  rw [departures, lookup_select]
  cases hdoc : doc.lookup k with
  | none => simp
  | some v =>
    by_cases hbase : base.lookup k = some v
    · simp [hbase]
    · simp [Option.filter, hbase, Ne.symm hbase]

/-- A key is stored when the document gives it a value other than the base's. -/
theorem lookup_departures_eq_some_iff (doc base : Dict κ ν) (k : κ) (v : ν) :
    (departures doc base).lookup k = some v ↔ doc.lookup k = some v ∧ base.lookup k ≠ some v := by
  rw [lookup_departures]
  by_cases h : doc.lookup k = base.lookup k
  · rw [if_pos h]
    constructor
    · intro hv
      cases hv
    · rintro ⟨hdoc, hbase⟩
      exact absurd (h ▸ hdoc) hbase
  · rw [if_neg h]
    constructor
    · intro hdoc
      exact ⟨hdoc, fun hbase => h (hdoc.trans hbase.symm)⟩
    · exact And.left

/-- Laid over the base again, the departures give what the whole document gives. -/
theorem lookup_over_departures (doc base : Dict κ ν) (k : κ) :
    (overlaid (departures doc base) base).lookup k = (overlaid doc base).lookup k := by
  rw [lookup_over, lookup_over, lookup_departures]
  by_cases h : doc.lookup k = base.lookup k
  · rw [if_pos h, h, Option.none_or, Option.or_self]
  · rw [if_neg h]

/-- At this key `doc` says again what is stored: a stored value, where the base does not give it, and
the base's value or none where nothing is stored. -/
def Restates (rows doc base : Dict κ ν) (k : κ) : Prop :=
  match rows.lookup k with
  | some v => doc.lookup k = some v ∧ base.lookup k ≠ some v
  | none => doc.lookup k = none ∨ doc.lookup k = base.lookup k

/-- Storing the departures of a document leaves a key to the base when the document has nothing else
for it. -/
theorem lookup_departures_eq_none_iff (doc base : Dict κ ν) (k : κ) :
    (departures doc base).lookup k = none ↔ doc.lookup k = none ∨ doc.lookup k = base.lookup k := by
  rw [lookup_departures]
  by_cases h : doc.lookup k = base.lookup k
  · simp [h]
  · simp [h]

/-- The departures of a document replace the stored entries without a trace, at a key, exactly when
the document says there what is stored: the key comes to the same value, and it is left to the base
as it was before. -/
theorem restates_iff (rows doc base : Dict κ ν) (k : κ) :
    Restates rows doc base k ↔
      (((departures doc base).lookup k = none ∧ (base.lookup k).isSome) ↔
        (rows.lookup k = none ∧ (base.lookup k).isSome)) ∧
      (overlaid (departures doc base) base).lookup k = (overlaid rows base).lookup k := by
  rw [lookup_over_departures, lookup_departures_eq_none_iff, lookup_over, lookup_over, Restates]
  cases hrows : rows.lookup k with
  | some v =>
    cases hbase : base.lookup k with
    | none => cases doc.lookup k <;> simp
    | some g =>
      cases hdoc : doc.lookup k with
      | none => simp
      | some d =>
        constructor
        · rintro ⟨hd, hg⟩
          cases hd
          simpa [eq_comm] using hg
        · rintro ⟨hleft, hvalue⟩
          simp only [Option.some_or, Option.some.injEq] at hvalue
          subst hvalue
          simpa [eq_comm] using hleft
  | none =>
    cases hbase : base.lookup k with
    | none => cases doc.lookup k <;> simp
    | some g => cases doc.lookup k <;> simp

end

end Apim.Overlay
