import Mathlib.Data.List.DropRight
import Apim.ControlPlane.Directory
import Apim.Lib.Trace
import Apim.Shared.Trimming

/-!
# Membership as a function of groups

What `mapGroupsToApplications` leaves behind. A group that is bound in the loop has the id of its folded
last part, and every group with that key or that last part has the same id (`idFor_of_key`), so no
later turn changes what an earlier one found (`settled_stable`).
-/

namespace Apim.Groups
open Overlay Opmatch Guard Trace

/-! ### Texts -/

theorem trimmed_trimmed (text : String) : trimmed (trimmed text) = trimmed text := by
  rw [trimmed, trimmed, String.toList_ofList, Routing.trim_trim]

theorem segments_of_mem {text part : String} (h : part ∈ segmentsOf text) :
    segmentsOf part = [part] := by
  obtain ⟨chars, hchars, rfl⟩ := List.mem_map.mp h
  obtain ⟨hsplit, hne⟩ := List.mem_filter.mp hchars
  have hnone : ∀ (l : List Char), ∀ part ∈ l.splitOnP (· == '/'), ∀ c ∈ part, (c == '/') = false := by
    intro l
    induction l with
    | nil =>
      intro part hpart c hc
      rw [List.splitOnP_nil, List.mem_singleton] at hpart
      subst hpart
      cases hc
    | cons first rest ih =>
      intro part hpart c hc
      rw [List.splitOnP_cons_eq_if_modifyHead] at hpart
      split at hpart
      · rcases List.mem_cons.mp hpart with rfl | hpart
        · cases hc
        · exact ih part hpart c hc
      · rename_i hfirst
        cases hrest : rest.splitOnP (· == '/') with
        | nil => exact absurd hrest (List.splitOnP_ne_nil _ _)
        | cons head tail =>
          rw [hrest] at hpart ih
          rcases List.mem_cons.mp hpart with rfl | hpart
          · rcases List.mem_cons.mp hc with rfl | hc
            · simpa using hfirst
            · exact ih head List.mem_cons_self c hc
          · exact ih part (List.mem_cons_of_mem _ hpart) c hc
  have hchars : chars.splitOn '/' = [chars] := by
    rw [List.splitOn_eq_splitOnP]
    exact List.splitOnP_eq_singleton (hnone _ _ (by rwa [← List.splitOn_eq_splitOnP]))
  rw [segmentsOf, String.toList_ofList, hchars, List.filter_cons_of_pos (by simpa using hne)]
  rfl

theorem leafOf_leaf {text leaf : String} (h : leafOf text = some leaf) : leafOf leaf = some leaf := by
  have hmem : leaf ∈ segmentsOf text := List.mem_of_getLast? h
  rw [leafOf, segments_of_mem hmem]
  rfl

variable {value' : String}

section
variable {F : CaseFolding}

theorem leafOf_fold (text : String) :
    leafOf (F.toLowerCase text) = (leafOf text).map F.toLowerCase := by
  rw [leafOf, F.fold_segments, List.getLast?_map]
  rfl

def idFor (F : CaseFolding) (value : String) : Option String :=
  idOfLeaf (F.toLowerCase ((leafOf value).getD ""))

theorem applicationIdForGroup_trimmed (raw : String) :
    applicationIdForGroup F (trimmed raw) = idFor F (trimmed raw) := by
  rw [applicationIdForGroup, idFor, trimmed_trimmed]

theorem idFor_of_leaf {value : String}
    (h : (leafOf value).map F.toLowerCase = (leafOf value').map F.toLowerCase) :
    idFor F value = idFor F value' := by
  unfold idFor
  cases hleaf : leafOf value with
  | none =>
    rw [hleaf] at h
    rw [Option.map_eq_none_iff.mp h.symm]
  | some leaf =>
    rw [hleaf] at h
    obtain ⟨leaf', hleaf', hfold⟩ := Option.map_eq_some_iff.mp h.symm
    rw [hleaf']
    exact congrArg idOfLeaf hfold.symm

theorem idFor_of_key {value : String} (h : F.toLowerCase value' = F.toLowerCase value ∨
      F.toLowerCase value' = F.toLowerCase (lastPart value)) : idFor F value' = idFor F value := by
  apply idFor_of_leaf
  rcases h with h | h
  · rw [← leafOf_fold, ← leafOf_fold, h]
  · rw [← leafOf_fold, h, leafOf_fold]
    cases hleaf : leafOf value with
    | none => rw [lastPart, hleaf, Option.getD_none, hleaf]
    | some leaf => rw [lastPart, hleaf, Option.getD_some, leafOf_leaf hleaf]

theorem lastPart_of_key {value : String} (h : F.toLowerCase value' = F.toLowerCase value) :
    F.toLowerCase (lastPart value') = F.toLowerCase (lastPart value) := by
  have hleaf : (leafOf value').map F.toLowerCase = (leafOf value).map F.toLowerCase := by
    rw [← leafOf_fold, ← leafOf_fold, h]
  unfold lastPart
  cases hvalue : leafOf value with
  | none =>
    rw [hvalue] at hleaf
    rw [Option.map_eq_none_iff.mp hleaf]
    exact h
  | some leaf =>
    rw [hvalue] at hleaf
    obtain ⟨leaf', hleaf', hfold⟩ := Option.map_eq_some_iff.mp hleaf
    rw [hleaf']
    exact hfold

end

/-! ### Rows and groups -/

def Carries (F : CaseFolding) (applications : List Application) (key id : String) : Prop :=
  ∃ row ∈ applications, row.id = id ∧ id ≠ PLATFORM_APPLICATION_ID ∧
    ∃ group, boundTo row.sourceGroup = some group ∧ keyOf F group = key

def Names (F : CaseFolding) (applications : List Application) (value id : String) : Prop :=
  Carries F applications (F.toLowerCase value) id ∨
    (∀ other, ¬Carries F applications (F.toLowerCase value) other) ∧
      Carries F applications (F.toLowerCase (lastPart value)) id

def Taken (applications : List Application) (id : String) : Prop :=
  id = PLATFORM_APPLICATION_ID ∨
    ∃ row ∈ applications, row.id = id ∧ (boundTo row.sourceGroup).isSome = true

def Binds (F : CaseFolding) (applications : List Application) (value id : String) : Prop :=
  (∀ other, ¬Names F applications value other) ∧ idFor F value = some id ∧ ¬Taken applications id

def Shut (F : CaseFolding) (applications : List Application) (value : String) : Prop :=
  idFor F value = none ∨ ∃ id, idFor F value = some id ∧ Taken applications id

/-- No two applications have groups that are equal up to case and surrounding blanks. -/
def Distinct (F : CaseFolding) (applications : List Application) : Prop :=
  ∀ a ∈ applications, ∀ b ∈ applications, a.id ≠ b.id → ∀ group group',
    boundTo a.sourceGroup = some group → boundTo b.sourceGroup = some group' →
      keyOf F group ≠ keyOf F group'

structure Sound (F : CaseFolding) (applications : List Application) : Prop where
  ids : (applications.map (·.id)).Nodup
  distinct : Distinct F applications
  platform : ∀ row ∈ applications, row.id = PLATFORM_APPLICATION_ID → boundTo row.sourceGroup = none
  stored : ∀ row ∈ applications, ∀ group, row.sourceGroup = some group → trimmed group = group

structure Coherent (F : CaseFolding) (m : Mapping) : Prop where
  rows : Sound F m.applications
  byId : ∀ id held, m.byId.lookup id = some held ↔
    id ≠ PLATFORM_APPLICATION_ID ∧ ∃ row ∈ m.applications, row.id = id ∧ row.sourceGroup = held
  byGroup : ∀ key id, m.bySourceGroup.lookup key = some id ↔ Carries F m.applications key id

variable {m : Mapping} {other : String} {groups : List String}

section
variable {F : CaseFolding}

theorem Sound.row_eq {applications : List Application} (h : Sound F applications)
    {a b : Application} (ha : a ∈ applications) (hb : b ∈ applications) (hid : a.id = b.id) : a = b :=
  List.inj_on_of_nodup_map h.ids ha hb hid

theorem Carries.unique {applications : List Application} (hsound : Sound F applications)
    {key id id' : String} (h : Carries F applications key id) (h' : Carries F applications key id') :
    id = id' := by
  obtain ⟨a, ha, rfl, -, group, hgroup, hkey⟩ := h
  obtain ⟨b, hb, rfl, -, group', hgroup', hkey'⟩ := h'
  by_contra hne
  exact hsound.distinct a ha b hb hne group group' hgroup hgroup' (hkey.trans hkey'.symm)

theorem Names.unique {applications : List Application} (hsound : Sound F applications)
    {value id id' : String} (h : Names F applications value id) (h' : Names F applications value id') :
    id = id' := by
  rcases h with h | ⟨hnone, h⟩
  · rcases h' with h' | ⟨hnone', -⟩
    · exact h.unique hsound h'
    · exact absurd h (hnone' id)
  · rcases h' with h' | ⟨-, h'⟩
    · exact absurd h' (hnone id')
    · exact h.unique hsound h'

theorem Coherent.hit_iff (h : Coherent F m) (value id : String) :
    m.hit F value = some id ↔ Names F m.applications value id := by
  unfold Mapping.hit Names
  cases hwhole : m.bySourceGroup.lookup (F.toLowerCase value) with
  | some found =>
    have hcarries := (h.byGroup _ _).mp hwhole
    rw [Option.some_or, Option.some.injEq]
    constructor
    · rintro rfl
      exact .inl hcarries
    · rintro (hid | ⟨hnone, -⟩)
      · exact hcarries.unique h.rows hid
      · exact absurd hcarries (hnone found)
  | none =>
    have hnone : ∀ other, ¬Carries F m.applications (F.toLowerCase value) other := by
      intro other hother
      rw [(h.byGroup _ _).mpr hother] at hwhole
      cases hwhole
    rw [Option.none_or, h.byGroup]
    constructor
    · exact fun hlast => .inr ⟨hnone, hlast⟩
    · rintro (hid | ⟨-, hlast⟩)
      · exact absurd hid (hnone id)
      · exact hlast

theorem Coherent.hit_none (h : Coherent F m) {value : String} (hnone : m.hit F value = none)
    (id : String) : ¬Names F m.applications value id := by
  intro hnames
  rw [(h.hit_iff value id).mpr hnames] at hnone
  cases hnone

/-! ### Before the loop -/

theorem boundTo_eq_some {sourceGroup : Option String} {group : String} :
    boundTo sourceGroup = some group ↔ sourceGroup = some group ∧ trimmed group ≠ "" := by
  simp [boundTo, Option.filter_eq_some_iff]

theorem Sound.sublist {applications rows : List Application} (h : Sound F applications)
    (hsub : rows.Sublist applications) : Sound F rows where
  ids := h.ids.sublist (hsub.map _)
  distinct := fun a ha b hb => h.distinct a (hsub.subset ha) b (hsub.subset hb)
  platform := fun row hrow => h.platform row (hsub.subset hrow)
  stored := fun row hrow => h.stored row (hsub.subset hrow)

theorem foldl_mapRow {rows : List Application} (hsound : Sound F rows)
    (hplatform : ∀ row ∈ rows, row.id ≠ PLATFORM_APPLICATION_ID) (applications : List Application) :
    let m := rows.foldl (mapRow F) ⟨applications, ∅, ∅, [], []⟩
    m.applications = applications ∧ m.applicationIds = [] ∧ m.unmapped = [] ∧
      (∀ id held, m.byId.lookup id = some held ↔
        ∃ row ∈ rows, row.id = id ∧ row.sourceGroup = held) ∧
      ∀ key id, m.bySourceGroup.lookup key = some id ↔ Carries F rows key id := by
  induction rows using List.reverseRecOn with
  | nil =>
    refine ⟨rfl, rfl, rfl, fun id held => ?_, fun key id => ?_⟩
    · simp
    · simp [Carries]
  | append_singleton rows row ih =>
    have hprev := hsound.sublist (List.sublist_append_left rows [row])
    have hrow : row ∈ rows ++ [row] := List.mem_append_right _ (List.mem_singleton.mpr rfl)
    obtain ⟨happs, hids, hunmapped, hbyId, hbyGroup⟩ :=
      ih hprev fun r hr => hplatform r (List.mem_append_left _ hr)
    have hfresh : ∀ r ∈ rows, r.id ≠ row.id := by
      have hnodup := hsound.ids
      rw [List.map_append, List.nodup_append] at hnodup
      intro r hr heq
      exact hnodup.2.2 r.id (List.mem_map_of_mem hr) row.id (List.mem_singleton.mpr rfl) heq
    rw [List.foldl_append]
    generalize rows.foldl (mapRow F) ⟨applications, ∅, ∅, [], []⟩ = m at *
    refine ⟨happs, hids, hunmapped, fun id held => ?_, fun key id => ?_⟩
    · change (m.byId.insert row.id row.sourceGroup).lookup id = some held ↔ _
      by_cases hid : id = row.id
      · subst hid
        rw [AList.lookup_insert, Option.some.injEq]
        constructor
        · rintro rfl
          exact ⟨row, hrow, rfl, rfl⟩
        · rintro ⟨r, hr, hrid, rfl⟩
          rw [hsound.row_eq hr hrow hrid]
      · rw [AList.lookup_insert_ne hid, hbyId]
        constructor
        · rintro ⟨r, hr, hrest⟩
          exact ⟨r, List.mem_append_left _ hr, hrest⟩
        · rintro ⟨r, hr, hrid, hheld⟩
          rcases List.mem_append.mp hr with hr | hr
          · exact ⟨r, hr, hrid, hheld⟩
          · rw [List.mem_singleton.mp hr] at hrid
            exact absurd hrid.symm hid
    · have hsplit : Carries F (rows ++ [row]) key id ↔ Carries F rows key id ∨
          (row.id = id ∧ ∃ group, boundTo row.sourceGroup = some group ∧ keyOf F group = key) := by
        constructor
        · rintro ⟨r, hr, hrid, hne, hgroup⟩
          rcases List.mem_append.mp hr with hr | hr
          · exact .inl ⟨r, hr, hrid, hne, hgroup⟩
          · obtain rfl := List.mem_singleton.mp hr
            exact .inr ⟨hrid, hgroup⟩
        · rintro (⟨r, hr, hrest⟩ | ⟨rfl, hgroup⟩)
          · exact ⟨r, List.mem_append_left _ hr, hrest⟩
          · exact ⟨row, hrow, rfl, hplatform row hrow, hgroup⟩
      rw [hsplit, ← hbyGroup]
      simp only [List.foldl_cons, List.foldl_nil, mapRow]
      cases hbound : boundTo row.sourceGroup with
      | none => simp
      | some group =>
        dsimp only
        by_cases hkey : key = keyOf F group
        · subst hkey
          rw [AList.lookup_insert, Option.some.injEq]
          constructor
          · rintro rfl
            exact .inr ⟨rfl, group, rfl, rfl⟩
          · rintro (hold | ⟨hid, -⟩)
            · exfalso
              obtain ⟨r, hr, -, -, group', hgroup', hsame⟩ := (hbyGroup _ _).mp hold
              exact hsound.distinct r (List.mem_append_left _ hr) row hrow (hfresh r hr) group' group
                hgroup' hbound hsame
            · exact hid
        · rw [AList.lookup_insert_ne hkey]
          constructor
          · exact .inl
          · rintro (hold | ⟨-, group', hgroup', hsame⟩)
            · exact hold
            · cases hgroup'
              exact absurd hsame.symm hkey

theorem coherent_start {applications : List Application} (hsound : Sound F applications) :
    Coherent F (Mapping.start F applications) ∧ (Mapping.start F applications).applications =
      applications ∧ (Mapping.start F applications).applicationIds = [] := by
  have hsub : (applications.filter (·.id ≠ PLATFORM_APPLICATION_ID)).Sublist applications :=
    List.filter_sublist
  obtain ⟨happs, hids, -, hbyId, hbyGroup⟩ := foldl_mapRow (hsound.sublist hsub)
    (fun row hrow => by simpa using (List.mem_filter.mp hrow).2) applications
  refine ⟨⟨by rw [Mapping.start, happs]; exact hsound, fun id held => ?_, fun key id => ?_⟩, happs, hids⟩
  · rw [Mapping.start, happs, hbyId]
    constructor
    · rintro ⟨row, hrow, rfl, hheld⟩
      obtain ⟨hmem, hne⟩ := List.mem_filter.mp hrow
      exact ⟨by simpa using hne, row, hmem, rfl, hheld⟩
    · rintro ⟨hne, row, hrow, rfl, hheld⟩
      exact ⟨row, List.mem_filter.mpr ⟨hrow, by simpa using hne⟩, rfl, hheld⟩
  · rw [Mapping.start, happs, hbyGroup]
    constructor
    · rintro ⟨row, hrow, hrest⟩
      exact ⟨row, (List.mem_filter.mp hrow).1, hrest⟩
    · rintro ⟨row, hrow, rfl, hne, hgroup⟩
      exact ⟨row, List.mem_filter.mpr ⟨hrow, by simpa using hne⟩, rfl, hne, hgroup⟩

/-! ### One turn -/

def boundRow (applications : List Application) (id value : String) : Application :=
  match applications.find? (·.id == id) with
  | some row => { row with sourceGroup := some value }
  | none => ⟨id, lastPart value, some value⟩

def BoundRows (applications applications' : List Application) (id value : String) : Prop :=
  (applications'.map (·.id)).Nodup ∧
    ∀ row, row ∈ applications' ↔ (row ∈ applications ∧ row.id ≠ id) ∨
      row = boundRow applications id value

theorem boundRow_id (applications : List Application) (id value : String) :
    (boundRow applications id value).id = id := by
  unfold boundRow
  split
  · rename_i row hrow
    have hfound := List.find?_some hrow
    exact eq_of_beq hfound
  · rfl

theorem boundRow_group (applications : List Application) (id value : String) :
    (boundRow applications id value).sourceGroup = some value := by
  unfold boundRow
  split <;> rfl

theorem boundRows_rebound {applications : List Application} {row : Application}
    (hids : (applications.map (·.id)).Nodup) (hrow : row ∈ applications) (value : String) :
    BoundRows applications (rebound applications row.id (some value)) row.id value := by
  have hmap : (rebound applications row.id (some value)).map (·.id) = applications.map (·.id) := by
    rw [rebound, List.map_map]
    refine List.map_congr_left fun r _ => ?_
    dsimp only [Function.comp_apply]
    split <;> rfl
  have hfind : boundRow applications row.id value = { row with sourceGroup := some value } := by
    have hsome : (applications.find? (·.id == row.id)).isSome := by
      rw [List.find?_isSome]
      exact ⟨row, hrow, beq_self_eq_true _⟩
    obtain ⟨found, hfound⟩ := Option.isSome_iff_exists.mp hsome
    have hid := List.find?_some hfound
    rw [boundRow, hfound,
      List.inj_on_of_nodup_map hids (List.mem_of_find?_eq_some hfound) hrow (eq_of_beq hid)]
  refine ⟨hmap ▸ hids, fun r => ?_⟩
  rw [hfind, rebound, List.mem_map]
  constructor
  · rintro ⟨old, hold, rfl⟩
    split
    · rename_i hid
      rw [List.inj_on_of_nodup_map hids hold hrow hid]
      exact .inr rfl
    · rename_i hid
      exact .inl ⟨hold, hid⟩
  · rintro (⟨hold, hid⟩ | rfl)
    · exact ⟨r, hold, if_neg hid⟩
    · exact ⟨row, hrow, if_pos rfl⟩

theorem boundRows_append {applications : List Application} {id : String}
    (hids : (applications.map (·.id)).Nodup) (hnone : ∀ row ∈ applications, row.id ≠ id)
    (value : String) :
    BoundRows applications (applications ++ [⟨id, lastPart value, some value⟩]) id value := by
  have hfind : boundRow applications id value = ⟨id, lastPart value, some value⟩ := by
    have hmissing : applications.find? (·.id == id) = none := by
      rw [List.find?_eq_none]
      intro row hrow hid
      exact hnone row hrow (eq_of_beq hid)
    rw [boundRow, hmissing]
  constructor
  · rw [List.map_append, List.nodup_append]
    refine ⟨hids, List.nodup_singleton _, fun a ha b hb => ?_⟩
    obtain ⟨row, hrow, rfl⟩ := List.mem_map.mp ha
    rw [List.mem_singleton.mp hb]
    exact hnone row hrow
  · intro row
    rw [hfind, List.mem_append, List.mem_singleton]
    constructor
    · rintro (hold | rfl)
      · exact .inl ⟨hold, hnone row hold⟩
      · exact .inr rfl
    · rintro (⟨hold, -⟩ | rfl)
      · exact .inl hold
      · exact .inr rfl

inductive Turn (F : CaseFolding) (m : Mapping) (value : String) : Mapping → Prop where
  | named (id : String) (h : Names F m.applications value id) :
    Turn F m value { m with applicationIds := added m.applicationIds id }
  | refused (hnone : ∀ id, ¬Names F m.applications value id) (h : Shut F m.applications value) :
    Turn F m value { m with unmapped := added m.unmapped value }
  | bound (id : String) (applications : List Application) (h : Binds F m.applications value id)
    (hrows : BoundRows m.applications applications id value) :
    Turn F m value (m.bind F id value applications)

/-- A group can be bound: its id is there, or no application has the name it would be given. -/
def Nameable (F : CaseFolding) (applications : List Application) (value : String) : Prop :=
  ∀ id, Binds F applications value id → (∃ row ∈ applications, row.id = id) ∨
    ∀ row ∈ applications, row.name ≠ lastPart value

theorem mapGroup_cases (h : Coherent F m) (raw : String) :
    (trimmed raw = "" ∧ mapGroup F m raw = .ok m) ∨
      (trimmed raw ≠ "" ∧ ∃ m', mapGroup F m raw = .ok m' ∧ Turn F m (trimmed raw) m') ∨
        trimmed raw ≠ "" ∧ ¬Nameable F m.applications (trimmed raw) ∧
          ∃ error, mapGroup F m raw = .error error := by
  by_cases hblank : trimmed raw = ""
  · refine .inl ⟨hblank, ?_⟩
    rw [mapGroup]
    exact if_pos hblank
  refine .inr ?_
  have hturn : mapGroup F m raw = _ := if_neg hblank
  rw [hturn]
  cases hhit : m.hit F (trimmed raw) with
  | some id => exact .inl ⟨hblank, _, rfl, .named id ((h.hit_iff _ _).mp hhit)⟩
  | none =>
    have hnone := h.hit_none hhit
    dsimp only
    rw [applicationIdForGroup_trimmed]
    cases hid : idFor F (trimmed raw) with
    | none => exact .inl ⟨hblank, _, rfl, .refused hnone (.inl hid)⟩
    | some id =>
      dsimp only
      by_cases hplatform : id = PLATFORM_APPLICATION_ID
      · rw [if_pos hplatform]
        exact .inl ⟨hblank, _, rfl, .refused hnone (.inr ⟨id, hid, .inl hplatform⟩)⟩
      rw [if_neg hplatform]
      cases hheld : m.byId.lookup id with
      | some held =>
        obtain ⟨-, row, hrow, rfl, rfl⟩ := (h.byId _ _).mp hheld
        dsimp only
        by_cases hbound : (boundTo row.sourceGroup).isSome = true
        · rw [if_pos hbound]
          exact .inl ⟨hblank, _, rfl, .refused hnone (.inr ⟨row.id, hid, .inr ⟨row, hrow, rfl, hbound⟩⟩)⟩
        · rw [if_neg hbound]
          have hfree : ¬Taken m.applications row.id := by
            rintro (hbad | ⟨other, hother, hsame, hbad⟩)
            · exact hplatform hbad
            · rw [h.rows.row_eq hother hrow hsame] at hbad
              exact hbound hbad
          exact .inl ⟨hblank, _, rfl, .bound _ _ ⟨hnone, hid, hfree⟩
            (boundRows_rebound h.rows.ids hrow _)⟩
      | none =>
        have hmissing : ∀ row ∈ m.applications, row.id ≠ id := by
          intro row hrow hsame
          rw [(h.byId id row.sourceGroup).mpr ⟨hplatform, row, hrow, hsame, rfl⟩] at hheld
          cases hheld
        have hfree : ¬Taken m.applications id := by
          rintro (hbad | ⟨row, hrow, hsame, -⟩)
          · exact hplatform hbad
          · exact hmissing row hrow hsame
        dsimp only
        by_cases hname : m.applications.any (·.name == lastPart (trimmed raw)) = true
        · rw [if_pos hname]
          refine .inr ⟨hblank, fun hnameable => ?_, _, rfl⟩
          obtain ⟨row, hrow, hsame⟩ := List.any_eq_true.mp hname
          rcases hnameable id ⟨hnone, hid, hfree⟩ with ⟨other, hother, hbad⟩ | hfresh
          · exact hmissing other hother hbad
          · exact hfresh row hrow (eq_of_beq hsame)
        · rw [if_neg hname]
          exact .inl ⟨hblank, _, rfl, .bound _ _ ⟨hnone, hid, hfree⟩
            (boundRows_append h.rows.ids hmissing _)⟩

/-! ### What a turn changes -/

theorem keyOf_trimmed {value : String} (h : trimmed value = value) :
    keyOf F value = F.toLowerCase value := by
  rw [keyOf, h]

section
variable {applications applications' : List Application} {id value : String}
  (hsound : Sound F applications) (hbinds : Binds F applications value id)
  (hrows : BoundRows applications applications' id value) (hvalue : trimmed value = value)
  (hfull : value ≠ "")

include hbinds hrows hvalue hfull

theorem carries_bound (key other : String) :
    Carries F applications' key other ↔
      Carries F applications key other ∨ (key = F.toLowerCase value ∧ other = id) := by
  have hid : id ≠ PLATFORM_APPLICATION_ID := fun hbad => hbinds.2.2 (.inl hbad)
  constructor
  · rintro ⟨row, hrow, rfl, hne, group, hgroup, hkey⟩
    rcases (hrows.2 row).mp hrow with ⟨hold, -⟩ | rfl
    · exact .inl ⟨row, hold, rfl, hne, group, hgroup, hkey⟩
    · rw [boundRow_group, boundTo_eq_some] at hgroup
      obtain ⟨hgroup, -⟩ := hgroup
      cases hgroup
      rw [keyOf_trimmed hvalue] at hkey
      exact .inr ⟨hkey.symm, boundRow_id _ _ _⟩
  · rintro (⟨row, hrow, rfl, hne, group, hgroup, hkey⟩ | ⟨rfl, rfl⟩)
    · have hother : row.id ≠ id := by
        rintro rfl
        exact hbinds.2.2 (.inr ⟨row, hrow, rfl, by rw [hgroup]; rfl⟩)
      exact ⟨row, (hrows.2 row).mpr (.inl ⟨hrow, hother⟩), rfl, hne, group, hgroup, hkey⟩
    · refine ⟨_, (hrows.2 _).mpr (.inr rfl), boundRow_id _ _ _, hid, value, ?_, keyOf_trimmed hvalue⟩
      rw [boundRow_group, boundTo_eq_some, hvalue]
      exact ⟨rfl, hfull⟩

theorem taken_bound (other : String) :
    Taken applications' other ↔ Taken applications other ∨ other = id := by
  constructor
  · rintro (hplatform | ⟨row, hrow, rfl, hbound⟩)
    · exact .inl (.inl hplatform)
    · rcases (hrows.2 row).mp hrow with ⟨hold, -⟩ | rfl
      · exact .inl (.inr ⟨row, hold, rfl, hbound⟩)
      · exact .inr (boundRow_id _ _ _)
  · rintro ((hplatform | ⟨row, hrow, rfl, hbound⟩) | rfl)
    · exact .inl hplatform
    · have hother : row.id ≠ id := by
        rintro rfl
        exact hbinds.2.2 (.inr ⟨row, hrow, rfl, hbound⟩)
      exact .inr ⟨row, (hrows.2 row).mpr (.inl ⟨hrow, hother⟩), rfl, hbound⟩
    · refine .inr ⟨_, (hrows.2 _).mpr (.inr rfl), boundRow_id _ _ _, ?_⟩
      rw [boundRow_group, Option.isSome_iff_exists]
      exact ⟨value, boundTo_eq_some.mpr ⟨rfl, by rwa [hvalue]⟩⟩

omit hfull in
include hsound in
theorem sound_bound : Sound F applications' where
  ids := hrows.1
  distinct := by
    -- no row that was there has the key of the group, as the group named nothing
    have hold : ∀ row ∈ applications, ∀ group, boundTo row.sourceGroup = some group →
        keyOf F group ≠ F.toLowerCase value := by
      intro row hrow group hgroup hkey
      have hne : row.id ≠ PLATFORM_APPLICATION_ID := by
        intro hplatform
        rw [hsound.platform row hrow hplatform] at hgroup
        cases hgroup
      exact hbinds.1 row.id (.inl ⟨row, hrow, rfl, hne, group, hgroup, hkey⟩)
    have hnew : ∀ group, boundTo (boundRow applications id value).sourceGroup = some group →
        keyOf F group = F.toLowerCase value := by
      intro group hgroup
      rw [boundRow_group, boundTo_eq_some] at hgroup
      obtain ⟨hgroup, -⟩ := hgroup
      cases hgroup
      exact keyOf_trimmed hvalue
    intro a ha b hb hne group group' hgroup hgroup' hkey
    rcases (hrows.2 a).mp ha with ⟨ha, -⟩ | rfl
    · rcases (hrows.2 b).mp hb with ⟨hb, -⟩ | rfl
      · exact hsound.distinct a ha b hb hne group group' hgroup hgroup' hkey
      · exact hold a ha group hgroup (hkey.trans (hnew group' hgroup'))
    · rcases (hrows.2 b).mp hb with ⟨hb, -⟩ | rfl
      · exact hold b hb group' hgroup' (hkey.symm.trans (hnew group hgroup))
      · exact hne rfl
  platform := by
    intro row hrow hplatform
    rcases (hrows.2 row).mp hrow with ⟨hold, -⟩ | rfl
    · exact hsound.platform row hold hplatform
    · rw [boundRow_id] at hplatform
      exact absurd (.inl hplatform) hbinds.2.2
  stored := by
    intro row hrow group hgroup
    rcases (hrows.2 row).mp hrow with ⟨hold, -⟩ | rfl
    · exact hsound.stored row hold group hgroup
    · rw [boundRow_group] at hgroup
      cases hgroup
      exact hvalue

end

theorem names_congr {applications applications' : List Application} {value : String}
    (hwhole : ∀ id, Carries F applications' (F.toLowerCase value) id ↔
      Carries F applications (F.toLowerCase value) id)
    (hlast : ∀ id, Carries F applications' (F.toLowerCase (lastPart value)) id ↔
      Carries F applications (F.toLowerCase (lastPart value)) id) (id : String) :
    Names F applications' value id ↔ Names F applications value id := by
  simp only [Names, hwhole, hlast]

def Settled (F : CaseFolding) (applications : List Application) (value : String) : Prop :=
  (∃ id, Names F applications value id) ∨ Shut F applications value

section
variable {applications applications' : List Application} {id value : String}
  (hbinds : Binds F applications value id)
  (hrows : BoundRows applications applications' id value) (hvalue : trimmed value = value)
  (hfull : value ≠ "")

include hbinds hrows hvalue hfull

theorem names_bound_of_ne (hid : idFor F other ≠ some id) (name : String) :
    Names F applications' other name ↔ Names F applications other name := by
  have hkey : ∀ key, key = F.toLowerCase other ∨ key = F.toLowerCase (lastPart other) →
      key ≠ F.toLowerCase value := by
    rintro key hkey rfl
    exact hid ((idFor_of_key hkey).symm.trans hbinds.2.1)
  refine names_congr (fun i => ?_) (fun i => ?_) name
  · rw [carries_bound hbinds hrows hvalue hfull, or_iff_left]
    exact fun hbad => hkey _ (.inl rfl) hbad.1
  · rw [carries_bound hbinds hrows hvalue hfull, or_iff_left]
    exact fun hbad => hkey _ (.inr rfl) hbad.1

theorem settled_bound (h : Settled F applications other) :
    Settled F applications' other ∧
      ∀ name, Names F applications' other name ↔ Names F applications other name := by
  have hcarries := carries_bound hbinds hrows hvalue hfull
  have hnames : ∀ name, Names F applications' other name ↔ Names F applications other name := by
    by_cases hid : idFor F other = some id
    · -- the group that is bound has the id of this one, so this one names an application
      have hnamed : ∃ name, Names F applications other name := by
        rcases h with h | hnone | ⟨taken, htaken, hbad⟩
        · exact h
        · rw [hid] at hnone
          cases hnone
        · rw [hid, Option.some.injEq] at htaken
          exact absurd (htaken ▸ hbad) hbinds.2.2
      obtain ⟨named, hnamed⟩ := hnamed
      have hwhole : F.toLowerCase value ≠ F.toLowerCase other := by
        intro hsame
        refine hbinds.1 named ?_
        unfold Names at hnamed ⊢
        rw [hsame, lastPart_of_key hsame]
        exact hnamed
      have hsame : ∀ name, Carries F applications' (F.toLowerCase other) name ↔
          Carries F applications (F.toLowerCase other) name := by
        intro name
        rw [hcarries, or_iff_left]
        exact fun hbad => hwhole hbad.1.symm
      by_cases hlast : F.toLowerCase value = F.toLowerCase (lastPart other)
      · -- then it is named by the whole group, which comes first
        have hfirst : Carries F applications (F.toLowerCase other) named := by
          rcases hnamed with hfirst | ⟨-, hleaf⟩
          · exact hfirst
          · rw [← hlast] at hleaf
            exact absurd (.inl hleaf) (hbinds.1 named)
        intro name
        unfold Names
        rw [hsame]
        refine or_congr_right (iff_of_false ?_ ?_)
        · rintro ⟨hnone, -⟩
          exact hnone named ((hsame named).mpr hfirst)
        · rintro ⟨hnone, -⟩
          exact hnone named hfirst
      · refine names_congr hsame fun name => ?_
        rw [hcarries, or_iff_left]
        exact fun hbad => hlast hbad.1.symm
    · exact names_bound_of_ne hbinds hrows hvalue hfull hid
  refine ⟨?_, hnames⟩
  rcases h with ⟨name, hname⟩ | hnone | ⟨taken, htaken, hheld⟩
  · exact .inl ⟨name, (hnames name).mpr hname⟩
  · exact .inr (.inl hnone)
  · exact .inr (.inr ⟨taken, htaken, (taken_bound hbinds hrows hvalue hfull taken).mpr (.inl hheld)⟩)

end

/-! ### The loop -/

theorem mem_added {values : List String} {value : String} :
    other ∈ added values value ↔ other ∈ values ∨ other = value := by
  unfold added
  split
  · rename_i hin
    rw [List.contains_iff_mem] at hin
    constructor
    · exact .inl
    · rintro (hother | rfl)
      · exact hother
      · exact hin
  · rw [List.mem_append, List.mem_singleton]

structure Keeps (F : CaseFolding) (m m' : Mapping) : Prop where
  coherent : Coherent F m'
  rows : ∀ row ∈ m.applications, (boundTo row.sourceGroup).isSome = true → row ∈ m'.applications
  settled : ∀ value, Settled F m.applications value → Settled F m'.applications value ∧
    ∀ id, Names F m'.applications value id ↔ Names F m.applications value id

theorem Keeps.refl (h : Coherent F m) : Keeps F m m :=
  ⟨h, fun _ hrow _ => hrow, fun _ hsettled => ⟨hsettled, fun _ => Iff.rfl⟩⟩

theorem Keeps.trans {m' m'' : Mapping} (h : Keeps F m m') (h' : Keeps F m' m'') : Keeps F m m'' where
  coherent := h'.coherent
  rows := fun row hrow hbound => h'.rows row (h.rows row hrow hbound) hbound
  settled := by
    intro value hsettled
    obtain ⟨hmid, hnames⟩ := h.settled value hsettled
    obtain ⟨hend, hnames'⟩ := h'.settled value hmid
    exact ⟨hend, fun id => (hnames' id).trans (hnames id)⟩

theorem coherent_bound (h : Coherent F m) {value id : String} {applications : List Application}
    (hbinds : Binds F m.applications value id)
    (hrows : BoundRows m.applications applications id value) (hvalue : trimmed value = value)
    (hfull : value ≠ "") : Coherent F (m.bind F id value applications) where
  rows := sound_bound h.rows hbinds hrows hvalue
  byId := by
    intro other held
    change (m.byId.insert id (some value)).lookup other = some held ↔
      _ ∧ ∃ row ∈ applications, _
    by_cases hother : other = id
    · subst hother
      rw [AList.lookup_insert, Option.some.injEq]
      constructor
      · rintro rfl
        exact ⟨fun hplatform => hbinds.2.2 (.inl hplatform), _, (hrows.2 _).mpr (.inr rfl),
          boundRow_id _ _ _, boundRow_group _ _ _⟩
      · rintro ⟨-, row, hrow, hid, rfl⟩
        rcases (hrows.2 row).mp hrow with ⟨-, hne⟩ | rfl
        · exact absurd hid hne
        · exact (boundRow_group _ _ _).symm
    · rw [AList.lookup_insert_ne hother, h.byId]
      refine and_congr_right fun _ => ?_
      constructor
      · rintro ⟨row, hrow, rfl, hheld⟩
        exact ⟨row, (hrows.2 row).mpr (.inl ⟨hrow, hother⟩), rfl, hheld⟩
      · rintro ⟨row, hrow, rfl, hheld⟩
        rcases (hrows.2 row).mp hrow with ⟨hold, -⟩ | rfl
        · exact ⟨row, hold, rfl, hheld⟩
        · exact absurd (boundRow_id _ _ _) hother
  byGroup := by
    intro key other
    change (m.bySourceGroup.insert (F.toLowerCase value) id).lookup key = some other ↔
      Carries F applications key other
    rw [carries_bound hbinds hrows hvalue hfull]
    by_cases hkey : key = F.toLowerCase value
    · subst hkey
      rw [AList.lookup_insert, Option.some.injEq]
      constructor
      · exact fun hid => .inr ⟨rfl, hid.symm⟩
      · rintro (hold | ⟨-, rfl⟩)
        · exact absurd (.inl hold) (hbinds.1 other)
        · rfl
    · rw [AList.lookup_insert_ne hkey, h.byGroup, or_iff_left]
      exact fun hbad => hkey hbad.1

theorem Turn.spec {m' : Mapping} {value : String} (h : Coherent F m) (hturn : Turn F m value m')
    (hvalue : trimmed value = value) (hfull : value ≠ "") :
    Keeps F m m' ∧ Settled F m'.applications value ∧
      ∀ id, id ∈ m'.applicationIds ↔ id ∈ m.applicationIds ∨ Names F m'.applications value id := by
  cases hturn with
  | named id hnames =>
    refine ⟨⟨⟨h.rows, h.byId, h.byGroup⟩, fun row hrow _ => hrow,
      fun _ hsettled => ⟨hsettled, fun _ => Iff.rfl⟩⟩, .inl ⟨id, hnames⟩, fun other => ?_⟩
    rw [mem_added]
    refine or_congr_right ⟨?_, fun hother => hother.unique h.rows hnames⟩
    rintro rfl
    exact hnames
  | refused hnone hshut =>
    refine ⟨⟨⟨h.rows, h.byId, h.byGroup⟩, fun row hrow _ => hrow,
      fun _ hsettled => ⟨hsettled, fun _ => Iff.rfl⟩⟩, .inr hshut, fun other => ?_⟩
    exact (or_iff_left (hnone other)).symm
  | bound id applications hbinds hrows =>
    have hcoherent := coherent_bound h hbinds hrows hvalue hfull
    have hnames : Names F applications value id :=
      .inl ((carries_bound hbinds hrows hvalue hfull _ _).mpr (.inr ⟨rfl, rfl⟩))
    refine ⟨⟨hcoherent, fun row hrow hbound => ?_,
      fun _ hsettled => settled_bound hbinds hrows hvalue hfull hsettled⟩, .inl ⟨id, hnames⟩,
      fun other => ?_⟩
    · refine (hrows.2 row).mpr (.inl ⟨hrow, ?_⟩)
      rintro rfl
      exact hbinds.2.2 (.inr ⟨row, hrow, rfl, hbound⟩)
    · change other ∈ added m.applicationIds id ↔ _
      rw [mem_added]
      refine or_congr_right ⟨?_, fun hother => hother.unique hcoherent.rows hnames⟩
      rintro rfl
      exact hnames

theorem mapGroups_spec (h : Coherent F m) (groups : List String) :
    Keeps F m (mapGroups F m groups).1 ∧ ((mapGroups F m groups).2 = none →
      (∀ raw ∈ groups, trimmed raw ≠ "" →
        Settled F (mapGroups F m groups).1.applications (trimmed raw)) ∧
      ∀ id, id ∈ (mapGroups F m groups).1.applicationIds ↔ id ∈ m.applicationIds ∨
        ∃ raw ∈ groups, trimmed raw ≠ "" ∧
          Names F (mapGroups F m groups).1.applications (trimmed raw) id) := by
  induction groups generalizing m with
  | nil =>
    refine ⟨Keeps.refl h, fun _ => ⟨fun raw hraw => absurd hraw List.not_mem_nil, fun id => ?_⟩⟩
    refine (or_iff_left ?_).symm
    rintro ⟨raw, hraw, -⟩
    exact absurd hraw List.not_mem_nil
  | cons raw groups ih =>
    rcases mapGroup_cases h raw with ⟨hblank, hmap⟩ | ⟨hfull, m', hmap, hturn⟩ | ⟨hfull, -, error, hmap⟩
    · simp only [mapGroups, hmap]
      obtain ⟨hkeeps, hend⟩ := ih h
      refine ⟨hkeeps, fun hnone => ?_⟩
      obtain ⟨hsettled, hids⟩ := hend hnone
      refine ⟨fun other hother hne => ?_, fun id => ?_⟩
      · rcases List.mem_cons.mp hother with rfl | hother
        · exact absurd hblank hne
        · exact hsettled other hother hne
      · rw [hids]
        refine or_congr_right ⟨?_, ?_⟩
        · rintro ⟨other, hother, hrest⟩
          exact ⟨other, List.mem_cons_of_mem _ hother, hrest⟩
        · rintro ⟨other, hother, hne, hnames⟩
          rcases List.mem_cons.mp hother with rfl | hother
          · exact absurd hblank hne
          · exact ⟨other, hother, hne, hnames⟩
    · simp only [mapGroups, hmap]
      obtain ⟨hfirst, hthis, hadded⟩ := hturn.spec h (trimmed_trimmed raw) hfull
      obtain ⟨hkeeps, hend⟩ := ih hfirst.coherent
      refine ⟨hfirst.trans hkeeps, fun hnone => ?_⟩
      obtain ⟨hsettled, hids⟩ := hend hnone
      obtain ⟨hstays, hsame⟩ := hkeeps.settled _ hthis
      refine ⟨fun other hother hne => ?_, fun id => ?_⟩
      · rcases List.mem_cons.mp hother with rfl | hother
        · exact hstays
        · exact hsettled other hother hne
      · rw [hids, hadded, ← hsame]
        constructor
        · rintro ((hold | hnames) | ⟨other, hother, hrest⟩)
          · exact .inl hold
          · exact .inr ⟨raw, List.mem_cons_self, hfull, hnames⟩
          · exact .inr ⟨other, List.mem_cons_of_mem _ hother, hrest⟩
        · rintro (hold | ⟨other, hother, hne, hnames⟩)
          · exact .inl (.inl hold)
          · rcases List.mem_cons.mp hother with rfl | hother
            · exact .inl (.inr hnames)
            · exact .inr ⟨other, hother, hne, hnames⟩
    · simp only [mapGroups, hmap]
      refine ⟨Keeps.refl h, ?_⟩
      intro hnone
      cases hnone

theorem mapGroups_settled (h : Coherent F m)
    (hsettled : ∀ raw ∈ groups, trimmed raw ≠ "" → Settled F m.applications (trimmed raw)) :
    (mapGroups F m groups).2 = none ∧ (mapGroups F m groups).1.applications = m.applications := by
  induction groups generalizing m with
  | nil => exact ⟨rfl, rfl⟩
  | cons raw groups ih =>
    have hrest : ∀ other ∈ groups, trimmed other ≠ "" → Settled F m.applications (trimmed other) :=
      fun other hother => hsettled other (List.mem_cons_of_mem _ hother)
    have hunbound : trimmed raw ≠ "" → ∀ id, ¬Binds F m.applications (trimmed raw) id := by
      rintro hfull id ⟨hnone, hid, hfree⟩
      rcases hsettled raw List.mem_cons_self hfull with ⟨name, hname⟩ | hshut | ⟨other, hother, htaken⟩
      · exact hnone name hname
      · rw [hid] at hshut
        cases hshut
      · rw [hid, Option.some.injEq] at hother
        exact hfree (hother ▸ htaken)
    rcases mapGroup_cases h raw with ⟨-, hmap⟩ | ⟨hfull, m', hmap, hturn⟩ | ⟨hfull, hbad, -⟩
    · simp only [mapGroups, hmap]
      exact ih h hrest
    · simp only [mapGroups, hmap]
      cases hturn with
      | named id _ => exact ih (m := { m with applicationIds := _ }) ⟨h.rows, h.byId, h.byGroup⟩ hrest
      | refused _ _ => exact ih (m := { m with unmapped := _ }) ⟨h.rows, h.byId, h.byGroup⟩ hrest
      | bound id _ hbinds _ => exact absurd hbinds (hunbound hfull id)
    · exact absurd (fun id hbinds => absurd hbinds (hunbound hfull id)) hbad

/-! ### Names and orders -/

theorem leafOf_of_lastPart {value : String} (h : lastPart value = lastPart value') :
    leafOf value = leafOf value' := by
  unfold lastPart at h
  cases hleaf : leafOf value with
  | none =>
    cases hleaf' : leafOf value' with
    | none => rfl
    | some leaf =>
      rw [hleaf, hleaf', Option.getD_none, Option.getD_some] at h
      rw [h, leafOf_leaf hleaf'] at hleaf
      cases hleaf
  | some leaf =>
    cases hleaf' : leafOf value' with
    | none =>
      rw [hleaf, hleaf', Option.getD_none, Option.getD_some] at h
      rw [← h, leafOf_leaf hleaf] at hleaf'
      cases hleaf'
    | some leaf' =>
      rw [hleaf, hleaf', Option.getD_some, Option.getD_some] at h
      rw [h]

theorem idFor_of_lastPart {value : String} (h : lastPart value = lastPart value') :
    idFor F value = idFor F value' := by
  rw [idFor, idFor, leafOf_of_lastPart h]

def valuesOf (groups : List String) : List String := (groups.map trimmed).filter (· ≠ "")

theorem mem_valuesOf {value : String} :
    value ∈ valuesOf groups ↔ ∃ raw ∈ groups, trimmed raw ≠ "" ∧ trimmed raw = value := by
  simp only [valuesOf, List.mem_filter, List.mem_map, decide_not, Bool.not_eq_true',
    decide_eq_false_iff_not]
  constructor
  · rintro ⟨⟨raw, hraw, rfl⟩, hne⟩
    exact ⟨raw, hraw, hne, rfl⟩
  · rintro ⟨raw, hraw, hne, rfl⟩
    exact ⟨⟨raw, hraw, rfl⟩, hne⟩

theorem nameable_turn {m' : Mapping} {value : String} (hturn : Turn F m value m')
    (hvalue : trimmed value = value) (hfull : value ≠ "") (h : Nameable F m.applications other) :
    Nameable F m'.applications other := by
  cases hturn with
  | named _ _ => exact h
  | refused _ _ => exact h
  | bound id applications hbinds hrows =>
    rintro i ⟨hnone, hid, hfree⟩
    have htaken := taken_bound hbinds hrows hvalue hfull
    have hne : i ≠ id := fun heq => hfree ((htaken i).mpr (.inr heq))
    have hother : idFor F other ≠ some id := by
      rw [hid]
      exact fun heq => hne (Option.some.inj heq)
    have hbinds' : Binds F m.applications other i := by
      refine ⟨fun name hname => hnone name ?_, hid, fun hbad => hfree ((htaken i).mpr (.inl hbad))⟩
      exact (names_bound_of_ne hbinds hrows hvalue hfull hother name).mpr hname
    rcases h i hbinds' with ⟨row, hrow, rfl⟩ | hnames
    · exact .inl ⟨row, (hrows.2 row).mpr (.inl ⟨hrow, hne⟩), rfl⟩
    · refine .inr fun row hrow => ?_
      rcases (hrows.2 row).mp hrow with ⟨hold, -⟩ | rfl
      · exact hnames row hold
      · unfold boundRow
        split
        · rename_i found hfound
          exact hnames found (List.mem_of_find?_eq_some hfound)
        · exact fun hsame => hother ((idFor_of_lastPart hsame).symm.trans hbinds.2.1)

theorem mapGroups_ok (h : Coherent F m)
    (hnameable : ∀ value ∈ valuesOf groups, Nameable F m.applications value) :
    (mapGroups F m groups).2 = none := by
  induction groups generalizing m with
  | nil => rfl
  | cons raw groups ih =>
    have hrest : ∀ value ∈ valuesOf groups, Nameable F m.applications value := by
      intro value hvalue
      obtain ⟨other, hother, hne, rfl⟩ := mem_valuesOf.mp hvalue
      exact hnameable _ (mem_valuesOf.mpr ⟨other, List.mem_cons_of_mem _ hother, hne, rfl⟩)
    rcases mapGroup_cases h raw with ⟨-, hmap⟩ | ⟨hfull, m', hmap, hturn⟩ | ⟨hfull, hbad, -⟩
    · simp only [mapGroups, hmap]
      exact ih h hrest
    · simp only [mapGroups, hmap]
      exact ih (hturn.spec h (trimmed_trimmed raw) hfull).1.coherent fun value hvalue =>
        nameable_turn hturn (trimmed_trimmed raw) hfull (hrest value hvalue)
    · exact absurd (hnameable _ (mem_valuesOf.mpr ⟨raw, List.mem_cons_self, hfull, rfl⟩)) hbad

theorem find?_bound {applications applications' : List Application} {id value : String}
    (hids : (applications.map (·.id)).Nodup) (hrows : BoundRows applications applications' id value)
    (hne : other ≠ id) :
    applications'.find? (·.id == other) = applications.find? (·.id == other) := by
  have hmem : ∀ {rows : List Application}, (rows.map (·.id)).Nodup → ∀ row,
      rows.find? (·.id == other) = some row ↔ row ∈ rows ∧ row.id = other := by
    intro rows hnodup row
    constructor
    · intro hfound
      have hid := List.find?_some hfound
      exact ⟨List.mem_of_find?_eq_some hfound, eq_of_beq hid⟩
    · rintro ⟨hrow, rfl⟩
      have hsome : (rows.find? (·.id == row.id)).isSome := by
        rw [List.find?_isSome]
        exact ⟨row, hrow, beq_self_eq_true _⟩
      obtain ⟨found, hfound⟩ := Option.isSome_iff_exists.mp hsome
      have hid := List.find?_some hfound
      rw [hfound, List.inj_on_of_nodup_map hnodup (List.mem_of_find?_eq_some hfound) hrow (eq_of_beq hid)]
  apply Option.ext
  intro row
  rw [hmem hrows.1, hmem hids]
  refine and_congr_left fun hid => ?_
  rw [hrows.2]
  constructor
  · rintro (⟨hold, -⟩ | rfl)
    · exact hold
    · exact absurd ((boundRow_id _ _ _).symm.trans hid) (Ne.symm hne)
  · intro hold
    exact .inl ⟨hold, by rw [hid]; exact hne⟩

theorem mem_mapGroups (h : Coherent F m)
    (hids : (groups.filterMap fun raw => idFor F (trimmed raw)).Nodup)
    (hend : (mapGroups F m groups).2 = none) (row : Application) :
    row ∈ (mapGroups F m groups).1.applications ↔
      (row ∈ m.applications ∧ ∀ value ∈ valuesOf groups, ¬Binds F m.applications value row.id) ∨
        ∃ value ∈ valuesOf groups, ∃ id, Binds F m.applications value id ∧
          row = boundRow m.applications id value := by
  have hskip : ∀ (m : Mapping) (raw : String) (groups : List String),
      (trimmed raw ≠ "" → ∀ id, ¬Binds F m.applications (trimmed raw) id) →
      (((row ∈ m.applications ∧ ∀ value ∈ valuesOf (raw :: groups),
          ¬Binds F m.applications value row.id) ∨
        ∃ value ∈ valuesOf (raw :: groups), ∃ id, Binds F m.applications value id ∧
          row = boundRow m.applications id value) ↔
      (row ∈ m.applications ∧ ∀ value ∈ valuesOf groups, ¬Binds F m.applications value row.id) ∨
        ∃ value ∈ valuesOf groups, ∃ id, Binds F m.applications value id ∧
          row = boundRow m.applications id value) := by
    intro m raw groups hunbound
    have hmem : ∀ value, value ∈ valuesOf (raw :: groups) →
        value ∈ valuesOf groups ∨ ∀ id, ¬Binds F m.applications value id := by
      intro value hvalue
      obtain ⟨other, hother, hne, rfl⟩ := mem_valuesOf.mp hvalue
      rcases List.mem_cons.mp hother with rfl | hother
      · exact .inr (hunbound hne)
      · exact .inl (mem_valuesOf.mpr ⟨other, hother, hne, rfl⟩)
    have hlater : ∀ value ∈ valuesOf groups, value ∈ valuesOf (raw :: groups) := by
      intro value hvalue
      obtain ⟨other, hother, hne, rfl⟩ := mem_valuesOf.mp hvalue
      exact mem_valuesOf.mpr ⟨other, List.mem_cons_of_mem _ hother, hne, rfl⟩
    constructor
    · rintro (⟨hold, hall⟩ | ⟨value, hvalue, id, hbinds, hrow⟩)
      · exact .inl ⟨hold, fun value hvalue => hall value (hlater value hvalue)⟩
      · rcases hmem value hvalue with hvalue | hnot
        · exact .inr ⟨value, hvalue, id, hbinds, hrow⟩
        · exact absurd hbinds (hnot id)
    · rintro (⟨hold, hall⟩ | ⟨value, hvalue, hrest⟩)
      · refine .inl ⟨hold, fun value hvalue => ?_⟩
        rcases hmem value hvalue with hvalue | hnot
        · exact hall value hvalue
        · exact hnot _
      · exact .inr ⟨value, hlater value hvalue, hrest⟩
  induction groups generalizing m with
  | nil => simp [mapGroups, valuesOf]
  | cons raw groups ih =>
    have hidsRest : (groups.filterMap fun raw => idFor F (trimmed raw)).Nodup :=
      hids.sublist ((List.sublist_cons_self raw groups).filterMap _)
    rcases mapGroup_cases h raw with ⟨hblank, hmap⟩ | ⟨hfull, m', hmap, hturn⟩ | ⟨-, -, error, hmap⟩
    · simp only [mapGroups, hmap] at hend ⊢
      exact (ih h hidsRest hend).trans (hskip m raw groups fun hne => absurd hblank hne).symm
    · have hkeeps := (hturn.spec h (trimmed_trimmed raw) hfull).1
      simp only [mapGroups, hmap] at hend ⊢
      refine (ih hkeeps.coherent hidsRest hend).trans ?_
      cases hturn with
      | named id hnames =>
        exact (hskip m raw groups fun _ _ hbinds => hbinds.1 id hnames).symm
      | refused hnone hshut =>
        refine (hskip m raw groups fun _ id hbinds => ?_).symm
        rcases hshut with hnone | ⟨other, hother, htaken⟩
        · rw [hbinds.2.1] at hnone
          cases hnone
        · rw [hbinds.2.1, Option.some.injEq] at hother
          exact hbinds.2.2 (hother ▸ htaken)
      | bound id applications hbinds hrows =>
        change (row ∈ applications ∧ ∀ value ∈ valuesOf groups, ¬Binds F applications value row.id) ∨
          (∃ value ∈ valuesOf groups, ∃ i, Binds F applications value i ∧
            row = boundRow applications i value) ↔ _
        have hvalue := trimmed_trimmed raw
        -- a later group has another id, so what this turn bound is nothing to it
        have hother : ∀ value ∈ valuesOf groups, idFor F value ≠ some id := by
          intro value hin hid
          obtain ⟨other, hother, -, rfl⟩ := mem_valuesOf.mp hin
          have hcons : (raw :: groups).filterMap (fun raw => idFor F (trimmed raw)) =
              id :: groups.filterMap (fun raw => idFor F (trimmed raw)) :=
            List.filterMap_cons_some hbinds.2.1
          rw [hcons, List.nodup_cons] at hids
          exact hids.1 (List.mem_filterMap.mpr ⟨other, hother, hid⟩)
        have hne : ∀ value ∈ valuesOf groups, ∀ i, Binds F m.applications value i → i ≠ id := by
          rintro value hin i hbinds' rfl
          exact hother value hin hbinds'.2.1
        have hsame : ∀ value ∈ valuesOf groups, ∀ i,
            Binds F applications value i ↔ Binds F m.applications value i := by
          intro value hin i
          have hnames := names_bound_of_ne hbinds hrows hvalue hfull (hother value hin)
          unfold Binds
          simp only [hnames, taken_bound hbinds hrows hvalue hfull]
          refine and_congr_right fun _ => and_congr_right fun hid => not_congr (or_iff_left ?_)
          rintro rfl
          exact hother value hin hid
        have hfirst : trimmed raw ∈ valuesOf (raw :: groups) :=
          mem_valuesOf.mpr ⟨raw, List.mem_cons_self, hfull, rfl⟩
        have hlater : ∀ value ∈ valuesOf groups, value ∈ valuesOf (raw :: groups) := by
          intro value hin
          obtain ⟨other, hother, hne, rfl⟩ := mem_valuesOf.mp hin
          exact mem_valuesOf.mpr ⟨other, List.mem_cons_of_mem _ hother, hne, rfl⟩
        have hcases : ∀ value ∈ valuesOf (raw :: groups),
            value = trimmed raw ∨ value ∈ valuesOf groups := by
          intro value hin
          obtain ⟨other, hother, hne, rfl⟩ := mem_valuesOf.mp hin
          rcases List.mem_cons.mp hother with rfl | hother
          · exact .inl rfl
          · exact .inr (mem_valuesOf.mpr ⟨other, hother, hne, rfl⟩)
        have hrowSame : ∀ value, ∀ i, i ≠ id →
            boundRow applications i value = boundRow m.applications i value := by
          intro value i hi
          rw [boundRow, boundRow, find?_bound h.rows.ids hrows hi]
        constructor
        · rintro (⟨hin, hall⟩ | ⟨value, hin, i, hbinds', rfl⟩)
          · rcases (hrows.2 row).mp hin with ⟨hold, hid⟩ | rfl
            · refine .inl ⟨hold, fun value hvalue hbad => ?_⟩
              rcases hcases value hvalue with rfl | hvalue
              · have heq := hbad.2.1.symm.trans hbinds.2.1
                exact hid (Option.some.inj heq)
              · exact hall value hvalue ((hsame value hvalue _).mpr hbad)
            · exact .inr ⟨trimmed raw, hfirst, id, hbinds, rfl⟩
          · have hold := (hsame value hin i).mp hbinds'
            refine .inr ⟨value, hlater value hin, i, hold, ?_⟩
            exact hrowSame value i (hne value hin i hold)
        · rintro (⟨hold, hall⟩ | ⟨value, hin, i, hbinds', rfl⟩)
          · have hid : row.id ≠ id := fun heq => hall _ hfirst (heq ▸ hbinds)
            refine .inl ⟨(hrows.2 row).mpr (.inl ⟨hold, hid⟩), fun value hvalue hbad => ?_⟩
            exact hall value (hlater value hvalue) ((hsame value hvalue _).mp hbad)
          · rcases hcases value hin with rfl | hin
            · obtain rfl := Option.some.inj (hbinds'.2.1.symm.trans hbinds.2.1)
              refine .inl ⟨(hrows.2 _).mpr (.inr rfl), fun value hvalue hbad => ?_⟩
              rw [boundRow_id] at hbad
              exact hne value hvalue _ ((hsame value hvalue _).mp hbad) rfl
            · have hi := hne value hin i hbinds'
              exact .inr ⟨value, hin, i, (hsame value hin i).mpr hbinds', (hrowSame value i hi).symm⟩
    · simp only [mapGroups, hmap] at hend
      cases hend

end

end Apim.Groups
