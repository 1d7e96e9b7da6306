import Apim.Shared.Backend
import Mathlib.Data.List.Rotate

/-!
# The rotation of a pool

Which URL a round-robin pool names first, over the cursors a routing table hands to a route
(`shared/backend.ts:57-85`, `data-plane/src/route-table.ts:109-114`). The cursor returns to zero at a
modulus of its own. A cycle that crosses it names what follows zero in the place of what the rotation
had next (`fair_iff_kept`). A weight is a whole number, as `control-plane/src/backend-pool.ts` admits
no other.
-/

namespace Apim.Backend
open Overlay

/-! ### The cursors of a table -/

abbrev Cursors := Dict String Nat

def CURSOR_MODULUS : Nat := 1000000

/-- `nextCursor` (`data-plane/src/route-table.ts:110-114`). -/
def nextCursor (cursors : Cursors) (resourceId : String) : Nat × Cursors :=
  let next := ((cursors.lookup resourceId).getD 0 + 1) % CURSOR_MODULUS
  (next, cursors.insert resourceId next)

def afterCalls (cursors : Cursors) (calls : List String) : Cursors :=
  calls.foldl (fun cursors resourceId => (nextCursor cursors resourceId).2) cursors

def cursorsOf (resourceId : String) (cursors : Cursors) : List String → List Nat
  | [] => []
  | call :: calls =>
    let turn := nextCursor cursors call
    if call = resourceId then turn.1 :: cursorsOf resourceId turn.2 calls
    else cursorsOf resourceId turn.2 calls

theorem nextCursor_lt (cursors : Cursors) (resourceId : String) :
    (nextCursor cursors resourceId).1 < CURSOR_MODULUS :=
  Nat.mod_lt _ (by decide)

theorem nextCursor_other (cursors : Cursors) {call resourceId : String} (h : call ≠ resourceId) :
    (nextCursor (nextCursor cursors call).2 resourceId).1 = (nextCursor cursors resourceId).1 := by
  simp only [nextCursor, AList.lookup_insert_ne h.symm]

theorem nextCursor_again (cursors : Cursors) (resourceId : String) :
    (nextCursor (nextCursor cursors resourceId).2 resourceId).1 =
      ((nextCursor cursors resourceId).1 + 1) % CURSOR_MODULUS := by
  simp only [nextCursor, AList.lookup_insert, Option.getD_some]

theorem cursorsOf_eq (resourceId : String) (cursors : Cursors) (calls : List String) :
    cursorsOf resourceId cursors calls = (List.range (calls.count resourceId)).map fun k =>
      ((nextCursor cursors resourceId).1 + k) % CURSOR_MODULUS := by
  induction calls generalizing cursors with
  | nil => rfl
  | cons call calls ih =>
    by_cases hcall : call = resourceId
    · subst hcall
      have hfirst := Nat.mod_eq_of_lt (nextCursor_lt cursors call)
      have hnext : ∀ k, ((nextCursor (nextCursor cursors call).2 call).1 + k) % CURSOR_MODULUS =
          ((nextCursor cursors call).1 + (k + 1)) % CURSOR_MODULUS := by
        intro k
        rw [nextCursor_again, Nat.mod_add_mod, Nat.add_assoc, Nat.add_comm 1 k]
      rw [cursorsOf, if_pos rfl, ih, List.count_cons_self, List.range_succ_eq_map, List.map_cons,
        Nat.add_zero, hfirst, List.map_map]
      exact congrArg _ (List.map_congr_left fun k _ => hnext k)
    · rw [cursorsOf, if_neg hcall, ih, nextCursor_other cursors hcall,
        List.count_cons_of_ne hcall]

theorem lookup_afterCalls (resourceId : String) (n : Nat) :
    ((afterCalls ∅ (List.replicate n resourceId)).lookup resourceId).getD 0 =
      n % CURSOR_MODULUS := by
  induction n with
  | zero => rfl
  | succ n ih =>
    have hlast : afterCalls ∅ (List.replicate (n + 1) resourceId) =
        (nextCursor (afterCalls ∅ (List.replicate n resourceId)) resourceId).2 := by
      rw [List.replicate_succ', afterCalls, List.foldl_append]
      rfl
    rw [hlast, nextCursor, ih, AList.lookup_insert, Option.getD_some, Nat.mod_add_mod]

/-! ### What the rotation names -/

def rotation (pool : List BackendEntry) (rule : PoolRule) (cursor : Nat) : List String :=
  match rule with
  | .failover => pool.map (·.url)
  | .roundRobin =>
    (pool.flatMap fun entry =>
      List.replicate (weightOf .roundRobin entry) entry.url).rotate cursor

def cycle (pool : List BackendEntry) : Nat := (pool.map (weightOf .roundRobin)).sum

def share (pool : List BackendEntry) (url : String) : Nat :=
  ((pool.filter (·.url == url)).map (weightOf .roundRobin)).sum

def namedAt (pool : List BackendEntry) (cursor : Nat) : Option String :=
  (rotation pool .roundRobin 0)[cursor % cycle pool]?

def firstUrl (pool : List BackendEntry) (cursor : Nat) : Option String :=
  (selectionOrder pool .roundRobin cursor fun _ => true).head?.map (·.url)

theorem map_url_expanded (pool : List BackendEntry) (rule : PoolRule) :
    (expanded pool rule).map (·.url) =
      pool.flatMap fun entry => List.replicate (weightOf rule entry) entry.url := by
  rw [expanded, List.map_flatMap]
  exact congrArg (List.flatMap · pool) (funext fun _ => List.map_replicate)

theorem map_url_ordered (pool : List BackendEntry) (rule : PoolRule) (cursor : Nat) :
    (ordered pool rule cursor).map (·.url) = rotation pool rule cursor := by
  cases rule with
  | failover =>
    have hone : ∀ entry : BackendEntry,
        List.replicate (weightOf .failover entry) entry.url = [entry.url] := fun _ => rfl
    simp only [ordered, map_url_expanded, hone, rotation]
    exact List.flatMap_pure_eq_map (·.url) pool
  | roundRobin =>
    have hrotate : ordered pool .roundRobin cursor = (expanded pool .roundRobin).rotate cursor :=
      List.rotate_eq_drop_append_take_mod.symm
    rw [hrotate, List.map_rotate, map_url_expanded, rotation]

theorem length_rotation (pool : List BackendEntry) (cursor : Nat) :
    (rotation pool .roundRobin cursor).length = cycle pool := by
  rw [rotation, List.length_rotate, List.length_flatMap, cycle]
  exact congrArg List.sum (List.map_congr_left fun _ _ => List.length_replicate)

theorem rotation_eq_rotate (pool : List BackendEntry) (cursor : Nat) :
    rotation pool .roundRobin cursor = (rotation pool .roundRobin 0).rotate cursor := by
  simp only [rotation, List.rotate_zero]

theorem map_namedAt (pool : List BackendEntry) (start : Nat) :
    (List.range (cycle pool)).map (fun k => namedAt pool (start + k)) =
      (rotation pool .roundRobin start).map some := by
  apply List.ext_getElem
  · rw [List.length_map, List.length_range, List.length_map, length_rotation]
  · intro k hk hk'
    have hlength := length_rotation pool 0
    rw [List.getElem_map, List.getElem_range, List.getElem_map]
    simp only [rotation_eq_rotate pool start, List.getElem_rotate, namedAt, hlength]
    rw [Nat.add_comm start k]
    refine List.getElem?_eq_getElem (by
      rw [hlength]
      exact Nat.mod_lt _ (by simp at hk; omega))

theorem count_rotation (pool : List BackendEntry) (url : String) :
    (rotation pool .roundRobin 0).count url = share pool url := by
  rw [rotation, List.rotate_zero]
  induction pool with
  | nil => rfl
  | cons entry pool ih =>
    rw [List.flatMap_cons, List.count_append, ih, List.count_replicate, share, share,
      List.filter_cons]
    cases entry.url == url with
    | true => simp only [if_true, List.map_cons, List.sum_cons]
    | false => simp only [Bool.false_eq_true, if_false, Nat.zero_add]

theorem head?_distinct (entries : List BackendEntry) : (distinct entries).head? = entries.head? := by
  cases entries with
  | nil => rfl
  | cons _ _ => rfl

theorem firstUrl_eq_namedAt (pool : List BackendEntry) (cursor : Nat) :
    firstUrl pool cursor = namedAt pool cursor := by
  have hall : selectionOrder pool .roundRobin cursor (fun _ => true) =
      distinct (ordered pool .roundRobin cursor) := by
    simp [selectionOrder]
  have hlength := length_rotation pool 0
  rw [firstUrl, hall, head?_distinct, ← List.head?_map, map_url_ordered, rotation_eq_rotate,
    namedAt]
  by_cases hpos : 0 < cycle pool
  · have hlt : cursor % cycle pool < (rotation pool .roundRobin 0).length := by
      rw [hlength]
      exact Nat.mod_lt _ hpos
    have hmod := List.rotate_mod (rotation pool .roundRobin 0) cursor
    rw [hlength] at hmod
    rw [← hmod, List.head?_rotate hlt]
  · have hnil : rotation pool .roundRobin 0 = [] := List.eq_nil_of_length_eq_zero (by omega)
    rw [hnil]
    rfl

/-! ### The order of one request -/

/-- Every URL once, the healthy ones before the others, and both in the order of the rotation. -/
structure Listed (pool : List BackendEntry) (rule : PoolRule) (cursor : Nat)
    (isHealthy : String → Bool) : Prop where
  once : ((selectionOrder pool rule cursor isHealthy).map (·.url)).Nodup
  every : ∀ url, url ∈ (selectionOrder pool rule cursor isHealthy).map (·.url) ↔
    url ∈ pool.map (·.url)
  healthyFirst : (selectionOrder pool rule cursor isHealthy).Pairwise fun earlier later =>
    isHealthy later.url = true → isHealthy earlier.url = true
  rotated : (selectionOrder pool rule cursor isHealthy).Pairwise fun earlier later =>
    isHealthy earlier.url = isHealthy later.url →
      (rotation pool rule cursor).idxOf earlier.url < (rotation pool rule cursor).idxOf later.url

theorem pairwise_distinct (entries : List BackendEntry) :
    (distinct entries).Pairwise fun earlier later =>
      (entries.map (·.url)).idxOf earlier.url < (entries.map (·.url)).idxOf later.url := by
  induction entries with
  | nil => exact List.Pairwise.nil
  | cons first rest ih =>
    have hother : ∀ {later : BackendEntry},
        later ∈ (distinct rest).filter (fun later => later.url != first.url) →
          ((first :: rest).map (·.url)).idxOf later.url =
            (rest.map (·.url)).idxOf later.url + 1 := by
      intro later hlater
      have hne : later.url ≠ first.url := by simpa using (List.mem_filter.mp hlater).2
      exact List.idxOf_cons_ne _ hne.symm
    refine List.pairwise_cons.mpr ⟨fun later hlater => ?_, ?_⟩
    · rw [hother hlater, List.map_cons, List.idxOf_cons_self]
      exact Nat.succ_pos _
    · refine (ih.filter _).imp_of_mem fun hearlier hlater hlt => ?_
      rw [hother hearlier, hother hlater]
      exact Nat.succ_lt_succ hlt

theorem mem_healthy {entries : List BackendEntry} {isHealthy : String → Bool}
    {entry : BackendEntry} (h : entry ∈ entries.filter fun entry => isHealthy entry.url) :
    isHealthy entry.url = true :=
  (List.mem_filter.mp h).2

theorem mem_unhealthy {entries : List BackendEntry} {isHealthy : String → Bool}
    {entry : BackendEntry} (h : entry ∈ entries.filter fun entry => !isHealthy entry.url) :
    isHealthy entry.url = false := by
  simpa using (List.mem_filter.mp h).2

theorem selectionOrder_listed (pool : List BackendEntry) (rule : PoolRule) (cursor : Nat)
    (isHealthy : String → Bool) : Listed pool rule cursor isHealthy := by
  have hplaces := pairwise_distinct (ordered pool rule cursor)
  rw [map_url_ordered] at hplaces
  constructor
  · have hurls := hplaces.imp fun {earlier later} hlt (heq : earlier.url = later.url) =>
      Nat.ne_of_lt hlt (by rw [heq])
    refine List.pairwise_map.mpr (List.pairwise_append.mpr
      ⟨hurls.filter _, hurls.filter _, fun earlier hearlier later hlater heq => ?_⟩)
    have hhealthy := mem_healthy hearlier
    rw [heq, mem_unhealthy hlater] at hhealthy
    cases hhealthy
  · intro url
    constructor
    · intro h
      obtain ⟨entry, hentry, rfl⟩ := List.mem_map.mp h
      exact List.mem_map.mpr ⟨entry, mem_pool_of_mem_selectionOrder hentry, rfl⟩
    · intro h
      obtain ⟨entry, hentry, rfl⟩ := List.mem_map.mp h
      obtain ⟨kept, hkept, hurl⟩ := exists_mem_selectionOrder hentry rule cursor isHealthy
      exact List.mem_map.mpr ⟨kept, hkept, hurl⟩
  · refine List.pairwise_append.mpr ⟨List.pairwise_of_forall_mem_list ?_,
      List.pairwise_of_forall_mem_list ?_, ?_⟩
    · exact fun earlier hearlier _ _ _ => mem_healthy hearlier
    · intro earlier _ later hlater hhealthy
      rw [mem_unhealthy hlater] at hhealthy
      cases hhealthy
    · exact fun earlier hearlier _ _ _ => mem_healthy hearlier
  · have hplaced : (distinct (ordered pool rule cursor)).Pairwise fun earlier later =>
        isHealthy earlier.url = isHealthy later.url →
          (rotation pool rule cursor).idxOf earlier.url <
            (rotation pool rule cursor).idxOf later.url := by
      apply hplaces.imp
      intro earlier later hlt _
      exact hlt
    refine List.pairwise_append.mpr ⟨hplaced.filter _, hplaced.filter _,
      fun earlier hearlier later hlater hsame => ?_⟩
    rw [mem_healthy hearlier, mem_unhealthy hlater] at hsame
    cases hsame

/-! ### A cycle of cursors -/

def Fair (pool : List BackendEntry) (cursors : List Nat) : Prop :=
  ∀ url, (cursors.map (firstUrl pool)).count (some url) = share pool url

/-- The part of a cycle from `first` on that lies past the modulus: what the cursors from zero name
there, in any order, is what the rotation would have named without the modulus. -/
def Kept (pool : List BackendEntry) (first : Nat) : Prop :=
  ((List.range (first + cycle pool - CURSOR_MODULUS)).map
      fun i => namedAt pool (i % CURSOR_MODULUS)).Perm
    ((List.range (first + cycle pool - CURSOR_MODULUS)).map
      fun i => namedAt pool (CURSOR_MODULUS + i))

theorem fair_iff_perm (pool : List BackendEntry) {cursors : List Nat}
    (hlength : cursors.length = cycle pool) :
    Fair pool cursors ↔
      (cursors.map (namedAt pool)).Perm ((rotation pool .roundRobin 0).map some) := by
  have hnames : cursors.map (firstUrl pool) = cursors.map (namedAt pool) :=
    List.map_congr_left fun cursor _ => firstUrl_eq_namedAt pool cursor
  have hshare : ∀ url, ((rotation pool .roundRobin 0).map some).count (some url) =
      share pool url := by
    intro url
    rw [List.count_map_of_injective _ some (Option.some_injective _), count_rotation]
  have hnamed : none ∉ cursors.map (namedAt pool) := by
    intro hnone
    obtain ⟨cursor, hcursor, hname⟩ := List.mem_map.mp hnone
    have hpos : 0 < cycle pool := by
      rw [← hlength]
      exact List.length_pos_of_mem hcursor
    have hout := List.getElem?_eq_none_iff.mp hname
    rw [length_rotation] at hout
    exact Nat.not_le.mpr (Nat.mod_lt cursor hpos) hout
  rw [Fair, hnames, List.perm_iff_count]
  constructor
  · intro h name
    cases name with
    | none =>
      rw [List.count_eq_zero.mpr hnamed, List.count_eq_zero.mpr (by simp)]
    | some url => rw [h url, hshare url]
  · intro h url
    rw [h (some url), hshare url]

theorem fair_iff_kept (pool : List BackendEntry) {first : Nat} (h : first < CURSOR_MODULUS) :
    Fair pool ((List.range (cycle pool)).map fun k => (first + k) % CURSOR_MODULUS) ↔
      Kept pool first := by
  have hrotated : ((List.range (cycle pool)).map fun k => namedAt pool (first + k)).Perm
      ((rotation pool .roundRobin 0).map some) := by
    rw [map_namedAt, rotation_eq_rotate]
    exact (List.rotate_perm _ _).map _
  have hiff : ((List.range (cycle pool)).map
        fun k => namedAt pool ((first + k) % CURSOR_MODULUS)).Perm
      ((rotation pool .roundRobin 0).map some) ↔
      ((List.range (cycle pool)).map fun k => namedAt pool ((first + k) % CURSOR_MODULUS)).Perm
        ((List.range (cycle pool)).map fun k => namedAt pool (first + k)) :=
    ⟨fun hperm => hperm.trans hrotated.symm, fun hperm => hperm.trans hrotated⟩
  rw [fair_iff_perm pool (by rw [List.length_map, List.length_range]), List.map_map]
  refine hiff.trans ?_
  by_cases hwrap : first + cycle pool ≤ CURSOR_MODULUS
  · -- the cycle ends at the modulus or before it
    have hover : first + cycle pool - CURSOR_MODULUS = 0 := Nat.sub_eq_zero_of_le hwrap
    have hsame : (List.range (cycle pool)).map
        (fun k => namedAt pool ((first + k) % CURSOR_MODULUS)) =
        (List.range (cycle pool)).map fun k => namedAt pool (first + k) := by
      refine List.map_congr_left fun k hk => ?_
      have hlt : first + k < CURSOR_MODULUS := by
        have := List.mem_range.mp hk
        omega
      rw [Nat.mod_eq_of_lt hlt]
    rw [hsame, Kept, hover]
    exact ⟨fun _ => List.Perm.nil, fun _ => List.Perm.refl _⟩
  · obtain ⟨before, hbefore⟩ : ∃ before, CURSOR_MODULUS = first + before :=
      ⟨CURSOR_MODULUS - first, by omega⟩
    have hcycle : cycle pool = before + (first + cycle pool - CURSOR_MODULUS) := by omega
    have hfront : (List.range before).map
        (fun k => namedAt pool ((first + k) % CURSOR_MODULUS)) =
        (List.range before).map fun k => namedAt pool (first + k) := by
      refine List.map_congr_left fun k hk => ?_
      have hlt : first + k < CURSOR_MODULUS := by
        have := List.mem_range.mp hk
        omega
      rw [Nat.mod_eq_of_lt hlt]
    have hpast : ∀ i, first + (before + i) = CURSOR_MODULUS + i := fun i => by omega
    rw [hcycle, List.range_add, List.map_append, List.map_append, hfront,
      List.perm_append_left_iff, List.map_map, List.map_map, Kept]
    simp only [Function.comp_def, hpast, Nat.add_mod_left]

theorem kept_of_le {pool : List BackendEntry} {first : Nat}
    (h : first + cycle pool ≤ CURSOR_MODULUS) : Kept pool first := by
  rw [Kept, Nat.sub_eq_zero_of_le h]
  exact List.Perm.nil

/-- Every request has each URL once, healthy ones first and otherwise in rotation, and a full cycle
of the cursors of a route has each URL first as many times as its weight exactly when nothing is lost
at the modulus. -/
theorem rotation_weighted (pool : List BackendEntry) (resourceId : String) (cursors : Cursors)
    (calls : List String) (hcycle : calls.count resourceId = cycle pool) :
    (∀ rule cursor isHealthy, Listed pool rule cursor isHealthy) ∧
      (Fair pool (cursorsOf resourceId cursors calls) ↔
        Kept pool (nextCursor cursors resourceId).1) := by
  refine ⟨selectionOrder_listed pool, ?_⟩
  rw [cursorsOf_eq, hcycle]
  exact fair_iff_kept pool (nextCursor_lt cursors resourceId)

theorem rotation_weighted_pair :
    Fair [⟨"a", some 2⟩, ⟨"b", none⟩] (cursorsOf "r" ∅ ["r", "s", "r", "s", "r"]) :=
  (rotation_weighted [⟨"a", some 2⟩, ⟨"b", none⟩] "r" ∅ ["r", "s", "r", "s", "r"]
    (by decide)).2.mpr (kept_of_le (by decide))

theorem rotation_unfair_at_modulus :
    ∃ pool : List BackendEntry, ∃ before calls : List String,
      calls.count "r" = cycle pool ∧
        ¬ Fair pool (cursorsOf "r" (afterCalls ∅ before) calls) := by
  refine ⟨[⟨"a", none⟩, ⟨"b", none⟩, ⟨"c", none⟩], List.replicate 999998 "r", ["r", "r", "r"],
    by decide, fun hfair => ?_⟩
  have hcursors : cursorsOf "r" (afterCalls ∅ (List.replicate 999998 "r")) ["r", "r", "r"] =
      [999999, 0, 1] := by
    rw [cursorsOf_eq, nextCursor, lookup_afterCalls]
    rfl
  rw [hcursors] at hfair
  exact absurd (hfair "c") (by decide)

end Apim.Backend
