import Apim.DataPlane.Delivery

/-!
# The response cache

`ResponseCache` (`data-plane/src/cache.ts:49-122`): a map that keeps its insertion order, a byte count
kept by hand, and an eviction of what is oldest in the order. Beside the cache a run remembers what
was set last under each key, and in which order the keys were last used; nothing reads these but the
statements. The bytes, the bounds and what `get` returns are right on every run (`cache_sound`), and
what is evicted was used least recently where no entry is overwritten that is not the newest
(`evictions_along_runs`).
-/

namespace Apim.DataPlane.Caching

open Apim.Overlay Apim.Totals Apim.Trace Delivery

/-! ### The map -/

abbrev Entries := List (String × CachedResponse)

def put (entries : Entries) (key : String) (entry : CachedResponse) : Entries :=
  if (entries.map (·.1)).contains key then
    entries.map fun row => if row.1 = key then (key, entry) else row
  else entries ++ [(key, entry)]

def remove (entries : Entries) (key : String) : Entries := entries.filter fun row => row.1 ≠ key

def weight (row : String × CachedResponse) : Nat := row.2.body.length

structure ResponseCache where
  maxEntries : Nat
  maxBytes : Nat
  entries : Entries := []
  bytes : Int := 0
  hits : Nat := 0
  misses : Nat := 0

namespace ResponseCache

def drop (c : ResponseCache) (key : String) : ResponseCache :=
  match c.entries.lookup key with
  | none => c
  | some entry =>
    { c with bytes := c.bytes - entry.body.length, entries := remove c.entries key }

def overfull (c : ResponseCache) : Bool := c.maxEntries < c.entries.length || (c.maxBytes : Int) < c.bytes

/-- The loop of `set` and `resize`; every turn drops the key that is first. -/
def evictFrom : Nat → ResponseCache → ResponseCache
  | 0, c => c
  | fuel + 1, c =>
    if c.overfull then
      match c.entries with
      | [] => c
      | row :: _ => evictFrom fuel (c.drop row.1)
    else c

def evict (c : ResponseCache) : ResponseCache := evictFrom c.entries.length c

def resize (c : ResponseCache) (maxEntries maxBytes : Nat) : ResponseCache :=
  evict { c with maxEntries, maxBytes }

def get (c : ResponseCache) (key : String) (now : Nat) : Option CachedResponse × ResponseCache :=
  match c.entries.lookup key with
  | none => (none, { c with misses := c.misses + 1 })
  | some entry =>
    if entry.expiresAtMs ≤ now then
      (none, { c.drop key with misses := c.misses + 1 })
    else
      (some entry, { c with entries := put (remove c.entries key) key entry, hits := c.hits + 1 })

def write (c : ResponseCache) (key : String) (entry : CachedResponse) : ResponseCache :=
  let before := match c.entries.lookup key with
    | some existing => (existing.body.length : Int)
    | none => 0
  { c with entries := put c.entries key entry, bytes := c.bytes - before + entry.body.length }

def set (c : ResponseCache) (key : String) (entry : CachedResponse) : ResponseCache :=
  evict (c.write key entry)

def clear (c : ResponseCache) : ResponseCache := { c with entries := [], bytes := 0 }

def keys (c : ResponseCache) : List String := c.entries.map (·.1)

end ResponseCache

/-! ### Runs -/

inductive Event where
  | get (key : String) (now : Nat)
  | set (key : String) (entry : CachedResponse)
  | resize (maxEntries maxBytes : Nat)
  | clear

structure Instance where
  cache : ResponseCache
  result : Option CachedResponse
  latest : Dict String CachedResponse
  used : List String

def created (maxEntries maxBytes : Nat) : Instance := ⟨{ maxEntries, maxBytes }, none, ∅, []⟩

def touch (used : List String) (key : String) : List String := used.filter (· ≠ key) ++ [key]

def step (s : Instance) : Event → Option Instance
  | .get key now =>
    some { s with
      cache := (s.cache.get key now).2
      result := (s.cache.get key now).1
      used := if (s.cache.get key now).1.isSome then touch s.used key else s.used }
  | .set key entry =>
    some
      { cache := s.cache.set key entry
        result := none
        latest := s.latest.insert key entry
        used := touch s.used key }
  | .resize maxEntries maxBytes =>
    some { s with cache := s.cache.resize maxEntries maxBytes, result := none }
  | .clear => some { s with cache := s.cache.clear, result := none }

/-! ### What a cache promises -/

/-- The account is right, the bounds are kept, and what is returned is what was set last and has not
expired. -/
structure Kept (s : Instance) (e : Event) (next : Instance) : Prop where
  account : next.cache.bytes = (total weight next.cache.entries : Int)
  count : next.cache.entries.length ≤ next.cache.maxEntries
  size : next.cache.bytes ≤ next.cache.maxBytes
  returned : ∀ key now entry, e = .get key now → next.result = some entry →
    s.latest.lookup key = some entry ∧ now < entry.expiresAtMs

def UsedBefore (used : List String) (key later : String) : Prop := [key, later].Sublist used

def Event.written : Event → Option String
  | .set key _ => some key
  | _ => none

def Event.evicts : Event → Bool
  | .set _ _ => true
  | .resize _ _ => true
  | _ => false

/-- Each key that an eviction dropped was used before every key that is left. -/
def EvictsOldest (s : Instance) (e : Event) (next : Instance) : Prop :=
  e.evicts = true → ∀ key, key ∈ s.cache.keys ∨ e.written = some key → key ∉ next.cache.keys →
    ∀ later ∈ next.cache.keys, UsedBefore next.used key later

def WritesNewest (s : Instance) (e : Event) : Prop :=
  ∀ key, e.written = some key → key ∈ s.cache.keys → s.cache.keys.getLast? = some key

/-! ### The map, taken apart -/

variable {entries : Entries} {key : String} {entry : CachedResponse}

theorem split_of_lookup (hkeys : (entries.map (·.1)).Nodup) (h : entries.lookup key = some entry) :
    ∃ front back, entries = front ++ (key, entry) :: back ∧ key ∉ front.map (·.1) ∧
      key ∉ back.map (·.1) := by
  obtain ⟨front, back, rfl, hfront⟩ := List.lookup_eq_some_iff.mp h
  refine ⟨front, back, rfl, ?_, ?_⟩
  · intro hin
    obtain ⟨row, hrow, hkey⟩ := List.mem_map.mp hin
    have hne := hfront row hrow
    simp [hkey] at hne
  · rw [List.map_append, List.map_cons] at hkeys
    exact (List.nodup_cons.mp (List.nodup_append.mp hkeys).2.1).1

theorem notMem_of_lookup (h : entries.lookup key = none) : key ∉ entries.map (·.1) := by
  intro hin
  obtain ⟨row, hrow, hkey⟩ := List.mem_map.mp hin
  have hne := List.lookup_eq_none_iff.mp h row hrow
  simp [hkey] at hne

theorem remove_of_notMem (h : key ∉ entries.map (·.1)) : remove entries key = entries := by
  refine List.filter_eq_self.mpr fun row hrow => ?_
  have hne : row.1 ≠ key := fun hkey => h (List.mem_map.mpr ⟨row, hrow, hkey⟩)
  simpa using hne

theorem remove_split {front back : Entries} (hfront : key ∉ front.map (·.1))
    (hback : key ∉ back.map (·.1)) : remove (front ++ (key, entry) :: back) key = front ++ back := by
  have hdrop : remove ((key, entry) :: back) key = remove back key :=
    List.filter_cons_of_neg (by simp)
  have happend : remove (front ++ (key, entry) :: back) key =
      remove front key ++ remove ((key, entry) :: back) key := List.filter_append _ _
  rw [happend, hdrop, remove_of_notMem hfront, remove_of_notMem hback]

theorem put_of_notMem (entry : CachedResponse) (h : key ∉ entries.map (·.1)) :
    put entries key entry = entries ++ [(key, entry)] := by
  rw [put, if_neg]
  simpa using h

theorem map_of_notMem (entry : CachedResponse) (h : key ∉ entries.map (·.1)) :
    (entries.map fun row => if row.1 = key then (key, entry) else row) = entries := by
  have hsame : ∀ row ∈ entries, (if row.1 = key then (key, entry) else row) = row := by
    intro row hrow
    exact if_neg fun hkey => h (List.mem_map.mpr ⟨row, hrow, hkey⟩)
  rw [List.map_congr_left hsame, List.map_id']

theorem put_split {front back : Entries} {old : CachedResponse} (entry : CachedResponse)
    (hfront : key ∉ front.map (·.1)) (hback : key ∉ back.map (·.1)) :
    put (front ++ (key, old) :: back) key entry = front ++ (key, entry) :: back := by
  have hin : ((front ++ (key, old) :: back).map (·.1)).contains key = true := by simp
  rw [put, if_pos hin, List.map_append, List.map_cons, map_of_notMem entry hfront,
    map_of_notMem entry hback, if_pos rfl]

/-! ### The account and the bounds -/

structure ResponseCache.Sound (c : ResponseCache) : Prop where
  nodup : c.keys.Nodup
  account : c.bytes = (total weight c.entries : Int)

variable {c : ResponseCache}

namespace ResponseCache

def Within (c : ResponseCache) : Prop := c.overfull = false

theorem within_iff : c.Within ↔ c.entries.length ≤ c.maxEntries ∧ c.bytes ≤ c.maxBytes := by
  simp [Within, overfull]

theorem drop_split {c : ResponseCache} (h : c.Sound) {front back : Entries} {key : String}
    {entry : CachedResponse} (hsplit : c.entries = front ++ (key, entry) :: back) :
    (c.drop key).entries = front ++ back ∧ (c.drop key).Sound := by
  have hkeys := h.nodup
  rw [keys, hsplit, List.map_append, List.map_cons] at hkeys
  have hfront : key ∉ front.map (·.1) := fun hin =>
    (List.nodup_append.mp hkeys).2.2 key hin key List.mem_cons_self rfl
  have hback : key ∉ back.map (·.1) := (List.nodup_cons.mp (List.nodup_append.mp hkeys).2.1).1
  have hlookup : c.entries.lookup key = some entry := by
    refine List.lookup_eq_some_iff.mpr ⟨front, back, hsplit, fun row hrow => ?_⟩
    have hne : key ≠ row.1 := fun hkey => hfront (List.mem_map.mpr ⟨row, hrow, hkey.symm⟩)
    simpa using hne
  have hdrop : c.drop key =
      { c with bytes := c.bytes - entry.body.length, entries := front ++ back } := by
    rw [drop, hlookup, hsplit, remove_split hfront hback]
  rw [hdrop]
  refine ⟨rfl, ⟨?_, ?_⟩⟩
  · rw [keys, List.map_append]
    exact hkeys.sublist (List.Sublist.append_left (List.sublist_cons_self _ _) _)
  · have haccount := h.account
    rw [hsplit, total_append, total_cons] at haccount
    have hweight : weight (key, entry) = entry.body.length := rfl
    simp only [total_append]
    omega

theorem drop_bounds (c : ResponseCache) (key : String) :
    (c.drop key).maxEntries = c.maxEntries ∧ (c.drop key).maxBytes = c.maxBytes := by
  unfold drop
  split <;> exact ⟨rfl, rfl⟩

theorem within_of_nil (h : c.Sound) (hnil : c.entries = []) : c.Within := by
  have haccount := h.account
  rw [hnil, total_nil] at haccount
  rw [within_iff, hnil, List.length_nil]
  exact ⟨Nat.zero_le _, by omega⟩

theorem evictFrom_spec {fuel : Nat} (h : c.Sound) (hfuel : c.entries.length ≤ fuel) :
    (evictFrom fuel c).Sound ∧ (evictFrom fuel c).Within ∧
      (evictFrom fuel c).entries <:+ c.entries := by
  induction fuel generalizing c with
  | zero =>
    have hnil : c.entries = [] := List.length_eq_zero_iff.mp (Nat.le_zero.mp hfuel)
    exact ⟨h, within_of_nil h hnil, List.suffix_rfl⟩
  | succ fuel ih =>
    rw [evictFrom]
    split
    · cases hentries : c.entries with
      | nil =>
        have hsuffix : c.entries <:+ [] := hentries ▸ List.suffix_rfl
        exact ⟨h, within_of_nil h hentries, hsuffix⟩
      | cons row rest =>
        obtain ⟨key, entry⟩ := row
        obtain ⟨hrest, hsound⟩ := @drop_split c h [] rest key entry hentries
        have hlength : (c.drop key).entries.length ≤ fuel := by
          rw [hrest, List.nil_append]
          rw [hentries, List.length_cons] at hfuel
          omega
        obtain ⟨hkept, hwithin, hsuffix⟩ := ih hsound hlength
        refine ⟨hkept, hwithin, hsuffix.trans ?_⟩
        rw [hrest]
        exact List.suffix_cons _ _
    · rename_i hover
      exact ⟨h, eq_false_of_ne_true hover, List.suffix_rfl⟩

theorem evict_spec (h : c.Sound) : c.evict.Sound ∧ c.evict.Within ∧ c.evict.entries <:+ c.entries :=
  evictFrom_spec h (Nat.le_refl _)

theorem write_spec (h : c.Sound) (key : String) (entry : CachedResponse) :
    (c.write key entry).Sound ∧ (c.write key entry).entries = put c.entries key entry := by
  refine ⟨?_, rfl⟩
  have haccount := h.account
  have hweight : weight (key, entry) = entry.body.length := rfl
  cases hlookup : c.entries.lookup key with
  | none =>
    have hnew := notMem_of_lookup hlookup
    have hwrite : c.write key entry = { c with
        entries := c.entries ++ [(key, entry)]
        bytes := c.bytes - 0 + entry.body.length } := by
      rw [write, hlookup, put_of_notMem entry hnew]
    rw [hwrite]
    refine ⟨?_, ?_⟩
    · rw [keys, List.map_append]
      refine List.nodup_append.mpr ⟨h.nodup, List.nodup_singleton _, fun a ha b hb => ?_⟩
      obtain rfl : b = key := List.mem_singleton.mp hb
      exact fun heq => hnew (heq ▸ ha)
    · simp only [total_append, total_cons, total_nil]
      omega
  | some old =>
    obtain ⟨front, back, hsplit, hfront, hback⟩ := split_of_lookup h.nodup hlookup
    have hwrite : c.write key entry = { c with
        entries := front ++ (key, entry) :: back
        bytes := c.bytes - old.body.length + entry.body.length } := by
      rw [write, hlookup, hsplit, put_split entry hfront hback]
    rw [hwrite]
    have hold : weight (key, old) = old.body.length := rfl
    refine ⟨?_, ?_⟩
    · have hkeys := h.nodup
      rw [keys, hsplit, List.map_append, List.map_cons] at hkeys
      rw [keys, List.map_append, List.map_cons]
      exact hkeys
    · rw [hsplit, total_append, total_cons] at haccount
      simp only [total_append, total_cons]
      omega

theorem get_hit (h : c.Sound) {now : Nat} (hhit : (c.get key now).1 = some entry) :
    now < entry.expiresAtMs ∧ c.entries.lookup key = some entry ∧
      ∃ front back, c.entries = front ++ (key, entry) :: back ∧ (c.get key now).2 =
        { c with entries := front ++ back ++ [(key, entry)], hits := c.hits + 1 } := by
  cases hlookup : c.entries.lookup key with
  | none =>
    rw [get, hlookup] at hhit
    cases hhit
  | some found =>
    rw [get, hlookup] at hhit ⊢
    simp only at hhit ⊢
    split at hhit
    · cases hhit
    · rename_i hlive
      cases hhit
      obtain ⟨front, back, hsplit, hfront, hback⟩ := split_of_lookup h.nodup hlookup
      have hboth : key ∉ (front ++ back).map (·.1) := by
        rw [List.map_append]
        exact fun hin => (List.mem_append.mp hin).elim hfront hback
      refine ⟨Nat.lt_of_not_le hlive, rfl, front, back, hsplit, ?_⟩
      rw [if_neg hlive]
      simp only [hsplit, remove_split hfront hback, put_of_notMem entry hboth]

theorem get_miss {now : Nat} (hmiss : (c.get key now).1 = none) :
    (c.get key now).2 = { c with misses := c.misses + 1 } ∨
      ∃ entry, c.entries.lookup key = some entry ∧
        (c.get key now).2 = { c.drop key with misses := c.misses + 1 } := by
  cases hlookup : c.entries.lookup key with
  | none =>
    rw [get, hlookup]
    exact .inl rfl
  | some entry =>
    rw [get, hlookup] at hmiss ⊢
    simp only at hmiss ⊢
    split at hmiss
    · rename_i hexpired
      rw [if_pos hexpired]
      exact .inr ⟨entry, rfl, rfl⟩
    · cases hmiss

end ResponseCache

/-! ### Every run is sound -/

structure Instance.Sound (s : Instance) : Prop where
  sound : s.cache.Sound
  within : s.cache.Within
  latest : ∀ row ∈ s.cache.entries, s.latest.lookup row.1 = some row.2

theorem sound_created (maxEntries maxBytes : Nat) : (created maxEntries maxBytes).Sound := by
  have hsound : (created maxEntries maxBytes).cache.Sound := ⟨List.nodup_nil, rfl⟩
  exact ⟨hsound, ResponseCache.within_of_nil hsound rfl, nofun⟩

theorem mem_put {row : String × CachedResponse} (h : row ∈ put entries key entry) :
    row = (key, entry) ∨ (row.1 ≠ key ∧ row ∈ entries) ∨ key ∉ entries.map (·.1) ∧ row ∈ entries := by
  unfold put at h
  split at h
  · obtain ⟨old, hold, hrow⟩ := List.mem_map.mp h
    split at hrow
    · exact .inl hrow.symm
    · rename_i hne
      exact .inr (.inl ⟨hrow ▸ hne, hrow ▸ hold⟩)
  · rename_i hnew
    rcases List.mem_append.mp h with hin | hin
    · exact .inr (.inr ⟨by simpa using hnew, hin⟩)
    · exact .inl (List.mem_singleton.mp hin)

section
variable {s next : Instance} {e : Event}

theorem Instance.Sound.get {key : String} {now : Nat} (h : s.Sound) :
    (s.cache.get key now).2.Sound ∧ (s.cache.get key now).2.Within ∧
      ∀ row ∈ (s.cache.get key now).2.entries, row ∈ s.cache.entries := by
  have hbounds := ResponseCache.within_iff.mp h.within
  cases hresult : (s.cache.get key now).1 with
  | some entry =>
    obtain ⟨-, -, front, back, hsplit, hcache⟩ := ResponseCache.get_hit h.sound hresult
    have hmoved : (front ++ back ++ [(key, entry)]).Perm (front ++ (key, entry) :: back) := by
      rw [List.append_assoc]
      exact List.Perm.append_left front (List.perm_append_singleton _ _)
    have haccount := h.sound.account
    rw [hcache]
    refine ⟨⟨?_, ?_⟩, ResponseCache.within_iff.mpr ⟨?_, hbounds.2⟩, fun row hrow => ?_⟩
    · have hkeys := h.sound.nodup
      rw [ResponseCache.keys, hsplit] at hkeys
      exact (hmoved.map _).nodup_iff.mpr hkeys
    · rw [hsplit] at haccount
      have hsum : total weight (front ++ back ++ [(key, entry)]) =
          total weight (front ++ (key, entry) :: back) := (hmoved.map weight).sum_eq
      simp only [hsum]
      exact haccount
    · have hlength := hmoved.length_eq
      rw [← hsplit] at hlength
      simp only [hlength]
      exact hbounds.1
    · rw [hsplit]
      exact hmoved.mem_iff.mp hrow
  | none =>
    obtain hsame | ⟨entry, hlookup, hcache⟩ := ResponseCache.get_miss hresult
    · rw [hsame]
      exact ⟨⟨h.sound.nodup, h.sound.account⟩, ResponseCache.within_iff.mpr hbounds,
        fun row hrow => hrow⟩
    · obtain ⟨front, back, hsplit, -, -⟩ := split_of_lookup h.sound.nodup hlookup
      obtain ⟨hentries, hsound⟩ := ResponseCache.drop_split h.sound hsplit
      have hmem : ∀ row ∈ (s.cache.drop key).entries, row ∈ s.cache.entries := by
        intro row hrow
        rw [hentries] at hrow
        rw [hsplit]
        exact (List.Sublist.append_left (List.sublist_cons_self _ _) _).subset hrow
      rw [hcache]
      refine ⟨⟨hsound.nodup, hsound.account⟩, ResponseCache.within_iff.mpr ⟨?_, ?_⟩, hmem⟩
      · have hlength : (s.cache.drop key).entries.length ≤ s.cache.entries.length := by
          rw [hentries, hsplit]
          exact (List.Sublist.append_left (List.sublist_cons_self _ _) _).length_le
        simp only [(ResponseCache.drop_bounds s.cache key).1]
        exact hlength.trans hbounds.1
      · have hbefore := h.sound.account
        have hafter := hsound.account
        rw [hsplit, total_append, total_cons] at hbefore
        rw [hentries, total_append] at hafter
        simp only [(ResponseCache.drop_bounds s.cache key).2]
        have hmax := hbounds.2
        omega

theorem Instance.Sound.set {key : String} {entry : CachedResponse} (h : s.Sound) :
    (s.cache.set key entry).Sound ∧ (s.cache.set key entry).Within ∧
      ∀ row ∈ (s.cache.set key entry).entries,
        row = (key, entry) ∨ (row.1 ≠ key ∧ row ∈ s.cache.entries) := by
  obtain ⟨hwritten, hentries⟩ := ResponseCache.write_spec h.sound key entry
  obtain ⟨hsound, hwithin, hsuffix⟩ := ResponseCache.evict_spec hwritten
  refine ⟨hsound, hwithin, fun row hrow => ?_⟩
  have hput : row ∈ put s.cache.entries key entry := hentries ▸ hsuffix.subset hrow
  rcases mem_put hput with hnew | hold | ⟨hnew, hold⟩
  · exact .inl hnew
  · exact .inr hold
  · exact .inr ⟨fun hkey => hnew (List.mem_map.mpr ⟨row, hold, hkey⟩), hold⟩

theorem sound_step (h : s.Sound) (hstep : step s e = some next) : next.Sound := by
  cases e with
  | get key now =>
    cases hstep
    obtain ⟨hsound, hwithin, hmem⟩ := @Instance.Sound.get s key now h
    exact ⟨hsound, hwithin, fun row hrow => h.latest row (hmem row hrow)⟩
  | set key entry =>
    cases hstep
    obtain ⟨hsound, hwithin, hmem⟩ := @Instance.Sound.set s key entry h
    refine ⟨hsound, hwithin, fun row hrow => ?_⟩
    rcases hmem row hrow with rfl | ⟨hne, hold⟩
    · exact AList.lookup_insert s.latest
    · have hother : (s.latest.insert key entry).lookup row.1 = s.latest.lookup row.1 :=
        AList.lookup_insert_ne hne
      rw [hother]
      exact h.latest row hold
  | resize maxEntries maxBytes =>
    cases hstep
    have hresized : ({ s.cache with maxEntries, maxBytes } : ResponseCache).Sound :=
      ⟨h.sound.nodup, h.sound.account⟩
    obtain ⟨hsound, hwithin, hsuffix⟩ := ResponseCache.evict_spec hresized
    exact ⟨hsound, hwithin, fun row hrow => h.latest row (hsuffix.subset hrow)⟩
  | clear =>
    cases hstep
    have hcleared : s.cache.clear.Sound := ⟨List.nodup_nil, rfl⟩
    exact ⟨hcleared, ResponseCache.within_of_nil hcleared rfl, nofun⟩

theorem kept_step (h : s.Sound) (hstep : step s e = some next) : Kept s e next := by
  have hnext := sound_step h hstep
  obtain ⟨hcount, hsize⟩ := ResponseCache.within_iff.mp hnext.within
  refine ⟨hnext.sound.account, hcount, hsize, fun key now entry he hresult => ?_⟩
  subst he
  cases hstep
  obtain ⟨hlive, hlookup, -⟩ := ResponseCache.get_hit h.sound hresult
  obtain ⟨front, back, hsplit, -, -⟩ := split_of_lookup h.sound.nodup hlookup
  have hin : (key, entry) ∈ s.cache.entries := by
    rw [hsplit]
    exact List.mem_append_right _ List.mem_cons_self
  exact ⟨h.latest _ hin, hlive⟩

/-! ### The order of the map and the order of use -/

structure Instance.Ordered (s : Instance) : Prop where
  keys : s.cache.keys.Sublist s.used
  used : s.used.Nodup

theorem ordered_created (maxEntries maxBytes : Nat) : (created maxEntries maxBytes).Ordered :=
  ⟨List.Sublist.refl _, List.nodup_nil⟩

theorem nodup_touch {used : List String} (key : String) (h : used.Nodup) : (touch used key).Nodup := by
  refine List.nodup_append.mpr ⟨h.filter _, List.nodup_singleton _, fun a ha b hb => ?_⟩
  obtain rfl : b = key := List.mem_singleton.mp hb
  have hne := (List.mem_filter.mp ha).2
  simpa using hne

theorem sublist_touch {keys used : List String} (h : keys.Sublist used) (hkey : key ∉ keys) :
    (keys ++ [key]).Sublist (touch used key) := by
  have hsame : keys.filter (· ≠ key) = keys :=
    List.filter_eq_self.mpr fun k hk => by simpa using fun heq : k = key => hkey (heq ▸ hk)
  have hfiltered := h.filter (fun k => decide (k ≠ key))
  rw [hsame] at hfiltered
  exact hfiltered.append_right [key]

theorem usedBefore_of_suffix {keys kept used : List String} (h : keys.Sublist used)
    (hsuffix : kept <:+ keys) (hkey : key ∈ keys) (hdropped : key ∉ kept) {later : String}
    (hlater : later ∈ kept) : UsedBefore used key later := by
  obtain ⟨front, rfl⟩ := hsuffix
  have hfront : key ∈ front := (List.mem_append.mp hkey).resolve_right hdropped
  have hpair : ([key] ++ [later]).Sublist (front ++ kept) :=
    (List.singleton_sublist.mpr hfront).append (List.singleton_sublist.mpr hlater)
  exact hpair.trans h

theorem keys_write (h : s.Sound) {key : String} {entry : CachedResponse}
    (hnewest : key ∈ s.cache.keys → s.cache.keys.getLast? = some key) :
    ∃ front, (s.cache.write key entry).keys = front ++ [key] ∧ key ∉ front ∧
      front.Sublist s.cache.keys ∧ ∀ k ∈ s.cache.keys, k ∈ front ++ [key] := by
  have hentries := (ResponseCache.write_spec h.sound key entry).2
  by_cases hin : key ∈ s.cache.keys
  · obtain ⟨front, hfront⟩ := List.getLast?_eq_some_iff.mp (hnewest hin)
    have hnodup := h.sound.nodup
    rw [hfront] at hnodup
    have hnot : key ∉ front := fun hmem =>
      (List.nodup_append.mp hnodup).2.2 key hmem key (List.mem_singleton.mpr rfl) rfl
    have hkeys : (s.cache.write key entry).keys = s.cache.keys := by
      have hcontains : (s.cache.entries.map (·.1)).contains key = true :=
        List.contains_iff_mem.mpr hin
      rw [ResponseCache.keys, hentries, put, if_pos hcontains, List.map_map]
      refine List.map_congr_left fun row _ => ?_
      simp only [Function.comp]
      split
      · rename_i hkey
        exact hkey.symm
      · rfl
    rw [hkeys, hfront]
    exact ⟨front, rfl, hnot, List.sublist_append_left _ _, fun k hk => hk⟩
  · refine ⟨s.cache.keys, ?_, hin, List.Sublist.refl _, fun k hk => List.mem_append_left _ hk⟩
    rw [ResponseCache.keys, hentries, put_of_notMem entry hin, List.map_append]
    rfl

theorem ordered_step (h : s.Sound) (ho : s.Ordered) (hnewest : WritesNewest s e)
    (hstep : step s e = some next) : next.Ordered ∧ EvictsOldest s e next := by
  cases e with
  | get key now =>
    cases hstep
    refine ⟨?_, fun hevicts => by cases hevicts⟩
    cases hresult : (s.cache.get key now).1 with
    | none =>
      have hsub : (s.cache.get key now).2.keys.Sublist s.cache.keys := by
        obtain hsame | ⟨entry, hlookup, hcache⟩ := ResponseCache.get_miss hresult
        · rw [hsame]
          exact List.Sublist.refl _
        · obtain ⟨front, back, hsplit, -, -⟩ := split_of_lookup h.sound.nodup hlookup
          have hentries := (ResponseCache.drop_split h.sound hsplit).1
          rw [hcache, ResponseCache.keys, ResponseCache.keys, hsplit]
          simp only [hentries]
          exact (List.Sublist.append_left (List.sublist_cons_self _ _) _).map _
      simp only [Option.isSome_none]
      exact ⟨hsub.trans ho.keys, ho.used⟩
    | some entry =>
      obtain ⟨-, hlookup, front, back, hsplit, hcache⟩ := ResponseCache.get_hit h.sound hresult
      have hkeys := h.sound.nodup
      rw [ResponseCache.keys, hsplit, List.map_append, List.map_cons] at hkeys
      have hnot : key ∉ (front ++ back).map (·.1) := by
        rw [List.map_append]
        intro hin
        rcases List.mem_append.mp hin with hfront | hback
        · exact (List.nodup_append.mp hkeys).2.2 key hfront key List.mem_cons_self rfl
        · exact (List.nodup_cons.mp (List.nodup_append.mp hkeys).2.1).1 hback
      have hothers : ((front ++ back).map (·.1)).Sublist s.used := by
        refine List.Sublist.trans ?_ ho.keys
        rw [ResponseCache.keys, hsplit]
        exact (List.Sublist.append_left (List.sublist_cons_self _ _) _).map _
      simp only [Option.isSome_some, if_true]
      refine ⟨?_, nodup_touch key ho.used⟩
      rw [hcache, ResponseCache.keys, List.map_append]
      exact sublist_touch hothers hnot
  | set key entry =>
    cases hstep
    obtain ⟨front, hwrite, hnot, hfront, hall⟩ :=
      @keys_write s h key entry fun hin => hnewest key rfl hin
    have hwritten := (ResponseCache.write_spec h.sound key entry).1
    obtain ⟨-, -, hsuffix⟩ := ResponseCache.evict_spec hwritten
    have hkept : (s.cache.set key entry).keys <:+ (s.cache.write key entry).keys :=
      hsuffix.map _
    have hused : (s.cache.write key entry).keys.Sublist (touch s.used key) := by
      rw [hwrite]
      exact sublist_touch (hfront.trans ho.keys) hnot
    refine ⟨⟨hkept.sublist.trans hused, nodup_touch key ho.used⟩, ?_⟩
    intro _ key' hkey' hdropped later hlater
    refine usedBefore_of_suffix hused hkept ?_ hdropped hlater
    rw [hwrite]
    rcases hkey' with hstored | hset
    · exact hall key' hstored
    · cases hset
      exact List.mem_append_right _ (List.mem_singleton.mpr rfl)
  | resize maxEntries maxBytes =>
    cases hstep
    have hresized : ({ s.cache with maxEntries, maxBytes } : ResponseCache).Sound :=
      ⟨h.sound.nodup, h.sound.account⟩
    obtain ⟨-, -, hsuffix⟩ := ResponseCache.evict_spec hresized
    have hkept : (s.cache.resize maxEntries maxBytes).keys <:+ s.cache.keys := hsuffix.map _
    refine ⟨⟨hkept.sublist.trans ho.keys, ho.used⟩, ?_⟩
    intro _ key' hkey' hdropped later hlater
    have hstored : key' ∈ s.cache.keys := hkey'.resolve_right nofun
    exact usedBefore_of_suffix ho.keys hkept hstored hdropped hlater
  | clear =>
    cases hstep
    exact ⟨⟨List.nil_sublist _, ho.used⟩, fun hevicts => by cases hevicts⟩

end

theorem cache_along_runs (maxEntries maxBytes : Nat) (events : List Event) :
    EveryStep step Kept (created maxEntries maxBytes) events ∧
      (EveryStep step (fun s e _ => WritesNewest s e) (created maxEntries maxBytes) events →
        EveryStep step EvictsOldest (created maxEntries maxBytes) events) := by
  have hsound := sound_created maxEntries maxBytes
  have hordered := ordered_created maxEntries maxBytes
  constructor
  · have hkept : ∀ s e next, s.Sound → step s e = some next → Kept s e next := fun _ _ _ => kept_step
    exact everyStep_of_invariant (fun _ _ _ => sound_step) hkept hsound events
  · have hstep : ∀ s e next, s.Sound ∧ s.Ordered → WritesNewest s e → step s e = some next →
        (next.Sound ∧ next.Ordered) ∧ EvictsOldest s e next := by
      intro s e next hboth hnewest hnext
      obtain ⟨ho, hevicts⟩ := ordered_step hboth.1 hboth.2 hnewest hnext
      exact ⟨⟨sound_step hboth.1 hnext, ho⟩, hevicts⟩
    exact everyStep_of_guarded hstep ⟨hsound, hordered⟩

def oneByte (expiresAtMs : Nat) : CachedResponse := ⟨200, Headers.empty, [97], 0, expiresAtMs⟩

def rewritten : List Event := [.set "a" (oneByte 60), .set "b" (oneByte 60), .set "a" (oneByte 90)]

def overtaken (s next : Instance) : Bool :=
  s.cache.keys.contains "a" && !next.cache.keys.contains "a" && next.cache.keys.contains "b" &&
    next.used == ["b", "a", "c"]

theorem rewritten_is_evicted :
    ¬ EveryStep step EvictsOldest (created 2 1000) (rewritten ++ [.set "c" (oneByte 60)]) := by
  have hviolates : ∀ s next, overtaken s next = true →
      ¬ EvictsOldest s (.set "c" (oneByte 60)) next := by
    intro s next hseen hevicts
    simp only [overtaken, Bool.and_eq_true, List.contains_iff_mem, Bool.not_eq_true',
      beq_iff_eq] at hseen
    obtain ⟨⟨⟨hstored, hgone⟩, hleft⟩, hused⟩ := hseen
    have hdropped : "a" ∉ next.cache.keys := by
      intro hin
      rw [List.contains_iff_mem.mpr hin] at hgone
      cases hgone
    have hbefore := hevicts rfl "a" (.inl hstored) hdropped "b" hleft
    rw [UsedBefore, hused] at hbefore
    revert hbefore
    decide
  exact not_everyStep_of_observed overtaken hviolates (by decide +kernel)

end Apim.DataPlane.Caching
