import Apim.Lib.Eviction
import Mathlib.Data.List.Sort

/-!
# The artifact cache

The compiled validators and the client certificates an instance holds
(`data-plane/src/artifacts.ts`), in memory and on the disk of its container. `available` is what
`get` and `certificate` answer. Reading leaves it as it is, a download adds to it, and only
`enforceCeiling` takes from it: exactly what `Spared` does not spare.
-/

namespace Apim.ConfigClient

open Apim.Eviction

inductive Key where
  | artifact (digest : String)
  | certificate (id thumbprint : String)
  deriving DecidableEq, Repr

/-- A file of the cache. `sound` says that it is what its name says: that it has the digest and
parses, or that the certificate in it has the thumbprint. -/
structure File where
  bytes : Nat
  sound : Bool
  deriving DecidableEq, Repr

structure Entry where
  bytes : Nat
  lastUsedMs : Nat
  deriving DecidableEq, Repr

structure ArtifactCache where
  memory : List Key
  entries : List (Key × Entry)
  pinned : List Key
  disk : List (Key × File)
  maxBytes : Nat
  deriving DecidableEq, Repr

def put {ν : Type} (key : Key) (value : ν) : List (Key × ν) → List (Key × ν)
  | [] => [(key, value)]
  | (k, v) :: rest => if k = key then (k, value) :: rest else (k, v) :: put key value rest

theorem lookup_put {ν : Type} (key k : Key) (value : ν) (rows : List (Key × ν)) :
    (put key value rows).lookup k = if k = key then some value else rows.lookup k := by
  induction rows with
  | nil =>
    by_cases hk : k = key
    · simp [put, hk]
    · simp [put, List.lookup_cons, hk, beq_false_of_ne hk]
  | cons row rows ih =>
    obtain ⟨k', v⟩ := row
    by_cases hk' : k' = key
    · subst hk'
      by_cases hk : k = k'
      · simp [put, hk]
      · simp [put, List.lookup_cons, hk, beq_false_of_ne hk]
    · by_cases hk : k = k'
      · subst hk
        simp [put, List.lookup_cons, hk']
      · simp [put, List.lookup_cons, hk', beq_false_of_ne hk, ih]

variable {cache : ArtifactCache}

namespace ArtifactCache

def indexDisk (disk : List (Key × File)) (maxBytes : Nat) : ArtifactCache where
  memory := []
  entries := disk.map fun row => (row.1, ⟨row.2.bytes, 0⟩)
  pinned := []
  disk := disk
  maxBytes := maxBytes

def touch (cache : ArtifactCache) (key : Key) (now : Nat) : ArtifactCache :=
  { cache with entries := cache.entries.map fun row =>
      if row.1 = key then (row.1, { row.2 with lastUsedMs := now }) else row }

def evict (cache : ArtifactCache) (key : Key) : ArtifactCache :=
  { cache with
    memory := cache.memory.filter fun k => k ≠ key
    entries := cache.entries.filter fun row => row.1 ≠ key
    disk := cache.disk.filter fun row => row.1 ≠ key }

def soundOnDisk (cache : ArtifactCache) (key : Key) : Bool :=
  (cache.disk.lookup key).any (·.sound)

def get (cache : ArtifactCache) (digest : String) (now : Nat) : Bool × ArtifactCache :=
  let key := Key.artifact digest
  if key ∈ cache.memory then (true, cache.touch key now)
  else match cache.disk.lookup key with
    | none => (false, cache)
    | some file =>
      if file.sound then (true, { cache with memory := key :: cache.memory }.touch key now)
      else (false, cache.evict key)

def certificate (cache : ArtifactCache) (id thumbprint : String) : Bool × ArtifactCache :=
  let key := Key.certificate id thumbprint
  if key ∈ cache.memory then (true, cache)
  else match cache.disk.lookup key with
    | none => (false, cache)
    | some file => if file.sound then (true, { cache with memory := key :: cache.memory })
      else (false, cache)

def read (cache : ArtifactCache) (key : Key) (now : Nat) : Bool × ArtifactCache :=
  match key with
  | .artifact digest => cache.get digest now
  | .certificate id thumbprint => cache.certificate id thumbprint

def available (cache : ArtifactCache) (key : Key) : Bool :=
  decide (key ∈ cache.memory) || cache.soundOnDisk key

/-- `download` and `downloadCertificate`: the bytes that came and were what was asked for. -/
def download (cache : ArtifactCache) (key : Key) (answer : Option Nat) (now : Nat) :
    Bool × ArtifactCache :=
  match answer with
  | none => (false, cache)
  | some bytes => (true, { cache with
      disk := put key ⟨bytes, true⟩ cache.disk
      entries := put key ⟨bytes, now⟩ cache.entries
      memory := key :: cache.memory })

def fetch (cache : ArtifactCache) (key : Key) (answer : Option Nat) (now : Nat) :
    Bool × ArtifactCache :=
  let held := cache.read key now
  if held.1 then held else held.2.download key answer now

def total (cache : ArtifactCache) : Nat := (cache.entries.map (·.2.bytes)).sum

def candidates (cache : ArtifactCache) : List (Key × Entry) :=
  (cache.entries.filter fun row => row.1 ∉ cache.pinned).insertionSort
    fun a b => a.2.lastUsedMs ≤ b.2.lastUsedMs

def evictUntil (maxBytes : Nat) : Nat → List (Key × Entry) → ArtifactCache → ArtifactCache
  | _, [], cache => cache
  | total, (key, entry) :: rest, cache =>
    if total ≤ maxBytes then cache
    else evictUntil maxBytes (total - entry.bytes) rest (cache.evict key)

def enforceCeiling (cache : ArtifactCache) : ArtifactCache :=
  evictUntil cache.maxBytes cache.total cache.candidates cache

def resize (cache : ArtifactCache) (maxBytes : Nat) : ArtifactCache :=
  { cache with maxBytes := maxBytes }.enforceCeiling

def pin (cache : ArtifactCache) (wanted : List Key) : ArtifactCache :=
  { cache with pinned := wanted }.enforceCeiling

/-! ### What reads and downloads leave available -/

@[simp] theorem pinned_touch (cache : ArtifactCache) (key : Key) (now : Nat) :
    (cache.touch key now).pinned = cache.pinned := rfl

@[simp] theorem available_touch (cache : ArtifactCache) (key k : Key) (now : Nat) :
    (cache.touch key now).available k = cache.available k := rfl

theorem lookup_filter_ne {ν : Type} (key k : Key) (rows : List (Key × ν)) :
    (rows.filter fun row => row.1 ≠ key).lookup k = if k = key then none else rows.lookup k := by
  induction rows with
  | nil => simp
  | cons row rows ih =>
    obtain ⟨k', v⟩ := row
    by_cases hk' : k' = key
    · subst hk'
      rw [List.filter_cons_of_neg (by simp), ih]
      by_cases hk : k = k'
      · rw [if_pos hk, if_pos hk]
      · rw [if_neg hk, if_neg hk, List.lookup_cons, beq_false_of_ne hk]
    · rw [List.filter_cons_of_pos (by simpa using hk'), List.lookup_cons, List.lookup_cons, ih]
      by_cases hk : k = k'
      · subst hk
        simp [hk']
      · simp [beq_false_of_ne hk]

theorem available_evict (cache : ArtifactCache) (key k : Key) :
    (cache.evict key).available k = true ↔ k ≠ key ∧ cache.available k = true := by
  simp only [available, soundOnDisk, evict, List.mem_filter, lookup_filter_ne]
  by_cases hk : k = key
  · simp [hk]
  · simp [hk]

theorem available_of_mem {key : Key} (h : key ∈ cache.memory) : cache.available key = true := by
  simp [available, h]

theorem available_remember {key : Key} {file : File} (hfile : cache.disk.lookup key = some file)
    (hsound : file.sound = true) (k : Key) :
    { cache with memory := key :: cache.memory }.available k = cache.available k := by
  by_cases hk : k = key
  · subst hk
    simp [available, soundOnDisk, hfile, hsound]
  · simp [available, soundOnDisk, hk]

theorem get_spec (cache : ArtifactCache) (digest : String) (now : Nat) :
    (cache.get digest now).1 = cache.available (.artifact digest) ∧
      (cache.get digest now).2.pinned = cache.pinned ∧
      ∀ k, (cache.get digest now).2.available k = cache.available k := by
  unfold get
  by_cases hmem : Key.artifact digest ∈ cache.memory
  · simp only [if_pos hmem]
    exact ⟨(available_of_mem hmem).symm, rfl, fun _ => rfl⟩
  · simp only [if_neg hmem]
    cases hfile : cache.disk.lookup (.artifact digest) with
    | none => exact ⟨by simp [available, soundOnDisk, hmem, hfile], rfl, fun _ => rfl⟩
    | some file =>
      cases hsound : file.sound with
      | true =>
        simp only [hsound, if_true]
        refine ⟨by simp [available, soundOnDisk, hfile, hsound], rfl, fun k => ?_⟩
        exact available_remember hfile hsound k
      | false =>
        have hnone : cache.available (.artifact digest) = false := by
          simp [available, soundOnDisk, hmem, hfile, hsound]
        simp only [hsound, Bool.false_eq_true, if_false]
        refine ⟨hnone.symm, rfl, fun k => Bool.eq_iff_iff.mpr ?_⟩
        simp only [available_evict]
        refine ⟨And.right, fun hk => ⟨fun heq => ?_, hk⟩⟩
        rw [heq, hnone] at hk
        cases hk

theorem certificate_spec (cache : ArtifactCache) (id thumbprint : String) :
    (cache.certificate id thumbprint).1 = cache.available (.certificate id thumbprint) ∧
      (cache.certificate id thumbprint).2.pinned = cache.pinned ∧
      ∀ k, (cache.certificate id thumbprint).2.available k = cache.available k := by
  unfold certificate
  by_cases hmem : Key.certificate id thumbprint ∈ cache.memory
  · simp only [if_pos hmem]
    exact ⟨(available_of_mem hmem).symm, trivial, fun _ => trivial⟩
  · simp only [if_neg hmem]
    cases hfile : cache.disk.lookup (.certificate id thumbprint) with
    | none => exact ⟨by simp [available, soundOnDisk, hmem, hfile], rfl, fun _ => rfl⟩
    | some file =>
      cases hsound : file.sound with
      | true =>
        simp only [hsound, if_true]
        refine ⟨by simp [available, soundOnDisk, hfile, hsound], trivial, fun k => ?_⟩
        exact available_remember hfile hsound k
      | false =>
        simp only [hsound, Bool.false_eq_true, if_false]
        exact ⟨by simp [available, soundOnDisk, hmem, hfile, hsound], trivial, fun _ => trivial⟩

theorem read_spec (cache : ArtifactCache) (key : Key) (now : Nat) :
    (cache.read key now).1 = cache.available key ∧
      (cache.read key now).2.pinned = cache.pinned ∧
      ∀ k, (cache.read key now).2.available k = cache.available k := by
  cases key with
  | artifact digest => exact cache.get_spec digest now
  | certificate id thumbprint => exact cache.certificate_spec id thumbprint

theorem download_spec (cache : ArtifactCache) (key : Key) (answer : Option Nat) (now : Nat) :
    (cache.download key answer now).2.pinned = cache.pinned ∧
      (∀ k, cache.available k = true → (cache.download key answer now).2.available k = true) ∧
      ((cache.download key answer now).1 = true →
        (cache.download key answer now).2.available key = true) := by
  cases answer with
  | none => exact ⟨rfl, fun _ => id, fun h => absurd h (by simp [download])⟩
  | some bytes =>
    refine ⟨rfl, fun k hk => ?_, fun _ => by simp [download, available]⟩
    by_cases hkey : k = key
    · simp [download, available, hkey]
    · simpa [download, available, soundOnDisk, lookup_put, hkey] using hk

theorem fetch_spec (cache : ArtifactCache) (key : Key) (answer : Option Nat) (now : Nat) :
    (cache.fetch key answer now).2.pinned = cache.pinned ∧
      (∀ k, cache.available k = true → (cache.fetch key answer now).2.available k = true) ∧
      ((cache.fetch key answer now).1 = true →
        (cache.fetch key answer now).2.available key = true) := by
  obtain ⟨hheld, hpinned, hsame⟩ := cache.read_spec key now
  obtain ⟨hpinned', hkept, hcame⟩ := (cache.read key now).2.download_spec key answer now
  unfold fetch
  by_cases h : (cache.read key now).1 = true
  · simp only [if_pos h]
    refine ⟨hpinned, fun k hk => (hsame k).trans hk, fun _ => ?_⟩
    rw [hsame key, ← hheld, h]
  · simp only [if_neg h]
    exact ⟨hpinned'.trans hpinned, fun k hk => hkept k ((hsame k).trans hk), hcame⟩

/-! ### What the ceiling takes -/

/-- Every key to be kept that may go comes late enough among the candidates: what goes before it
makes room enough. -/
def Spares (cache : ArtifactCache) (keep : List Key) : Prop :=
  ∀ front row back, cache.candidates = front ++ row :: back → row.1 ∈ keep →
    cache.total ≤ cache.maxBytes + (front.map (·.2.bytes)).sum

theorem available_evictUntil (maxBytes total : Nat) (queue : List (Key × Entry))
    (cache : ArtifactCache) (k : Key) :
    (evictUntil maxBytes total queue cache).available k = true ↔
      cache.available k = true ∧ k ∉ (dropped (·.2.bytes) maxBytes total queue).map (·.1) := by
  induction queue generalizing total cache with
  | nil => simp [evictUntil, dropped]
  | cons row queue ih =>
    obtain ⟨key, entry⟩ := row
    by_cases hle : total ≤ maxBytes
    · simp [evictUntil, dropped, hle]
    · simp only [evictUntil, dropped, if_neg hle, ih, available_evict, List.map_cons,
        List.mem_cons, not_or]
      constructor
      · rintro ⟨⟨hne, hk⟩, hrest⟩
        exact ⟨hk, hne, hrest⟩
      · rintro ⟨hk, hne, hrest⟩
        exact ⟨⟨hne, hk⟩, hrest⟩

theorem available_enforceCeiling (cache : ArtifactCache) (k : Key) :
    cache.enforceCeiling.available k = true ↔
      cache.available k = true ∧ ∀ front row back, cache.candidates = front ++ row :: back →
        row.1 = k → cache.total ≤ cache.maxBytes + (front.map (·.2.bytes)).sum := by
  rw [enforceCeiling, available_evictUntil]
  refine and_congr_right fun _ => ?_
  constructor
  · intro hnot front row back hsplit hrow
    by_contra hlt
    refine hnot (List.mem_map.mpr ⟨row, mem_dropped_iff.mpr ?_, hrow⟩)
    exact ⟨front, back, hsplit, by omega⟩
  · rintro h hin
    obtain ⟨row, hdropped, hrow⟩ := List.mem_map.mp hin
    obtain ⟨front, back, hsplit, hlt⟩ := mem_dropped_iff.mp hdropped
    have hle := h front row back hsplit hrow
    omega

theorem keeps_enforceCeiling_iff (cache : ArtifactCache) {keep : List Key}
    (h : ∀ k ∈ keep, cache.available k = true) :
    (∀ k ∈ keep, cache.enforceCeiling.available k = true) ↔ cache.Spares keep := by
  constructor
  · intro hkept front row back hsplit hrow
    exact ((cache.available_enforceCeiling row.1).mp (hkept row.1 hrow)).2 front row back hsplit rfl
  · intro hspares k hk
    refine (cache.available_enforceCeiling k).mpr ⟨h k hk, fun front row back hsplit hrow => ?_⟩
    exact hspares front row back hsplit (hrow ▸ hk)

theorem notMem_pinned_of_candidate {row : Key × Entry} (h : row ∈ cache.candidates) :
    row.1 ∉ cache.pinned := by
  have hmem := (List.perm_insertionSort _ _).mem_iff.mp h
  simpa using (List.mem_filter.mp hmem).2

theorem spares_of_pinned {keep : List Key} (h : ∀ k ∈ keep, k ∈ cache.pinned) :
    cache.Spares keep := by
  intro front row back hsplit hrow
  have hmem : row ∈ cache.candidates := by simp [hsplit]
  exact absurd (h row.1 hrow) (notMem_pinned_of_candidate hmem)

@[simp] theorem pinned_evictUntil (maxBytes total : Nat) (queue : List (Key × Entry))
    (cache : ArtifactCache) : (evictUntil maxBytes total queue cache).pinned = cache.pinned := by
  induction queue generalizing total cache with
  | nil => rfl
  | cons row queue ih =>
    rw [evictUntil]
    split
    · rfl
    · exact ih _ (cache.evict row.1)

@[simp] theorem pinned_pin (cache : ArtifactCache) (wanted : List Key) :
    (cache.pin wanted).pinned = wanted := pinned_evictUntil _ _ _ _

@[simp] theorem pinned_resize (cache : ArtifactCache) (maxBytes : Nat) :
    (cache.resize maxBytes).pinned = cache.pinned := pinned_evictUntil _ _ _ _

end ArtifactCache

end Apim.ConfigClient
