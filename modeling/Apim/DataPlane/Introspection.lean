import Apim.DataPlane.Identity
import Apim.Lib.Trace
import Mathlib.Algebra.Order.Ring.Rat
import Mathlib.Data.Nat.Cast.Order.Ring

/-!
# The cache of introspection answers

`IntrospectionCache` (`data-plane/src/identity.ts:207-316`). A check that finds no live entry waits for a
lookup, which it may share with other checks; so it is two steps, and the answer of the endpoint is one
between them. What becomes of an entry is `checkIntrospection`.

An entry and a check keep when they were made, by the clock and by the count of the steps.
-/

namespace Apim.DataPlane.Introspection
open Trace

/-! ### The cache -/

structure Entry where
  answer : IntrospectionEntry
  expiresAtMs : ℚ
  ttlMs : Nat
  obtainedAt : Nat
  obtainedStep : Nat

inductive Lookup where
  | pending (ttlMs : Nat)
  | answered (entry : Entry)
  | failed

structure Check where
  token : String
  unit : IntrospectionAuthUnit
  cacheTtlSec : Option Nat
  issuer : ConfigIssuer

structure Waiting where
  check : Check
  lookup : Nat
  begunAt : Nat
  begunStep : Nat

structure Verdict where
  check : Check
  source : Option Entry
  decidedAt : Nat
  begunAt : Nat
  begunStep : Nat
  result : AuthResult

structure Cache where
  entries : List (String × Entry) := []
  inFlight : List (String × Nat) := []
  lookups : List Lookup := []
  waiting : List Waiting := []
  steps : Nat := 0
  verdicts : List Verdict := []

def Check.ttlMs (check : Check) : Nat := check.cacheTtlSec.getD 60 * 1000

variable (sha256Hex : String → String) (maxEntries : Nat)

def Check.key (check : Check) : String :=
  check.issuer.introspectionUrl.getD "" ++ "|" ++ sha256Hex check.token

def Cache.decide (c : Cache) (check : Check) (source : Option Entry) (begunAt begunStep now : Nat) : Cache :=
  { c with verdicts := c.verdicts ++ [⟨check, source, now, begunAt, begunStep,
      checkIntrospection (source.map (·.answer)) check.unit check.issuer now⟩] }

def Cache.store (c : Cache) (key : String) (entry : Entry) : Cache :=
  let kept : List (String × Entry) := c.entries.drop (c.entries.length + 1 - maxEntries)
  { c with entries := if kept.any (·.1 == key)
      then kept.map fun row => if row.1 == key then (key, entry) else row
      else kept ++ [(key, entry)] }

def Cache.live (c : Cache) (key : String) (now : Nat) : Option Entry :=
  (c.entries.lookup key).filter fun entry => entry.expiresAtMs > now

def Cache.begin_ (c : Cache) (check : Check) (now : Nat) : Cache :=
  let key := check.key sha256Hex
  if check.issuer.introspectionUrl.getD "" = "" then c.decide check none now c.steps now
  else match c.live key now with
    | some entry =>
      Cache.decide { c with entries := (c.entries.filter fun row => row.1 != key) ++ [(key, entry)] } check
        (some entry) now c.steps now
    | none => match c.inFlight.lookup key with
      | some lookup => { c with waiting := c.waiting ++ [⟨check, lookup, now, c.steps⟩] }
      | none => { c with
          inFlight := c.inFlight ++ [(key, c.lookups.length)]
          lookups := c.lookups ++ [.pending check.ttlMs]
          waiting := c.waiting ++ [⟨check, c.lookups.length, now, c.steps⟩] }

/-- `introspect` from the response on, `none` where there is no body of a good status that is JSON. -/
def introspect (now steps ttlMs : Nat) : Option Json → Lookup
  | none | some .null => .failed
  | some claims =>
    let deadline : ℚ := ((now + ttlMs : Nat) : ℚ)
    .answered {
      answer := ⟨claims.member? "active" == some (.bool true), claims⟩
      expiresAtMs := match Jwt.claimMs claims "exp" with
        | none => deadline
        | some exp => min deadline exp
      ttlMs, obtainedAt := now, obtainedStep := steps }

def Cache.resume (c : Cache) (w : Waiting) (source : Option Entry) (now : Nat) : Cache :=
  let key := w.check.key sha256Hex
  let c : Cache := { c with inFlight := c.inFlight.filter fun row => row.1 != key }
  match source with
  | none => c.decide w.check none w.begunAt w.begunStep now
  | some entry => (c.store maxEntries key entry).decide w.check (some entry) w.begunAt w.begunStep now

def Lookup.source : Lookup → Option (Option Entry)
  | .pending _ => none
  | .answered entry => some (some entry)
  | .failed => some none

inductive Event where
  | begins (now : Nat) (check : Check)
  | answers (now lookup : Nat) (claims : Option Json)
  | resumes (now index : Nat)

def step (c : Cache) (e : Event) : Option Cache :=
  let c : Cache := { c with steps := c.steps + 1 }
  match e with
  | .begins now check => some (c.begin_ sha256Hex check now)
  | .answers now lookup claims => match c.lookups[lookup]? with
    | some (.pending ttlMs) =>
      some { c with lookups := c.lookups.set lookup (introspect now c.steps ttlMs claims) }
    | _ => none
  | .resumes now index => (c.waiting[index]?).bind fun w =>
      (c.lookups[w.lookup]?).bind fun lookup => lookup.source.map fun source =>
        { c with waiting := c.waiting.eraseIdx index }.resume sha256Hex maxEntries w source now

/-! ### The law and its condition -/

/-- The caller was let in by an answer that said active, admits the moment, and was obtained during the check
or within the lifetime of the check's own route before it. -/
def Verdict.Fresh (v : Verdict) : Prop :=
  ∀ identity, v.result = .ok identity → ∃ entry, v.source = some entry ∧ entry.answer.active = true ∧
    Jwt.timeWindowOk entry.answer.claims v.decidedAt 0 = true ∧
    (v.begunStep ≤ entry.obtainedStep ∨ v.begunAt ≤ entry.obtainedAt + v.check.ttlMs)

/-- The check finds an entry that was asked for by a route of no longer lifetime, or it waits for a lookup
that has not been answered. -/
def OwnLifetime (c : Cache) (e : Event) (_ : Cache) : Prop :=
  match e with
  | .begins now check => match c.live (check.key sha256Hex) now with
    | some entry => entry.ttlMs ≤ check.ttlMs
    | none => ∀ lookup, c.inFlight.lookup (check.key sha256Hex) = some lookup →
      ∀ entry, c.lookups[lookup]? ≠ some (.answered entry)
  | _ => True

def Entry.Kept (entry : Entry) : Prop := entry.expiresAtMs ≤ ((entry.obtainedAt + entry.ttlMs : Nat) : ℚ)

structure Sound (c : Cache) : Prop where
  entries : ∀ row ∈ c.entries, row.2.Kept
  lookups : ∀ lookup ∈ c.lookups, ∀ entry, lookup = .answered entry → entry.Kept
  inFlight : ∀ row ∈ c.inFlight, row.2 < c.lookups.length
  waiting : ∀ w ∈ c.waiting, w.begunStep ≤ c.steps ∧ w.lookup < c.lookups.length ∧
    ∀ entry, c.lookups[w.lookup]? = some (.answered entry) → w.begunStep ≤ entry.obtainedStep
  verdicts : ∀ v ∈ c.verdicts, v.Fresh

/-! ### One step -/

variable {source : Option Entry}

theorem admits {check : Check} {now : Nat} {identity : Identity}
    (h : checkIntrospection (source.map (·.answer)) check.unit check.issuer now = .ok identity) :
    ∃ entry, source = some entry ∧
      entry.answer.active = true ∧ Jwt.timeWindowOk entry.answer.claims now 0 = true := by
  simp only [checkIntrospection, Guard.bind_eq_ok, Guard.ensure_eq_ok, Guard.demand_eq_ok,
    Guard.pure_eq_ok] at h
  obtain ⟨_, _, answer, hanswer, _, hactive, _, hwindow, -⟩ := h
  obtain ⟨entry, rfl, rfl⟩ := Option.map_eq_some_iff.mp hanswer
  exact ⟨entry, rfl, hactive, hwindow⟩

variable {c : Cache}

theorem Sound.decide (h : Sound c) {check : Check}
    {begunAt begunStep : Nat} (now : Nat) (hfresh : ∀ entry, source = some entry →
      begunStep ≤ entry.obtainedStep ∨ begunAt ≤ entry.obtainedAt + check.ttlMs) :
    Sound (c.decide check source begunAt begunStep now) := by
  refine ⟨h.entries, h.lookups, h.inFlight, h.waiting, fun v hv => ?_⟩
  rcases List.mem_append.mp hv with hold | hnew
  · exact h.verdicts v hold
  · obtain rfl := List.mem_singleton.mp hnew
    intro identity hadmitted
    obtain ⟨entry, hsource, hactive, hwindow⟩ := admits hadmitted
    exact ⟨entry, hsource, hactive, hwindow, hfresh entry hsource⟩

variable {entry : Entry}

theorem mem_of_lookup {entries : List (String × Entry)} {key : String}
    (h : entries.lookup key = some entry) : (key, entry) ∈ entries := by
  obtain ⟨front, back, rfl, -⟩ := List.lookup_eq_some_iff.mp h
  exact List.mem_append_right _ List.mem_cons_self

theorem Sound.entry_of_live (h : Sound c) {key : String} {now : Nat}
    (hlive : c.live key now = some entry) : entry.Kept ∧ now ≤ entry.obtainedAt + entry.ttlMs := by
  obtain ⟨hfound, hexpires⟩ := Option.filter_eq_some_iff.mp hlive
  have hkept := h.entries (key, entry) (mem_of_lookup hfound)
  refine ⟨hkept, ?_⟩
  have hlater : (now : ℚ) < ((entry.obtainedAt + entry.ttlMs : Nat) : ℚ) :=
    lt_of_lt_of_le (of_decide_eq_true hexpires) hkept
  exact Nat.le_of_lt (Nat.cast_lt.mp hlater)

theorem introspect_kept {now steps ttlMs : Nat} {claims : Option Json}
    (h : introspect now steps ttlMs claims = .answered entry) :
    entry.Kept ∧ entry.obtainedStep = steps := by
  unfold introspect at h
  split at h
  · cases h
  · cases h
  · cases h
    refine ⟨?_, rfl⟩
    unfold Entry.Kept
    dsimp only
    split
    · exact le_refl _
    · exact min_le_left _ _

theorem begin_sound (h : Sound c) (check : Check) (now : Nat)
    (hown : OwnLifetime sha256Hex c (.begins now check) c) :
    Sound ({ c with steps := c.steps + 1 }.begin_ sha256Hex check now) := by
  have hnext : Sound { c with steps := c.steps + 1 } :=
    ⟨h.entries, h.lookups, h.inFlight, fun w hw => ⟨Nat.le_succ_of_le (h.waiting w hw).1,
      (h.waiting w hw).2⟩, h.verdicts⟩
  unfold Cache.begin_
  split
  · exact hnext.decide now nofun
  · have hsame : ({ c with steps := c.steps + 1 } : Cache).live (check.key sha256Hex) now =
        c.live (check.key sha256Hex) now := rfl
    dsimp only
    rw [hsame]
    cases hlive : c.live (check.key sha256Hex) now with
    | some entry =>
      obtain ⟨hkept, hwithin⟩ := h.entry_of_live hlive
      simp only [OwnLifetime, hlive] at hown
      have hentries : ∀ row ∈ (c.entries.filter fun row => row.1 != check.key sha256Hex) ++
          [(check.key sha256Hex, entry)], row.2.Kept := by
        intro row hrow
        rcases List.mem_append.mp hrow with hold | hnew
        · exact h.entries row (List.mem_of_mem_filter hold)
        · rw [List.mem_singleton.mp hnew]
          exact hkept
      have hpart : Sound { c with
          steps := c.steps + 1
          entries := (c.entries.filter fun row => row.1 != check.key sha256Hex) ++
            [(check.key sha256Hex, entry)] } :=
        ⟨hentries, hnext.lookups, hnext.inFlight, hnext.waiting, hnext.verdicts⟩
      refine hpart.decide now fun found hfound => ?_
      cases hfound
      exact .inr (Nat.le_trans hwithin (Nat.add_le_add_left hown _))
    | none =>
      simp only [OwnLifetime, hlive] at hown
      dsimp only
      cases hflight : c.inFlight.lookup (check.key sha256Hex) with
      | some lookup =>
        obtain ⟨front, back, hrows, -⟩ := List.lookup_eq_some_iff.mp hflight
        have hlookup := h.inFlight (check.key sha256Hex, lookup)
          (hrows ▸ List.mem_append_right _ List.mem_cons_self)
        refine ⟨hnext.entries, hnext.lookups, hnext.inFlight, fun w hw => ?_, hnext.verdicts⟩
        rcases List.mem_append.mp hw with hold | hnew
        · exact hnext.waiting w hold
        · rw [List.mem_singleton.mp hnew]
          exact ⟨Nat.le_refl _, hlookup, fun entry hentry => absurd hentry (hown lookup hflight entry)⟩
      | none =>
        refine ⟨hnext.entries, fun lookup hlookup entry hentry => ?_, fun row hrow => ?_,
          fun w hw => ?_, hnext.verdicts⟩
        · rcases List.mem_append.mp hlookup with hold | hnew
          · exact h.lookups lookup hold entry hentry
          · rw [List.mem_singleton.mp hnew] at hentry
            cases hentry
        · rw [List.length_append, List.length_singleton]
          rcases List.mem_append.mp hrow with hold | hnew
          · exact Nat.lt_succ_of_lt (h.inFlight row hold)
          · rw [List.mem_singleton.mp hnew]
            exact Nat.lt_succ_self _
        · rw [List.length_append, List.length_singleton]
          rcases List.mem_append.mp hw with hold | hnew
          · obtain ⟨hbegun, hlookup, hanswered⟩ := hnext.waiting w hold
            refine ⟨hbegun, Nat.lt_succ_of_lt hlookup, fun entry hentry => hanswered entry ?_⟩
            rwa [List.getElem?_append_left hlookup] at hentry
          · rw [List.mem_singleton.mp hnew]
            refine ⟨Nat.le_refl _, Nat.lt_succ_self _, fun entry hentry => ?_⟩
            rw [List.getElem?_append_right (Nat.le_refl _), Nat.sub_self] at hentry
            cases hentry

theorem answers_sound (h : Sound c) {lookup ttlMs : Nat} (now : Nat) (claims : Option Json)
    (hpending : c.lookups[lookup]? = some (.pending ttlMs)) :
    Sound { c with
      steps := c.steps + 1
      lookups := c.lookups.set lookup (introspect now (c.steps + 1) ttlMs claims) } := by
  refine ⟨h.entries, fun l hl entry hentry => ?_, fun row hrow => ?_, fun w hw => ?_, h.verdicts⟩
  · rcases List.mem_or_eq_of_mem_set hl with hold | hnew
    · exact h.lookups l hold entry hentry
    · rw [hnew] at hentry
      exact (introspect_kept hentry).1
  · rw [List.length_set]
    exact h.inFlight row hrow
  · obtain ⟨hbegun, hlookup, hanswered⟩ := h.waiting w hw
    refine ⟨Nat.le_succ_of_le hbegun, by rwa [List.length_set], fun entry hentry => ?_⟩
    dsimp only at hentry
    by_cases hsame : lookup = w.lookup
    · subst hsame
      rw [List.getElem?_set_self hlookup] at hentry
      rw [(introspect_kept (Option.some.inj hentry)).2]
      exact Nat.le_succ_of_le hbegun
    · rw [List.getElem?_set_ne hsame] at hentry
      exact hanswered entry hentry

theorem store_entries (h : ∀ row ∈ c.entries, row.2.Kept) (key : String) (hkept : entry.Kept) :
    ∀ row ∈ (c.store maxEntries key entry).entries, row.2.Kept := by
  intro row hrow
  unfold Cache.store at hrow
  dsimp only at hrow
  split at hrow
  · obtain ⟨old, hold, rfl⟩ := List.mem_map.mp hrow
    split
    · exact hkept
    · exact h old (List.mem_of_mem_drop hold)
  · rcases List.mem_append.mp hrow with hold | hnew
    · exact h row (List.mem_of_mem_drop hold)
    · rw [List.mem_singleton.mp hnew]
      exact hkept

theorem resume_sound (h : Sound c) {w : Waiting} {lookup : Lookup} (index now : Nat)
    (hw : w ∈ c.waiting) (hlookup : c.lookups[w.lookup]? = some lookup)
    (hsource : lookup.source = some source) :
    Sound ({ c with steps := c.steps + 1, waiting := c.waiting.eraseIdx index }.resume sha256Hex maxEntries w
      source now) := by
  obtain ⟨-, -, hanswered⟩ := h.waiting w hw
  have hwaiting : ∀ w' ∈ c.waiting.eraseIdx index, w'.begunStep ≤ c.steps + 1 ∧
      w'.lookup < c.lookups.length ∧ ∀ entry, c.lookups[w'.lookup]? = some (.answered entry) →
        w'.begunStep ≤ entry.obtainedStep := fun w' hw' =>
    ⟨Nat.le_succ_of_le (h.waiting w' (List.mem_of_mem_eraseIdx hw')).1,
      (h.waiting w' (List.mem_of_mem_eraseIdx hw')).2⟩
  have hflight : ∀ row ∈ c.inFlight.filter (fun row => row.1 != w.check.key sha256Hex), row.2 < c.lookups.length :=
    fun row hrow => h.inFlight row (List.mem_of_mem_filter hrow)
  unfold Cache.resume
  cases source with
  | none =>
    have hpart : Sound { c with
        steps := c.steps + 1
        inFlight := c.inFlight.filter fun row => row.1 != w.check.key sha256Hex
        waiting := c.waiting.eraseIdx index } := ⟨h.entries, h.lookups, hflight, hwaiting, h.verdicts⟩
    exact hpart.decide now nofun
  | some entry =>
    obtain rfl : lookup = .answered entry := by
      cases lookup <;> cases hsource
      rfl
    have hkept := h.lookups _ (List.mem_of_getElem? hlookup) entry rfl
    have hpart : Sound (Cache.store maxEntries { c with
        steps := c.steps + 1
        inFlight := c.inFlight.filter fun row => row.1 != w.check.key sha256Hex
        waiting := c.waiting.eraseIdx index } (w.check.key sha256Hex) entry) :=
      ⟨store_entries maxEntries h.entries _ hkept, h.lookups, hflight, hwaiting, h.verdicts⟩
    refine hpart.decide now fun found hfound => ?_
    cases hfound
    exact .inl (hanswered entry hlookup)

theorem step_sound (c : Cache) (e : Event) (next : Cache) (h : Sound c) (hown : OwnLifetime sha256Hex c e next)
    (hstep : step sha256Hex maxEntries c e = some next) : Sound next := by
  cases e with
  | begins now check =>
    cases hstep
    exact begin_sound sha256Hex h check now hown
  | answers now lookup claims =>
    simp only [step] at hstep
    split at hstep
    · rename_i ttlMs hpending
      cases hstep
      exact answers_sound h now claims hpending
    · cases hstep
  | resumes now index =>
    obtain ⟨w, hw, hrest⟩ := Option.bind_eq_some_iff.mp hstep
    obtain ⟨lookup, hlookup, hrest⟩ := Option.bind_eq_some_iff.mp hrest
    obtain ⟨source, hsource, rfl⟩ := Option.map_eq_some_iff.mp hrest
    exact resume_sound sha256Hex maxEntries h index now (List.mem_of_getElem? hw) hlookup hsource

/-! ### Main results -/

/-- In every run whose checks find no entry that a route of a longer lifetime asked for, no caller is let in
by an answer that is older than its route allows. -/
theorem answers_fresh (events : List Event) (c : Cache)
    (hown : EveryStep (step sha256Hex maxEntries) (OwnLifetime sha256Hex) {} events)
    (hrun : exec (step sha256Hex maxEntries) {} events = some c) : ∀ v ∈ c.verdicts, v.Fresh :=
  (exec_invariant_of_guarded (step_sound sha256Hex maxEntries) ⟨List.forall_mem_nil _,
    List.forall_mem_nil _, List.forall_mem_nil _, List.forall_mem_nil _, List.forall_mem_nil _⟩ hown
    hrun).verdicts

def checkOf (cacheTtlSec : Nat) : Check :=
  ⟨"t", { issuerRef := "i" }, some cacheTtlSec, ⟨"i", none, [], none, some "https://i/introspect"⟩⟩

def ownLifetime (c : Cache) : Event → Bool
  | .begins now check => match c.live (check.key sha256Hex) now with
    | some entry => entry.ttlMs ≤ check.ttlMs
    | none => (c.inFlight.lookup (check.key sha256Hex)).all fun lookup =>
      (c.lookups[lookup]?).all fun found => match found with
        | .answered _ => false
        | _ => true
  | _ => true

theorem ownLifetime_of_test (c : Cache) (e : Event) (next : Cache) (h : ownLifetime sha256Hex c e = true) :
    OwnLifetime sha256Hex c e next := by
  cases e with
  | begins now check =>
    simp only [ownLifetime] at h
    simp only [OwnLifetime]
    split at h
    · exact of_decide_eq_true h
    · intro lookup hlookup entry hentry
      simp [hlookup, hentry] at h
  | _ => trivial

theorem answers_fresh_again :
    ∃ c, exec (step id 10000) {} [.begins 0 (checkOf 60), .answers 10 0 (some (.obj [("active", .bool true)])),
        .resumes 10 0, .begins 59000 (checkOf 60)] = some c ∧ ∀ v ∈ c.verdicts, v.Fresh := by
  obtain ⟨c, hrun⟩ := Option.isSome_iff_exists.mp (show (exec (step id 10000) {} [.begins 0 (checkOf 60),
    .answers 10 0 (some (.obj [("active", .bool true)])), .resumes 10 0, .begins 59000 (checkOf 60)]).isSome
      = true by decide +kernel)
  exact ⟨c, hrun, answers_fresh id 10000 _ c
    (everyStep_of_passes (ownLifetime id) (ownLifetime_of_test id) (by decide +kernel)) hrun⟩

/-- A route that keeps answers for a minute lets a caller in by one of ten minutes ago, which a route that
keeps them for an hour asked for. -/
theorem answer_of_longer_lifetime :
    ¬ ∀ (sha256Hex : String → String) (maxEntries : Nat) (events : List Event) (c : Cache),
      exec (step sha256Hex maxEntries) {} events = some c → ∀ v ∈ c.verdicts, v.Fresh := by
  intro h
  have hseen : (exec (step id 10000) {} [.begins 0 (checkOf 3600),
      .answers 0 0 (some (.obj [("active", .bool true)])), .resumes 0 0, .begins 600000 (checkOf 60)]).any
      (fun c => c.verdicts.any fun v => v.result.isOk && v.source.all fun entry =>
        decide (entry.obtainedStep < v.begunStep ∧ entry.obtainedAt + v.check.ttlMs < v.begunAt)) = true := by
    decide +kernel
  obtain ⟨c, hrun, hold⟩ := (Option.any_eq_true _ _).mp hseen
  obtain ⟨v, hv, hbad⟩ := List.any_eq_true.mp hold
  simp only [Bool.and_eq_true, Option.all_eq_true, decide_eq_true_eq] at hbad
  cases hresult : v.result with
  | error why =>
    rw [hresult] at hbad
    exact absurd hbad.1 Bool.false_ne_true
  | ok identity =>
    obtain ⟨entry, hsource, -, -, hfresh⟩ := h id 10000 _ c hrun v hv identity hresult
    obtain ⟨hbefore, holder⟩ := hbad.2 entry hsource
    rcases hfresh with hduring | hwithin
    · exact Nat.not_le.mpr hbefore hduring
    · exact Nat.not_le.mpr holder hwithin

end Apim.DataPlane.Introspection
