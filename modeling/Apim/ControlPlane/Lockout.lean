import Apim.Lib.Trace
import Apim.Shared.Routing

/-!
# The lockout of a local account

A sign-in reads the account's row, waits for the hash of the password, and writes the row from what it
read (`control-plane/src/auth-local.ts:96-188`). So it is two steps here, and between them any other
sign-in and any administrator may write the row.

Beside the row the model counts the wrong passwords that were checked since the account was last unlocked.
-/

namespace Apim.ControlPlane.Lockout
open Trace
open Routing (utf16Length)

variable {H : Type*}

/-! ### Signing in -/

structure Config where
  localLockoutThreshold : Nat
  localLockoutMinutes : Nat
  localLoginRatePerMin : Nat

def MAX_PASSWORD_LENGTH : Nat := 200

/-- The columns of `principal` that a sign-in reads, with `locked_until` in milliseconds. -/
structure PrincipalRow (H : Type*) where
  passwordHash : Option H
  failedCount : Nat := 0
  lockedUntil : Option Int := none
  disabled : Bool := false

/-- A sign-in whose password is being verified: the row as it was read, and how many times it had been
written until then. -/
structure Attempt (H : Type*) where
  copy : PrincipalRow H
  presented : String
  version : Nat

structure State (H : Type*) where
  row : PrincipalRow H
  attempts : List Int := []
  waiting : List (Attempt H) := []
  version : Nat := 0
  guesses : Nat := 0

/-- `assertLoginRate`: the attempts that are kept, and whether one more is let in. -/
def assertLoginRate (config : Config) (now : Int) (attempts : List Int) : List Int × Bool :=
  let attempts := attempts.dropWhile (· < now - 60000)
  if config.localLoginRatePerMin ≤ attempts.length then (attempts, false) else (attempts ++ [now], true)

def PrincipalRow.locked (row : PrincipalRow H) (now : Int) : Bool := row.lockedUntil.any (now < ·)

def PrincipalRow.lockOver (row : PrincipalRow H) (now : Int) : Bool := row.lockedUntil.any (· ≤ now)

def State.observe (s : State H) (now : Int) : State H :=
  if s.row.lockOver now then { s with guesses := 0 } else s

def State.write (s : State H) (row : PrincipalRow H) : State H :=
  { s with row, version := s.version + 1 }

/-- `verifyLocalLogin` up to the verification of the password; a refusal leaves nothing waiting. -/
def verifyLocalLogin (config : Config) (s : State H) (now : Int) (presented : String) : State H :=
  let s := s.observe now
  let (attempts, admitted) := assertLoginRate config now s.attempts
  let s := { s with attempts }
  if admitted = false then s
  else if MAX_PASSWORD_LENGTH < utf16Length presented.toList then s
  else if s.row.locked now then s
  else if s.row.disabled then s
  else if s.row.passwordHash = none then s
  else { s with waiting := s.waiting ++ [⟨s.row, presented, s.version⟩] }

def recordFailure (config : Config) (copy row : PrincipalRow H) (now : Int) : PrincipalRow H :=
  let count := copy.failedCount + 1
  let locked := if config.localLockoutThreshold ≤ count
    then some (now + config.localLockoutMinutes * 60000) else none
  { row with failedCount := if locked.isSome then 0 else count, lockedUntil := locked }

def goesOn (config : Config) (s : State H) (a : Attempt H) (now : Int) (ok : Bool) : State H :=
  if ok then { s.write { s.row with failedCount := 0, lockedUntil := none } with guesses := 0 }
  else { s.write (recordFailure config a.copy s.row now) with guesses := s.guesses + 1 }

inductive Event (H : Type*) where
  | begins (now : Int) (presented : String)
  | verdict (now : Int) (index : Nat)
  | elsewhere (now : Int)
  | setPassword (hash : H)
  | disable
  | enable

variable (config : Config) (verify : String → H → Bool)

def Attempt.ok (a : Attempt H) : Bool := a.copy.passwordHash.any (verify a.presented)

def step (s : State H) : Event H → Option (State H)
  | .begins now presented => some (verifyLocalLogin config s now presented)
  | .verdict now index => (s.waiting[index]?).map fun a =>
      goesOn config { s.observe now with waiting := s.waiting.eraseIdx index } a now (a.ok verify)
  | .elsewhere now => some { s with attempts := (assertLoginRate config now s.attempts).1 }
  | .setPassword hash => some { s.write
      { s.row with passwordHash := some hash, failedCount := 0, lockedUntil := none } with guesses := 0 }
  | .disable => some (s.write { s.row with disabled := true })
  | .enable => some { s.write
      { s.row with disabled := false, failedCount := 0, lockedUntil := none } with guesses := 0 }

/-! ### The bound -/

/-- No more wrong passwords are checked than the threshold says, once as many were checked nothing is, and
a right password does not lift a lock that was not there when its row was read. -/
def Bounded (s : State H) (e : Event H) (next : State H) : Prop :=
  next.guesses ≤ config.localLockoutThreshold ∧ match e with
  | .begins now _ =>
    (s.observe now).guesses = config.localLockoutThreshold → next.waiting = s.waiting
  | .verdict now index => (s.observe now).guesses < config.localLockoutThreshold ∧
      ∀ a, s.waiting[index]? = some a → a.ok verify = true →
        ∀ deadline, s.row.lockedUntil = some deadline → a.copy.lockedUntil ≠ some deadline →
          next.row.lockedUntil = some deadline
  | _ => True

def Undisturbed (s : State H) (e : Event H) (_ : State H) : Prop :=
  match e with
  | .verdict _ index => ∀ a, s.waiting[index]? = some a → a.version = s.version
  | _ => True

structure Counted (s : State H) : Prop where
  row : (s.row.lockedUntil = none ∧ s.guesses ≤ s.row.failedCount ∧
      s.row.failedCount < config.localLockoutThreshold) ∨
    (s.row.lockedUntil ≠ none ∧ s.row.failedCount = 0 ∧ s.guesses ≤ config.localLockoutThreshold)
  waiting : ∀ a ∈ s.waiting, a.version ≤ s.version ∧
    (a.version = s.version → a.copy = s.row ∧ s.guesses ≤ s.row.failedCount)

variable {config}

variable {s : State H}

theorem Counted.failedCount_lt (h : Counted config s)
    (hthreshold : 0 < config.localLockoutThreshold) :
    s.row.failedCount < config.localLockoutThreshold := by
  rcases h.row with ⟨-, -, hlt⟩ | ⟨-, hzero, -⟩
  · exact hlt
  · rw [hzero]
    exact hthreshold

theorem Counted.guesses_le (h : Counted config s) : s.guesses ≤ config.localLockoutThreshold := by
  rcases h.row with ⟨-, hle, hlt⟩ | ⟨-, -, hle⟩
  · exact Nat.le_trans hle (Nat.le_of_lt hlt)
  · exact hle

theorem Counted.observe (h : Counted config s) (now : Int) : Counted config (s.observe now) := by
  unfold State.observe
  split
  · refine ⟨?_, fun a ha => ⟨(h.waiting a ha).1, fun hversion => ?_⟩⟩
    · rcases h.row with ⟨hnone, -, hlt⟩ | ⟨hsome, hzero, -⟩
      · exact .inl ⟨hnone, Nat.zero_le _, hlt⟩
      · exact .inr ⟨hsome, hzero, Nat.zero_le _⟩
    · exact ⟨((h.waiting a ha).2 hversion).1, Nat.zero_le _⟩
  · exact h

theorem counted_write (h : Counted config s) {next : State H}
    (hversion : next.version = s.version + 1) (hwaiting : ∀ a ∈ next.waiting, a ∈ s.waiting)
    (hrow : (next.row.lockedUntil = none ∧ next.guesses ≤ next.row.failedCount ∧
      next.row.failedCount < config.localLockoutThreshold) ∨
      (next.row.lockedUntil ≠ none ∧ next.row.failedCount = 0 ∧
      next.guesses ≤ config.localLockoutThreshold)) : Counted config next := by
  refine ⟨hrow, fun a ha => ?_⟩
  have hle := (h.waiting a (hwaiting a ha)).1
  exact ⟨by omega, fun heq => absurd hle (by omega)⟩

theorem Counted.guesses_of_unlocked (h : Counted config s) {now : Int}
    (hlocked : s.row.locked now = false) :
    (s.observe now).guesses ≤ (s.observe now).row.failedCount := by
  rcases h.row with ⟨hnone, hle, -⟩ | ⟨hsome, -, -⟩
  · have hover : s.row.lockOver now = false := by simp [PrincipalRow.lockOver, hnone]
    simpa [State.observe, hover] using hle
  · obtain ⟨deadline, huntil⟩ := Option.ne_none_iff_exists'.mp hsome
    have hover : s.row.lockOver now = true := by
      simpa [PrincipalRow.lockOver, PrincipalRow.locked, huntil] using hlocked
    simp [State.observe, hover]

theorem observe_row (s : State H) (now : Int) :
    (s.observe now).row = s.row ∧ (s.observe now).waiting = s.waiting ∧
      (s.observe now).version = s.version := by
  unfold State.observe
  split <;> exact ⟨rfl, rfl, rfl⟩

theorem verifyLocalLogin_cases (config : Config) (s : State H) (now : Int) (presented : String) :
    ∃ attempts, verifyLocalLogin config s now presented = { s.observe now with attempts } ∨
      s.row.locked now = false ∧ verifyLocalLogin config s now presented =
        { s.observe now with
          attempts, waiting := s.waiting ++ [⟨s.row, presented, s.version⟩] } := by
  obtain ⟨hrow, hwaiting, hversion⟩ := observe_row s now
  refine ⟨(assertLoginRate config now (s.observe now).attempts).1, ?_⟩
  simp only [verifyLocalLogin, hrow, hwaiting, hversion]
  split_ifs <;> simp_all

theorem begins_counted (h : Counted config s) (now : Int) (presented : String) :
    Counted config (verifyLocalLogin config s now presented) := by
  obtain ⟨hrow, hwaiting, hversion⟩ := observe_row s now
  have hobserved := h.observe now
  obtain ⟨attempts, heq | ⟨hlocked, heq⟩⟩ := verifyLocalLogin_cases config s now presented <;>
    rw [heq]
  · exact ⟨hobserved.row, hobserved.waiting⟩
  · refine ⟨hobserved.row, fun a ha => ?_⟩
    rcases List.mem_append.mp ha with hold | hnew
    · exact hobserved.waiting a (hwaiting ▸ hold)
    · obtain rfl := List.mem_singleton.mp hnew
      exact ⟨hversion ▸ Nat.le_refl _, fun _ => ⟨hrow.symm, h.guesses_of_unlocked hlocked⟩⟩

theorem verdict_counted (hthreshold : 0 < config.localLockoutThreshold) (h : Counted config s)
    {a : Attempt H} (ha : a ∈ s.waiting) (hversion : a.version = s.version) (now : Int) (ok : Bool)
    (index : Nat) :
    (s.observe now).guesses < config.localLockoutThreshold ∧
      Counted config
        (goesOn config { s.observe now with waiting := s.waiting.eraseIdx index } a now ok) := by
  obtain ⟨hrow, hwaiting, hsame⟩ := observe_row s now
  have hobserved := h.observe now
  obtain ⟨hcopy, hguesses⟩ := (hobserved.waiting a (hwaiting ▸ ha)).2 (hversion.trans hsame.symm)
  have hlt := hobserved.failedCount_lt hthreshold
  refine ⟨Nat.lt_of_le_of_lt hguesses hlt, ?_⟩
  have herase : ∀ b ∈ s.waiting.eraseIdx index, b ∈ (s.observe now).waiting := fun b hb =>
    hwaiting ▸ List.mem_of_mem_eraseIdx hb
  cases ok with
  | true => exact counted_write hobserved rfl herase (.inl ⟨rfl, Nat.zero_le _, hthreshold⟩)
  | false =>
    refine counted_write hobserved rfl herase ?_
    by_cases hfull : config.localLockoutThreshold ≤ a.copy.failedCount + 1
    · refine .inr ⟨?_, ?_, ?_⟩ <;>
        simp only [goesOn, State.write, recordFailure, Bool.false_eq_true, if_false, if_pos hfull,
          Option.isSome_some, if_true, ne_eq, reduceCtorEq, not_false_eq_true]
      omega
    · refine .inl ⟨?_, ?_, ?_⟩ <;>
        simp only [goesOn, State.write, recordFailure, Bool.false_eq_true, if_false, if_neg hfull,
          Option.isSome_none]
      · rw [hcopy]
        omega
      · omega

theorem step_bounded (hthreshold : 0 < config.localLockoutThreshold) (s : State H) (e : Event H)
    (next : State H) (h : Counted config s) (hquiet : Undisturbed s e next)
    (hstep : step config verify s e = some next) :
    Counted config next ∧ Bounded config verify s e next := by
  cases e with
  | begins now presented =>
    cases hstep
    have hnext := begins_counted h now presented
    refine ⟨hnext, hnext.guesses_le, fun hfull => ?_⟩
    obtain ⟨hrow, hwaiting, -⟩ := observe_row s now
    obtain ⟨attempts, heq | ⟨hlocked, heq⟩⟩ :=
      verifyLocalLogin_cases config s now presented <;> rw [heq]
    · exact hwaiting
    · have hguesses := h.guesses_of_unlocked hlocked
      have hlt := (h.observe now).failedCount_lt hthreshold
      exact absurd hfull (by omega)
  | verdict now index =>
    obtain ⟨a, ha, rfl⟩ := Option.map_eq_some_iff.mp hstep
    have hmem : a ∈ s.waiting := List.mem_of_getElem? ha
    obtain ⟨hguesses, hnext⟩ :=
      verdict_counted hthreshold h hmem (hquiet a ha) now (a.ok verify) index
    refine ⟨hnext, hnext.guesses_le, hguesses, fun b hb _ deadline huntil hother => ?_⟩
    obtain rfl : a = b := Option.some.inj (ha.symm.trans hb)
    rw [((h.waiting a hmem).2 (hquiet a ha)).1] at hother
    exact absurd huntil hother
  | elsewhere now =>
    cases hstep
    exact ⟨⟨h.row, h.waiting⟩, h.guesses_le, trivial⟩
  | setPassword hash =>
    cases hstep
    have hnext : Counted config { s.write { s.row with
        passwordHash := some hash, failedCount := 0, lockedUntil := none } with guesses := 0 } :=
      counted_write h rfl (fun _ ha => ha) (.inl ⟨rfl, Nat.zero_le _, hthreshold⟩)
    exact ⟨hnext, hnext.guesses_le, trivial⟩
  | disable =>
    cases hstep
    have hnext : Counted config (s.write { s.row with disabled := true }) :=
      counted_write h rfl (fun _ ha => ha) h.row
    exact ⟨hnext, hnext.guesses_le, trivial⟩
  | enable =>
    cases hstep
    have hnext : Counted config { s.write { s.row with
        disabled := false, failedCount := 0, lockedUntil := none } with guesses := 0 } :=
      counted_write h rfl (fun _ ha => ha) (.inl ⟨rfl, Nat.zero_le _, hthreshold⟩)
    exact ⟨hnext, hnext.guesses_le, trivial⟩

/-! ### Main results -/

/-- The lockout bounds the guesses in every run in which each sign-in, when its password has been
verified, finds the account's row unwritten since it read it. -/
theorem lockout_bounds (hthreshold : 0 < config.localLockoutThreshold) (hash : H)
    (events : List (Event H))
    (hquiet : EveryStep (step config verify) Undisturbed { row := { passwordHash := some hash } } events) :
    EveryStep (step config verify) (Bounded config verify) { row := { passwordHash := some hash } }
      events :=
  everyStep_of_guarded (step_bounded verify hthreshold)
    ⟨.inl ⟨rfl, Nat.le_refl _, hthreshold⟩, fun _ ha => absurd ha List.not_mem_nil⟩ hquiet

theorem lockout_bounds_sequence :
    EveryStep (step ⟨2, 15, 60⟩ fun presented hash => presented == hash)
      (Bounded ⟨2, 15, 60⟩ fun presented hash => presented == hash)
      { row := { passwordHash := some "right" } }
      [.begins 0 "wrong", .verdict 1 0, .begins 2 "right", .verdict 3 0] := by
  refine lockout_bounds _ (Nat.succ_pos _) "right" _ (everyStep_of_passes (fun s e => match e with
    | .verdict _ index => s.waiting[index]?.all (·.version == s.version)
    | _ => true) ?_ (by decide))
  intro s e next htest
  cases e with
  | verdict now index =>
    intro a ha
    simpa [ha] using htest
  | _ => trivial

/-- Three guesses that overlap are all checked where two are allowed, and a right password that was begun
before the lock lifts it. -/
theorem guesses_overlap :
    (¬ ∀ (config : Config) (verify : String → String → Bool) (hash : String)
      (events : List (Event String)), EveryStep (step config verify) (Bounded config verify)
        { row := { passwordHash := some hash } } events) ∧
    ∃ front e, ((exec (step ⟨1, 15, 60⟩ fun presented hash => presented == hash)
        { row := { passwordHash := some "right" } } front).bind fun s =>
        (step ⟨1, 15, 60⟩ (fun presented hash => presented == hash) s e).map fun next =>
          (s.row.lockedUntil, next.row.lockedUntil)) = some (some 900002, none) := by
  refine ⟨fun h => ?_, [.begins 0 "wrong", .begins 1 "right", .verdict 2 0], .verdict 3 0, by decide⟩
  refine not_everyStep_of_observed (fun _ next => decide (2 < next.guesses)) (fun _ next hbad hlaw => ?_)
    (by decide) (h ⟨2, 15, 60⟩ (fun presented hash => presented == hash) "right"
      ([.begins 0 "a", .begins 0 "b", .begins 0 "c", .verdict 1 0, .verdict 1 0] ++ [.verdict 1 0]))
  exact absurd hlaw.1 (Nat.not_le.mpr (of_decide_eq_true hbad))

end Apim.ControlPlane.Lockout
