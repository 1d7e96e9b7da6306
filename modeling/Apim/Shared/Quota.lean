import Apim.Lib.Overlay

/-!
# Quota windows

What a call is counted under (`shared/quota.ts`). Times are in milliseconds.
-/

namespace Apim.Quota

open Apim.Overlay

inductive QuotaScope where
  | route
  | product
  | operation
  deriving DecidableEq, Repr

structure QuotaKey where
  subscriptionId : String
  scopeKind : QuotaScope
  scopeId : String
  periodSec : Nat
  windowStart : Nat
  deriving DecidableEq, Repr

def QuotaKey.endsAt (key : QuotaKey) : Nat := key.windowStart + key.periodSec * 1000

def QuotaKey.isLive (key : QuotaKey) (time : Nat) : Bool := decide (time < key.endsAt)

def windowStart (periodSec time : Nat) : Nat :=
  time / (max 1 periodSec * 1000) * (max 1 periodSec * 1000)

def keyFor (subscriptionId : String) (scopeKind : QuotaScope) (scopeId : String)
    (periodSec time : Nat) : QuotaKey :=
  ⟨subscriptionId, scopeKind, scopeId, periodSec, windowStart periodSec time⟩

theorem isLive_keyFor {periodSec : Nat} (h : 0 < periodSec) (subscriptionId : String)
    (scopeKind : QuotaScope) (scopeId : String) (time : Nat) :
    (keyFor subscriptionId scopeKind scopeId periodSec time).isLive time = true := by
  have hperiod : max 1 periodSec = periodSec := max_eq_right h
  have hpos : 0 < periodSec * 1000 := Nat.mul_pos h (by decide)
  have hrest := Nat.mod_lt time hpos
  have hsplit := Nat.div_add_mod' time (periodSec * 1000)
  refine decide_eq_true ?_
  simp only [QuotaKey.endsAt, keyFor, windowStart, hperiod]
  omega

theorem QuotaKey.isLive_mono {key : QuotaKey} {time later : Nat} (hle : time ≤ later)
    (h : key.isLive later = true) : key.isLive time = true :=
  decide_eq_true (Nat.lt_of_le_of_lt hle (of_decide_eq_true h))

def MAX_QUOTA_ENTRIES : Nat := 2000

abbrev Counts := Dict QuotaKey Nat

def Counts.of (counts : Counts) (key : QuotaKey) : Nat := (counts.lookup key).getD 0

end Apim.Quota
