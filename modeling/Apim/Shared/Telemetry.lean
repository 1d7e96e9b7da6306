import Mathlib.Algebra.BigOperators.Group.Finset.Piecewise
import Mathlib.Algebra.Field.Rat
import Mathlib.Algebra.Order.Ring.Rat
import Mathlib.Data.Fintype.Pi
import Mathlib.Data.NNRat.Defs

/-!
# Counters of a minute

What an instance reports of one series of requests in one minute (`shared/telemetry.ts`): counts,
bytes, milliseconds and two histograms, each an absolute value and never a difference. Two reports
of different processes add up; the longest request of both is the longer of the two.
-/

namespace Apim.Telemetry

/-! ### Minutes -/

def dateOf (day : Nat) : Nat × Nat × Nat :=
  let z := day + 719468
  let era := z / 146097
  let doe := z % 146097
  let yoe := (doe - doe / 1460 + doe / 36524 - doe / 146096) / 365
  let doy := doe - (365 * yoe + yoe / 4 - yoe / 100)
  let mp := (5 * doy + 2) / 153
  let month := if mp < 10 then mp + 3 else mp - 9
  (yoe + era * 400 + (if month ≤ 2 then 1 else 0), month, doy - (153 * mp + 2) / 5 + 1)

def padded (width n : Nat) : String :=
  let digits := toString n
  String.ofList (List.replicate (width - digits.length) '0') ++ digits

def toISOString (ms : Nat) : String :=
  let (year, month, day) := dateOf (ms / 86400000)
  (if year ≤ 9999 then padded 4 year else "+" ++ padded 6 year) ++ "-" ++ padded 2 month ++ "-" ++
    padded 2 day ++ "T" ++ padded 2 (ms / 3600000 % 24) ++ ":" ++ padded 2 (ms / 60000 % 60) ++
    ":" ++ padded 2 (ms / 1000 % 60) ++ "." ++ padded 3 (ms % 1000) ++ "Z"

/-- `windowStartOf` (`shared/telemetry.ts:217-219`). -/
def windowStartOf (atMs : Nat) : String := toISOString (atMs / 60000 * 60000)

example : windowStartOf 1785542461234 = "2026-08-01T00:01:00.000Z" := by decide +kernel

/-! ### Histograms -/

/-- `BUCKET_COUNT` (`shared/telemetry.ts:136-139`): one bucket for each of the sixteen bounds, and
one above them. -/
abbrev BUCKET_COUNT : Nat := 17

/-- `BUCKET_BOUNDS_MS` (`shared/telemetry.ts:136-138`). -/
def BUCKET_BOUNDS_MS : List ℚ≥0 :=
  [1 / 4, 1 / 2, 1, 2, 5, 10, 25, 50, 100, 250, 500, 1000, 2500, 5000, 10000, 30000]

/-- `bucketIndex` (`shared/telemetry.ts:160-165`). -/
def bucketIndex (durationMs : ℚ≥0) : Fin BUCKET_COUNT :=
  ⟨BUCKET_BOUNDS_MS.findIdx fun bound => decide (durationMs ≤ bound),
    Nat.lt_succ_of_le (@List.findIdx_le_length _ _ BUCKET_BOUNDS_MS)⟩

/-- `LEGACY_BUCKET_COUNT`: the width before the two bounds below a millisecond. -/
def LEGACY_BUCKET_COUNT : Nat := 15

abbrev Buckets := Fin BUCKET_COUNT → Nat

/-- `widenBuckets` (`shared/telemetry.ts:155-158`). -/
def widenBuckets (source : List Nat) : List Nat :=
  if source.length ≠ LEGACY_BUCKET_COUNT then source else 0 :: 0 :: source

def emptyBuckets : Buckets := fun _ => 0

/-- `addBuckets` (`shared/telemetry.ts:171-175`). -/
def addBuckets (into : Buckets) (source : List Nat) : Buckets := fun i =>
  into i + (widenBuckets source).getD i 0

/-! ### Values of a series -/

@[ext]
structure Counts where
  count : Nat
  durationMsSum : ℚ≥0
  durationMsMax : ℚ≥0
  bytesIn : Nat
  bytesOut : Nat
  buckets : Buckets
  gatewayBuckets : Buckets
  backendMsSum : ℚ≥0
  backendCount : Nat
  deriving DecidableEq

namespace Counts

instance : Zero Counts := ⟨⟨0, 0, 0, 0, 0, emptyBuckets, emptyBuckets, 0, 0⟩⟩

instance : Add Counts := ⟨fun a b =>
  { count := a.count + b.count
    durationMsSum := a.durationMsSum + b.durationMsSum
    durationMsMax := max a.durationMsMax b.durationMsMax
    bytesIn := a.bytesIn + b.bytesIn
    bytesOut := a.bytesOut + b.bytesOut
    buckets := a.buckets + b.buckets
    gatewayBuckets := a.gatewayBuckets + b.gatewayBuckets
    backendMsSum := a.backendMsSum + b.backendMsSum
    backendCount := a.backendCount + b.backendCount }⟩

theorem add_def (a b : Counts) : a + b =
    ⟨a.count + b.count, a.durationMsSum + b.durationMsSum, max a.durationMsMax b.durationMsMax,
      a.bytesIn + b.bytesIn, a.bytesOut + b.bytesOut, a.buckets + b.buckets,
      a.gatewayBuckets + b.gatewayBuckets, a.backendMsSum + b.backendMsSum,
      a.backendCount + b.backendCount⟩ := rfl

theorem zero_def : (0 : Counts) = ⟨0, 0, 0, 0, 0, 0, 0, 0, 0⟩ := rfl

instance : AddCommMonoid Counts where
  add_assoc a b c := by simp only [add_def, add_assoc, max_assoc]
  zero_add a := by
    have hmax : (0 : ℚ≥0) ≤ a.durationMsMax := bot_le
    simp only [add_def, zero_def, zero_add, max_eq_right hmax]
  add_zero a := by
    have hmax : (0 : ℚ≥0) ≤ a.durationMsMax := bot_le
    simp only [add_def, zero_def, add_zero, max_eq_left hmax]
  add_comm a b := by
    simp only [add_def, Counts.mk.injEq]
    exact ⟨add_comm _ _, add_comm _ _, max_comm _ _, add_comm _ _, add_comm _ _, add_comm _ _,
      add_comm _ _, add_comm _ _, add_comm _ _⟩
  nsmul := nsmulRec

end Counts

/-- `OUTCOMES` (`shared/telemetry.ts:16-88`): one for each way out of the pipeline. -/
def OUTCOMES : List String :=
  ["ok", "upstream-error", "no-route", "no-config", "decommissioned", "no-key", "bad-key",
    "not-in-product", "rate-limited", "precondition", "content-type", "soap-mismatch",
    "body-too-large", "backend-timeout", "backend-unreachable", "route-saturated",
    "instance-saturated", "client-gone", "validation-rejected", "validation-unavailable",
    "validate-budget", "quota-exceeded", "pool-open", "ip-denied", "bad-credential",
    "rpc-unknown-method", "no-operation", "rpc-error", "cache-hit", "upgrade-rejected",
    "upgrade-saturated", "stream-closed", "route-misconfigured"]

abbrev Outcome := { text : String // text ∈ OUTCOMES }

/-- A series of a report (`TelemetrySeries`), with the members it leaves out at their defaults. -/
structure Series where
  resourceId : String
  subscriptionId : String
  outcome : String
  status : Nat
  count : Nat
  durationMsSum : ℚ≥0
  durationMsMax : ℚ≥0
  bytesIn : Nat
  bytesOut : Nat
  buckets : List Nat
  gatewayBuckets : List Nat
  backendMsSum : ℚ≥0
  backendCount : Nat

structure Window where
  windowStart : String
  series : List Series

/-- The values of a series as they are first buffered (`control-plane/src/telemetry.ts:100-118`). -/
def Series.counts (series : Series) : Counts :=
  { count := series.count
    durationMsSum := series.durationMsSum
    durationMsMax := series.durationMsMax
    bytesIn := series.bytesIn
    bytesOut := series.bytesOut
    buckets := addBuckets emptyBuckets series.buckets
    gatewayBuckets := addBuckets emptyBuckets series.gatewayBuckets
    backendMsSum := series.backendMsSum
    backendCount := series.backendCount }

/-- The values of a buffered series that a reported one is added to
(`control-plane/src/telemetry.ts:85-97`). -/
def Counts.addSeries (existing : Counts) (series : Series) : Counts :=
  { count := existing.count + series.count
    durationMsSum := existing.durationMsSum + series.durationMsSum
    durationMsMax := max existing.durationMsMax series.durationMsMax
    bytesIn := existing.bytesIn + series.bytesIn
    bytesOut := existing.bytesOut + series.bytesOut
    buckets := addBuckets existing.buckets series.buckets
    gatewayBuckets := addBuckets existing.gatewayBuckets series.gatewayBuckets
    backendMsSum := existing.backendMsSum + series.backendMsSum
    backendCount := existing.backendCount + series.backendCount }

theorem addBuckets_eq (into : Buckets) (source : List Nat) :
    addBuckets into source = into + addBuckets emptyBuckets source := by
  funext i
  simp [addBuckets, emptyBuckets]

theorem Counts.addSeries_eq (existing : Counts) (series : Series) :
    existing.addSeries series = existing + series.counts := by
  simp only [Counts.addSeries, Series.counts, Counts.add_def, Counts.mk.injEq, true_and, and_true]
  exact ⟨addBuckets_eq _ _, addBuckets_eq _ _⟩

end Apim.Telemetry
