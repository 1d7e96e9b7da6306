import Apim.Lib.Overlay
import Apim.Shared.Minutes
import Mathlib.Data.List.Sort

/-!
# Counting on an instance

`InstanceTelemetry` (`data-plane/src/telemetry.ts`): each request is counted in the minute in which it
completes, a report says every window that is held, and only what the control plane takes over is
cleared.

Where nothing is dropped, a report says exactly what is held (`lookup_snapshot`), and a request adds
one to its series and to nothing else (`countOf_record`).
-/

namespace Apim.Telemetry
open Overlay

abbrev Id := { text : String // '|' ∉ text.toList }

structure SeriesName where
  resourceId : String
  subscriptionId : String
  outcome : String
  status : Nat
  plain : '|' ∉ resourceId.toList ∧ '|' ∉ subscriptionId.toList ∧ '|' ∉ outcome.toList
  deriving DecidableEq

abbrev Cell := String × SeriesName

structure RecordInput where
  resourceId : Option Id
  subscriptionId : Option Id
  outcome : Outcome
  status : Nat
  durationMs : ℚ≥0
  backendMs : Option ℚ≥0
  bytesIn : Nat
  bytesOut : Nat

theorem outcome_plain : ∀ outcome ∈ OUTCOMES, '|' ∉ outcome.toList := by decide

theorem getD_plain (id : Option Id) : '|' ∉ ((id.map (·.1)).getD "").toList := by
  cases id with
  | none => exact List.not_mem_nil
  | some id => exact id.2

def RecordInput.name (input : RecordInput) : SeriesName :=
  { resourceId := (input.resourceId.map (·.1)).getD ""
    subscriptionId := (input.subscriptionId.map (·.1)).getD ""
    outcome := input.outcome.1
    status := input.status
    plain := ⟨getD_plain _, getD_plain _, outcome_plain _ input.outcome.2⟩ }

def OVERFLOW : SeriesName := ⟨"", "", "overflow", 0, by decide⟩

/-- What a request adds to its cell (`data-plane/src/telemetry.ts:141-174`). -/
def Counts.addRequest (cell : Counts) (input : RecordInput) : Counts :=
  let counted : Counts :=
    { cell with
      count := cell.count + 1
      durationMsSum := cell.durationMsSum + input.durationMs
      durationMsMax := max cell.durationMsMax input.durationMs
      bytesIn := cell.bytesIn + input.bytesIn
      bytesOut := cell.bytesOut + input.bytesOut
      buckets := Function.update cell.buckets (bucketIndex input.durationMs)
        (cell.buckets (bucketIndex input.durationMs) + 1) }
  -- how long a stream stayed open is no latency
  if input.outcome.1 = "stream-closed" then counted
  else
    let attributed : Counts := match input.backendMs with
      | some backendMs =>
        { counted with
          backendMsSum := counted.backendMsSum + backendMs
          backendCount := counted.backendCount + 1 }
      | none => counted
    let gateway := bucketIndex (input.durationMs - input.backendMs.getD 0)
    { attributed with
      gatewayBuckets := Function.update attributed.gatewayBuckets gateway
        (attributed.gatewayBuckets gateway + 1) }

theorem count_addRequest (cell : Counts) (input : RecordInput) :
    (cell.addRequest input).count = cell.count + 1 := by
  unfold Counts.addRequest
  dsimp only
  split
  · rfl
  · cases input.backendMs <;> rfl

/-- A cell as it is reported (`data-plane/src/telemetry.ts:207-225`). -/
def seriesOf (name : SeriesName) (cell : Counts) : Series :=
  { resourceId := name.resourceId
    subscriptionId := name.subscriptionId
    outcome := name.outcome
    status := name.status
    count := cell.count
    durationMsSum := cell.durationMsSum
    durationMsMax := cell.durationMsMax
    bytesIn := cell.bytesIn
    bytesOut := cell.bytesOut
    buckets := List.ofFn (addBuckets emptyBuckets (List.ofFn cell.buckets))
    gatewayBuckets := List.ofFn (addBuckets emptyBuckets (List.ofFn cell.gatewayBuckets))
    backendMsSum := cell.backendMsSum
    backendCount := cell.backendCount }

theorem addBuckets_ofFn (buckets : Buckets) :
    addBuckets emptyBuckets (List.ofFn buckets) = buckets := by
  funext i
  have hwidth : (List.ofFn buckets).length ≠ LEGACY_BUCKET_COUNT := by
    rw [List.length_ofFn]
    decide
  rw [addBuckets, widenBuckets, if_pos hwidth, emptyBuckets, Nat.zero_add, List.getD_eq_getElem?_getD,
    List.getElem?_ofFn]
  simp

theorem counts_seriesOf (name : SeriesName) (cell : Counts) : (seriesOf name cell).counts = cell := by
  simp only [Series.counts, seriesOf, addBuckets_ofFn]

/-! ### The counters of a process -/

structure InstanceTelemetry where
  windows : Dict String (Dict SeriesName Counts)
  requestsTotal : Nat
  droppedSeries : Nat
  droppedWindows : Nat
  batchSize : Nat
  maxSeries : Nat
  maxWindowsPerReport : Nat

structure TelemetryReport where
  droppedSeries : Nat
  droppedWindows : Nat
  windows : List Window

namespace InstanceTelemetry

def fresh (maxSeries maxWindowsPerReport : Nat) : InstanceTelemetry :=
  ⟨∅, 0, 0, 0, maxWindowsPerReport, maxSeries, maxWindowsPerReport⟩

/-- `resize` (`data-plane/src/telemetry.ts:94-100`). -/
def resize (t : InstanceTelemetry) (maxSeries maxWindowsPerReport : Nat) : InstanceTelemetry :=
  let wasBackedOff := t.batchSize < t.maxWindowsPerReport
  { t with
    maxSeries := maxSeries
    maxWindowsPerReport := maxWindowsPerReport
    batchSize := if wasBackedOff then min t.batchSize maxWindowsPerReport else maxWindowsPerReport }

def seriesCount (t : InstanceTelemetry) : Nat :=
  (t.windows.entries.map fun window => window.2.keys.length).sum

def window (t : InstanceTelemetry) (windowStart : String) : Dict SeriesName Counts :=
  (t.windows.lookup windowStart).getD ∅

def folds (t : InstanceTelemetry) (windowStart : String) (input : RecordInput) : Bool :=
  ((t.window windowStart).lookup input.name).isNone && decide (t.maxSeries ≤ t.seriesCount)

def cellFor (t : InstanceTelemetry) (windowStart : String) (input : RecordInput) : Cell :=
  (windowStart, if t.folds windowStart input then OVERFLOW else input.name)

/-- `record` (`data-plane/src/telemetry.ts:111-177`), at the time at which the request completed. -/
def record (t : InstanceTelemetry) (input : RecordInput) (completedAtMs : Nat) :
    InstanceTelemetry :=
  let windowStart := windowStartOf completedAtMs
  let key := (t.cellFor windowStart input).2
  let cell := ((t.window windowStart).lookup key).getD 0
  { t with
    requestsTotal := t.requestsTotal + 1
    droppedSeries := if t.folds windowStart input then t.droppedSeries + 1 else t.droppedSeries
    windows := t.windows.insert windowStart
      ((t.window windowStart).insert key (cell.addRequest input)) }

def ordered (t : InstanceTelemetry) : List String :=
  t.windows.keys.mergeSort fun a b => decide (a ≤ b)

def excess (t : InstanceTelemetry) : List String := t.ordered.take (t.ordered.length - t.batchSize)

def windowOf (t : InstanceTelemetry) (windowStart : String) : Window :=
  ⟨windowStart, (t.window windowStart).entries.map fun series => seriesOf series.1 series.2⟩

/-- `snapshot` (`data-plane/src/telemetry.ts:189-229`). -/
def snapshot (t : InstanceTelemetry) : InstanceTelemetry × TelemetryReport :=
  let kept : InstanceTelemetry :=
    { t with
      windows := select (fun windowStart _ => !t.excess.contains windowStart) t.windows
      droppedWindows := t.droppedWindows + t.excess.length }
  (kept,
    { droppedSeries := kept.droppedSeries
      droppedWindows := kept.droppedWindows
      windows := (t.ordered.drop t.excess.length).map kept.windowOf })

/-- `clearAccepted` (`data-plane/src/telemetry.ts:232-235`). -/
def clearAccepted (t : InstanceTelemetry) (windowStarts : List String) : InstanceTelemetry :=
  { t with
    windows := select (fun windowStart _ => !windowStarts.contains windowStart) t.windows
    batchSize := t.maxWindowsPerReport }

/-- `halveBatch` (`data-plane/src/telemetry.ts:238-241`). -/
def halveBatch (t : InstanceTelemetry) : InstanceTelemetry :=
  { t with batchSize := max 1 (t.batchSize / 2) }

/-! ### What is held -/

def cell (t : InstanceTelemetry) (c : Cell) : Option Counts :=
  (t.windows.lookup c.1).bind fun window => window.lookup c.2

def countOf (t : InstanceTelemetry) (c : Cell) : Nat := ((t.cell c).map (·.count)).getD 0

theorem cell_of_notMem {t : InstanceTelemetry} {c : Cell} (h : c.1 ∉ t.windows) :
    t.cell c = none := by
  rw [cell, AList.lookup_eq_none.mpr h]
  rfl

theorem lookup_window (t : InstanceTelemetry) (c : Cell) : (t.window c.1).lookup c.2 = t.cell c := by
  rw [window, cell]
  cases t.windows.lookup c.1 with
  | none => exact AList.lookup_empty c.2
  | some window => rfl

theorem mem_windows_record (t : InstanceTelemetry) (input : RecordInput) (completedAtMs : Nat)
    (windowStart : String) : windowStart ∈ (t.record input completedAtMs).windows ↔
      windowStart = windowStartOf completedAtMs ∨ windowStart ∈ t.windows :=
  AList.mem_insert _

theorem cell_record (t : InstanceTelemetry) (input : RecordInput) (completedAtMs : Nat) (c : Cell) :
    (t.record input completedAtMs).cell c =
      if c = t.cellFor (windowStartOf completedAtMs) input then
        some (((t.cell c).getD 0).addRequest input)
      else t.cell c := by
  obtain ⟨windowStart, name⟩ := c
  by_cases hwindow : windowStart = windowStartOf completedAtMs
  · subst hwindow
    have hthere : (t.record input completedAtMs).cell (windowStartOf completedAtMs, name) =
        ((t.window (windowStartOf completedAtMs)).insert
          (t.cellFor (windowStartOf completedAtMs) input).2
          ((((t.window (windowStartOf completedAtMs)).lookup
            (t.cellFor (windowStartOf completedAtMs) input).2).getD 0).addRequest input)).lookup
              name := by
      rw [cell, record, AList.lookup_insert, Option.bind_some]
    rw [hthere]
    by_cases hname : name = (t.cellFor (windowStartOf completedAtMs) input).2
    · subst hname
      have hcell := lookup_window t
        (windowStartOf completedAtMs, (t.cellFor (windowStartOf completedAtMs) input).2)
      dsimp only at hcell
      rw [AList.lookup_insert, hcell]
      exact (if_pos rfl).symm
    · have hother : (windowStartOf completedAtMs, name) ≠
          t.cellFor (windowStartOf completedAtMs) input := fun h => hname (congrArg Prod.snd h)
      rw [AList.lookup_insert_ne hname, if_neg hother]
      exact lookup_window t (windowStartOf completedAtMs, name)
  · have hother : (windowStart, name) ≠ t.cellFor (windowStartOf completedAtMs) input :=
      fun h => hwindow (congrArg Prod.fst h)
    rw [if_neg hother, cell, record, AList.lookup_insert_ne hwindow]
    rfl

theorem countOf_record (t : InstanceTelemetry) (input : RecordInput) (completedAtMs : Nat)
    (c : Cell) : (t.record input completedAtMs).countOf c =
      t.countOf c + if c = t.cellFor (windowStartOf completedAtMs) input then 1 else 0 := by
  rw [countOf, cell_record]
  split
  · rw [Option.map_some, Option.getD_some, count_addRequest, countOf]
    cases t.cell c <;> rfl
  · rfl

theorem mem_windows_clearAccepted (t : InstanceTelemetry) (windowStarts : List String)
    (windowStart : String) : windowStart ∈ (t.clearAccepted windowStarts).windows ↔
      windowStart ∈ t.windows ∧ windowStart ∉ windowStarts := by
  rw [← AList.lookup_isSome, clearAccepted, lookup_select, ← AList.lookup_isSome]
  cases t.windows.lookup windowStart <;> simp

theorem cell_clearAccepted (t : InstanceTelemetry) {windowStarts : List String} {c : Cell}
    (h : c.1 ∉ windowStarts) : (t.clearAccepted windowStarts).cell c = t.cell c := by
  have hkept : (!windowStarts.contains c.1) = true := by simpa using h
  rw [cell, clearAccepted, lookup_select, cell]
  cases t.windows.lookup c.1 with
  | none => rfl
  | some window => rw [Option.filter_some, if_pos hkept]

/-! ### What is reported -/

theorem mem_ordered (t : InstanceTelemetry) (windowStart : String) :
    windowStart ∈ t.ordered ↔ windowStart ∈ t.windows :=
  List.mem_mergeSort

theorem nodup_ordered (t : InstanceTelemetry) : t.ordered.Nodup :=
  (List.mergeSort_perm _ _).nodup_iff.mpr t.windows.nodupKeys

theorem snapshot_of_fits {t : InstanceTelemetry} (h : t.windows.keys.length ≤ t.batchSize) :
    t.snapshot = (t, ⟨t.droppedSeries, t.droppedWindows, t.ordered.map t.windowOf⟩) := by
  have hlength : t.ordered.length = t.windows.keys.length := List.length_mergeSort _
  have hexcess : t.excess = [] := by
    rw [excess, hlength, Nat.sub_eq_zero_of_le h, List.take_zero]
  have hwindows : select (fun windowStart _ => !t.excess.contains windowStart) t.windows =
      t.windows := by
    rw [hexcess]
    exact AList.ext (List.filter_eq_self.mpr fun _ _ => rfl)
  unfold snapshot
  dsimp only
  rw [hwindows, hexcess]
  rfl

end InstanceTelemetry

end Apim.Telemetry
