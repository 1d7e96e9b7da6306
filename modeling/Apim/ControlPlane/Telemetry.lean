import Apim.Lib.Overlay
import Apim.Lib.Trace
import Apim.Shared.Telemetry

/-!
# Telemetry ingest

`TelemetryAggregator` (`control-plane/src/telemetry.ts`): reports are buffered in memory, one entry
for each series of each run of an instance, and flushed to `telemetry_rollup` now and then. A value
replaces the one its run has reported before, except in the overflow row, which all the runs beyond
the cap share and where values add up.

What should be there is said beside the program: the last value that each run has reported of each
series (`State.reported`). The rows, with what is buffered laid over them, add up to these values in
every run in which each series that is taken has room for its value and no flush loses one
(`ingests_of_keepsReported`).
-/

namespace Apim.Telemetry
open Overlay Trace

/-! ### The aggregator -/

structure SeriesKey where
  environment : String
  instanceId : String
  windowStart : String
  resourceId : String
  subscriptionId : String
  outcome : String
  status : Nat
  deriving DecidableEq

structure RowKey where
  series : SeriesKey
  runId : String
  deriving DecidableEq

/-- The key of the buffer (`control-plane/src/telemetry.ts:73-82`). -/
def RowKey.text (key : RowKey) : String :=
  "|".intercalate [key.series.environment, key.series.instanceId, key.runId,
    key.series.windowStart, key.series.resourceId, key.series.subscriptionId, key.series.outcome,
    toString key.series.status]

def OVERFLOW_RUN : String := "overflow"

structure Aggregator where
  buffer : Dict String (RowKey × Counts)
  runsSeen : Dict String (List String)
  foldedRuns : Nat

/-- `runFor` (`control-plane/src/telemetry.ts:126-139`). -/
def runFor (cap : Nat) (a : Aggregator) (instanceId windowStart runId : String) :
    Aggregator × String :=
  let key := instanceId ++ "|" ++ windowStart
  let runs := (a.runsSeen.lookup key).getD []
  let seen := { a with runsSeen := a.runsSeen.insert key runs }
  if runs.contains runId then (seen, runId)
  else if cap ≤ runs.length then ({ seen with foldedRuns := a.foldedRuns + 1 }, OVERFLOW_RUN)
  else ({ seen with runsSeen := a.runsSeen.insert key (runs ++ [runId]) }, runId)

def seriesKey (environment instanceId windowStart : String) (series : Series) : SeriesKey :=
  ⟨environment, instanceId, windowStart, series.resourceId, series.subscriptionId, series.outcome,
    series.status⟩

/-- One turn of the inner loop of `accept` (`control-plane/src/telemetry.ts:72-119`). -/
def acceptSeries (environment instanceId effectiveRun windowStart : String) (a : Aggregator)
    (series : Series) : Aggregator :=
  let key : RowKey := ⟨seriesKey environment instanceId windowStart series, effectiveRun⟩
  match a.buffer.lookup key.text with
  | some existing =>
    if effectiveRun = OVERFLOW_RUN then
      -- several processes share the row, so their counts add
      { a with buffer :=
          a.buffer.insert key.text (existing.1, existing.2.addSeries series) }
    else { a with buffer := a.buffer.insert key.text (key, series.counts) }
  | none => { a with buffer := a.buffer.insert key.text (key, series.counts) }

def acceptWindow (cap : Nat) (environment instanceId runId : String) (a : Aggregator)
    (window : Window) : Aggregator :=
  let tracked := runFor cap a instanceId window.windowStart runId
  window.series.foldl (acceptSeries environment instanceId tracked.2 window.windowStart) tracked.1

/-- `accept` (`control-plane/src/telemetry.ts:61-123`), with the windows it takes responsibility
for. -/
def accept (cap : Nat) (a : Aggregator) (environment instanceId runId : String)
    (windows : List Window) (nowMs : Nat) : Aggregator × List String :=
  (windows.foldl (acceptWindow cap environment instanceId runId) a,
    (windows.map (·.windowStart)).filter fun start => decide (start < windowStartOf nowMs))

/-- `forgetOldRunWindows` (`control-plane/src/telemetry.ts:199-205`). -/
def forgetOldRunWindows (a : Aggregator) (nowMs : Nat) : Aggregator :=
  let cutoff := windowStartOf (nowMs - 3600000)
  let windowOf := fun key : String => String.ofList ((key.toList.dropWhile (· != '|')).drop 1)
  { a with runsSeen := select (fun key _ => !decide (windowOf key < cutoff)) a.runsSeen }

def upsertAll (rollup : Dict RowKey Counts) (rows : List (RowKey × Counts)) :
    Dict RowKey Counts :=
  rows.foldl (fun rollup row => rollup.insert row.1 row.2) rollup

def Aggregator.pending (a : Aggregator) : List (RowKey × Counts) :=
  a.buffer.entries.map (·.2)

/-- `flushNow` (`control-plane/src/telemetry.ts:142-197`); `fails` when the transaction throws, which
leaves the table as it was. -/
def flushNow (a : Aggregator) (rollup : Dict RowKey Counts) (nowMs : Nat) (fails : Bool) :
    Aggregator × Dict RowKey Counts :=
  if a.buffer.entries.isEmpty then (forgetOldRunWindows a nowMs, rollup)
  else
    let cleared := { a with buffer := ∅ }
    if fails then (cleared, rollup)
    else (forgetOldRunWindows cleared nowMs, upsertAll rollup a.pending)

/-! ### The ingest as a transition system -/

/-- The aggregator and its table, the time, and beside them the last value each run has reported of
each series. -/
structure State where
  aggregator : Aggregator
  rollup : Dict RowKey Counts
  now : Nat
  reported : SeriesKey → String → Option Counts

inductive Event where
  | report (environment instanceId runId : String) (windows : List Window)
  | flush
  | failedFlush
  | wait (milliseconds : Nat)

def noted (reported : SeriesKey → String → Option Counts) (series : SeriesKey) (runId : String)
    (counts : Counts) : SeriesKey → String → Option Counts :=
  Function.update reported series (Function.update (reported series) runId (some counts))

def takeSeries (environment instanceId runId effectiveRun windowStart : String) (s : State)
    (series : Series) : State :=
  { s with
    aggregator := acceptSeries environment instanceId effectiveRun windowStart s.aggregator series
    reported := noted s.reported (seriesKey environment instanceId windowStart series) runId
      series.counts }

def State.track (s : State) (cap : Nat) (instanceId windowStart runId : String) : State :=
  { s with aggregator := (runFor cap s.aggregator instanceId windowStart runId).1 }

def takeWindow (cap : Nat) (environment instanceId runId : String) (s : State) (window : Window) :
    State :=
  window.series.foldl
    (takeSeries environment instanceId runId
      (runFor cap s.aggregator instanceId window.windowStart runId).2 window.windowStart)
    (s.track cap instanceId window.windowStart runId)

def next (cap : Nat) (s : State) : Event → State
  | .report environment instanceId runId windows =>
    windows.foldl (takeWindow cap environment instanceId runId) s
  | .flush =>
    let flushed := flushNow s.aggregator s.rollup s.now false
    { s with aggregator := flushed.1, rollup := flushed.2 }
  | .failedFlush =>
    let flushed := flushNow s.aggregator s.rollup s.now true
    { s with aggregator := flushed.1, rollup := flushed.2 }
  | .wait milliseconds => { s with now := s.now + milliseconds }

def step (cap : Nat) (s : State) (e : Event) : Option State := some (next cap s e)

def State.initial : State := ⟨⟨∅, ∅, 0⟩, ∅, 0, fun _ _ => none⟩

/-! ### Rows with what is buffered -/

def State.view (s : State) (key : RowKey) : Option Counts :=
  laidOver RowKey.text s.aggregator.buffer s.rollup key

theorem runFor_buffer (cap : Nat) (a : Aggregator) (instanceId windowStart runId : String) :
    (runFor cap a instanceId windowStart runId).1.buffer = a.buffer := by
  unfold runFor
  dsimp only
  split
  · rfl
  · split <;> rfl

theorem runFor_run (cap : Nat) (a : Aggregator) (instanceId windowStart runId : String) :
    (runFor cap a instanceId windowStart runId).2 = runId ∨
      (runFor cap a instanceId windowStart runId).2 = OVERFLOW_RUN := by
  unfold runFor
  dsimp only
  split
  · exact .inl rfl
  · split
    · exact .inr rfl
    · exact .inl rfl

theorem view_track (s : State) (cap : Nat) (instanceId windowStart runId : String) (key : RowKey) :
    (s.track cap instanceId windowStart runId).view key = s.view key := by
  unfold State.view State.track
  rw [runFor_buffer]

/-- The series has room for a value of the run: the buffer has no other series under its text; in
the overflow row it is the run's first value, and a row that has been flushed is still buffered; and
in a row of its own it is the run's first value, or replaces the one that is there. -/
structure RoomFor (s : State) (key : RowKey) (runId : String) : Prop where
  alone : ∀ row, s.aggregator.buffer.lookup key.text = some row → row.1 = key
  shared : key.runId = OVERFLOW_RUN → s.reported key.series runId = none ∧
    (s.rollup.lookup key = none ∨ (s.aggregator.buffer.lookup key.text).isSome)
  own : key.runId ≠ OVERFLOW_RUN → s.reported key.series runId = none ∨ (s.view key).isSome

variable {environment instanceId runId : String} {s : State} {series : Series}

theorem view_takeSeries {effectiveRun windowStart : String}
    (hroom : RoomFor s ⟨seriesKey environment instanceId windowStart series, effectiveRun⟩ runId)
    (key : RowKey) :
    (takeSeries environment instanceId runId effectiveRun windowStart s series).view key =
      if key = ⟨seriesKey environment instanceId windowStart series, effectiveRun⟩ then
        some (if effectiveRun = OVERFLOW_RUN then (s.view key).getD 0 + series.counts
          else series.counts)
      else s.view key := by
  obtain ⟨halone, hshared, -⟩ := hroom
  generalize hk : (⟨seriesKey environment instanceId windowStart series, effectiveRun⟩ : RowKey) = k
    at halone hshared ⊢
  have hrun : k.runId = effectiveRun := by rw [← hk]
  have hview : (takeSeries environment instanceId runId effectiveRun windowStart s series).view key =
      if key = k then some (if effectiveRun = OVERFLOW_RUN then (s.view k).getD 0 + series.counts
          else series.counts) else s.view key := by
    unfold State.view takeSeries acceptSeries
    dsimp only
    rw [hk]
    cases hrow : s.aggregator.buffer.lookup k.text with
    | none =>
      dsimp only
      rw [laidOver_insert s.rollup series.counts halone]
      by_cases hover : effectiveRun = OVERFLOW_RUN
      · -- nothing is buffered, so the guard says that nothing has been flushed either
        have hnone : laidOver RowKey.text s.aggregator.buffer s.rollup k = none := by
          rcases (hshared (hrun.trans hover)).2 with hflushed | hbuffered
          · rw [laidOver, hrow]
            exact hflushed
          · rw [hrow] at hbuffered
            cases hbuffered
        rw [if_pos hover, hnone, Option.getD_none, zero_add]
      · rw [if_neg hover]
    | some row =>
      obtain ⟨rowKey, counts⟩ := row
      obtain rfl : rowKey = k := halone _ hrow
      dsimp only
      by_cases hover : effectiveRun = OVERFLOW_RUN
      · have hthere : laidOver RowKey.text s.aggregator.buffer s.rollup rowKey = some counts := by
          rw [laidOver, hrow]
          exact if_pos rfl
        rw [if_pos hover, if_pos hover, hthere, Option.getD_some, ← Counts.addSeries_eq]
        exact laidOver_insert s.rollup _ halone key
      · rw [if_neg hover, if_neg hover]
        exact laidOver_insert s.rollup series.counts halone key
  rw [hview]
  by_cases hkey : key = k
  · rw [if_pos hkey, if_pos hkey, hkey]
  · rw [if_neg hkey, if_neg hkey]

/-! ### The rows add up -/

structure Balanced (s : State) : Prop where
  named : ∀ text row, s.aggregator.buffer.lookup text = some row → row.1.text = text
  own : ∀ series runId counts, runId ≠ OVERFLOW_RUN → s.view ⟨series, runId⟩ = some counts →
    s.reported series runId = some counts
  shared : ∀ series (runs : Finset String), (∀ r, (s.reported series r).isSome → r ∈ runs) →
    (s.view ⟨series, OVERFLOW_RUN⟩).getD 0 =
      ∑ r ∈ runs, if r = OVERFLOW_RUN ∨ s.view ⟨series, r⟩ = none then
        (s.reported series r).getD 0 else 0

theorem noted_self (reported : SeriesKey → String → Option Counts) (series : SeriesKey)
    (runId : String) (counts : Counts) :
    noted reported series runId counts series runId = some counts := by
  rw [noted, Function.update_self, Function.update_self]

theorem noted_run_ne (reported : SeriesKey → String → Option Counts) (series : SeriesKey)
    {r : String} (counts : Counts) (h : r ≠ runId) :
    noted reported series runId counts series r = reported series r := by
  rw [noted, Function.update_self, Function.update_of_ne h]

theorem noted_series_ne (reported : SeriesKey → String → Option Counts) {series other : SeriesKey}
    (runId : String) (counts : Counts) (h : other ≠ series) :
    noted reported series runId counts other = reported other :=
  Function.update_of_ne h _ _

theorem named_takeSeries {effectiveRun windowStart : String} (hs : Balanced s)
    (hroom : RoomFor s ⟨seriesKey environment instanceId windowStart series, effectiveRun⟩ runId)
    {text : String} {row : RowKey × Counts}
    (hrow : (takeSeries environment instanceId runId effectiveRun windowStart s
      series).aggregator.buffer.lookup text = some row) : row.1.text = text := by
  have hinsert : ∀ {key : RowKey} {counts : Counts},
      (s.aggregator.buffer.insert key.text (key, counts)).lookup text = some row →
      row.1.text = text := by
    intro key counts h
    by_cases htext : text = key.text
    · subst htext
      rw [AList.lookup_insert] at h
      rw [← Option.some.inj h]
    · rw [AList.lookup_insert_ne htext] at h
      exact hs.named text row h
  unfold takeSeries acceptSeries at hrow
  dsimp only at hrow
  split at hrow
  next existing hexisting =>
    split at hrow
    · have hkey := hroom.alone existing hexisting
      rw [hkey] at hrow
      exact hinsert hrow
    · exact hinsert hrow
  next => exact hinsert hrow

theorem sum_own (key : RowKey) (runs : Finset String) (counts : Counts)
    (hrun : key.runId ≠ OVERFLOW_RUN)
    (hfirst : s.reported key.series key.runId = none ∨ (s.view key).isSome) :
    (∑ r ∈ runs, if r = OVERFLOW_RUN ∨
        (if (⟨key.series, r⟩ : RowKey) = key then some counts else s.view ⟨key.series, r⟩) = none then
          (noted s.reported key.series key.runId counts key.series r).getD 0 else 0) =
      ∑ r ∈ runs, if r = OVERFLOW_RUN ∨ s.view ⟨key.series, r⟩ = none then
        (s.reported key.series r).getD 0 else 0 := by
  refine Finset.sum_congr rfl fun r _ => ?_
  by_cases hr : r = key.runId
  · subst hr
    rw [if_pos rfl, if_neg (by simp [hrun])]
    rcases hfirst with hnone | hthere
    · rw [hnone]
      simp
    · have hview : s.view ⟨key.series, key.runId⟩ ≠ none := Option.isSome_iff_ne_none.mp hthere
      rw [if_neg (by simp [hrun, hview])]
  · have hne : (⟨key.series, r⟩ : RowKey) ≠ key := fun h => hr (congrArg RowKey.runId h)
    rw [if_neg hne, noted_run_ne s.reported key.series counts hr]

theorem sum_shared {series : SeriesKey} {runs : Finset String} {counts : Counts} (hs : Balanced s)
    (hmem : runId ∈ runs) (hfirst : s.reported series runId = none) (view : RowKey → Option Counts)
    (hview : ∀ r, r ≠ OVERFLOW_RUN → view ⟨series, r⟩ = s.view ⟨series, r⟩) :
    (∑ r ∈ runs, if r = OVERFLOW_RUN ∨ view ⟨series, r⟩ = none then
        (noted s.reported series runId counts series r).getD 0 else 0) =
      (∑ r ∈ runs, if r = OVERFLOW_RUN ∨ s.view ⟨series, r⟩ = none then
        (s.reported series r).getD 0 else 0) + counts := by
  have hfolded : ∀ r, (r = OVERFLOW_RUN ∨ view ⟨series, r⟩ = none) ↔
      (r = OVERFLOW_RUN ∨ s.view ⟨series, r⟩ = none) := by
    intro r
    by_cases hr : r = OVERFLOW_RUN
    · simp [hr]
    · rw [hview r hr]
  have hown : runId = OVERFLOW_RUN ∨ s.view ⟨series, runId⟩ = none := by
    by_cases hrun : runId = OVERFLOW_RUN
    · exact .inl hrun
    · refine .inr (Option.eq_none_iff_forall_ne_some.mpr fun c hc => ?_)
      rw [hs.own series runId c hrun hc] at hfirst
      cases hfirst
  rw [← Finset.add_sum_erase runs _ hmem, ← Finset.add_sum_erase runs _ hmem]
  have hrest : (∑ r ∈ runs.erase runId, if r = OVERFLOW_RUN ∨ view ⟨series, r⟩ = none then
        (noted s.reported series runId counts series r).getD 0 else 0) =
      ∑ r ∈ runs.erase runId, if r = OVERFLOW_RUN ∨ s.view ⟨series, r⟩ = none then
        (s.reported series r).getD 0 else 0 := by
    refine Finset.sum_congr rfl fun r hr => ?_
    rw [noted_run_ne s.reported series counts (Finset.ne_of_mem_erase hr)]
    exact if_congr (hfolded r) rfl rfl
  rw [hrest, if_pos ((hfolded runId).mpr hown), if_pos hown, noted_self, hfirst, Option.getD_some,
    Option.getD_none, zero_add, add_comm]

theorem balanced_takeSeries {effectiveRun windowStart : String} (hs : Balanced s)
    (hroom : RoomFor s ⟨seriesKey environment instanceId windowStart series, effectiveRun⟩ runId)
    (heffective : effectiveRun = runId ∨ effectiveRun = OVERFLOW_RUN) :
    Balanced (takeSeries environment instanceId runId effectiveRun windowStart s series) := by
  have hview := view_takeSeries hroom
  generalize hk : seriesKey environment instanceId windowStart series = k at hroom hview
  have hreported : (takeSeries environment instanceId runId effectiveRun windowStart s
      series).reported = noted s.reported k runId series.counts := by rw [← hk]; rfl
  refine ⟨fun text row hrow => ?_, fun other r counts hr hcounts => ?_, fun other runs hruns => ?_⟩
  · subst hk
    exact named_takeSeries hs hroom hrow
  · rw [hreported]
    rw [hview] at hcounts
    by_cases hkey : (⟨other, r⟩ : RowKey) = ⟨k, effectiveRun⟩
    · obtain ⟨rfl, rfl⟩ := RowKey.mk.inj hkey
      obtain rfl := heffective.resolve_right hr
      rw [if_pos rfl, if_neg hr] at hcounts
      rw [noted_self, hcounts]
    · rw [if_neg hkey] at hcounts
      have hold := hs.own other r counts hr hcounts
      by_cases hseries : other = k
      · subst hseries
        by_cases hrun : r = runId
        · -- the run has a row of its own, so it is not folded now
          subst hrun
          rcases heffective with rfl | hover
          · exact absurd rfl hkey
          · rw [(hroom.shared hover).1] at hold
            cases hold
        · rw [noted_run_ne s.reported other series.counts hrun]
          exact hold
      · rw [noted_series_ne s.reported runId series.counts hseries]
        exact hold
  · rw [hreported] at hruns ⊢
    by_cases hseries : other = k
    · subst hseries
      have hmem : runId ∈ runs := hruns runId (by rw [noted_self]; rfl)
      have hbefore : ∀ r, (s.reported other r).isSome → r ∈ runs := by
        intro r hr
        by_cases hrun : r = runId
        · exact hrun ▸ hmem
        · exact hruns r (by rw [noted_run_ne s.reported other series.counts hrun]; exact hr)
      by_cases hover : effectiveRun = OVERFLOW_RUN
      · subst hover
        rw [hview, if_pos rfl, if_pos rfl, Option.getD_some, hs.shared other runs hbefore]
        refine (sum_shared hs hmem (hroom.shared rfl).1 _ fun r hr => ?_).symm
        rw [hview, if_neg fun h => hr (congrArg RowKey.runId h)]
      · obtain rfl := heffective.resolve_right hover
        have hsum := sum_own ⟨other, effectiveRun⟩ runs series.counts hover (hroom.own hover)
        have hne : (⟨other, OVERFLOW_RUN⟩ : RowKey) ≠ ⟨other, effectiveRun⟩ :=
          fun h => hover (congrArg RowKey.runId h).symm
        rw [hview, if_neg hne, hs.shared other runs hbefore, ← hsum]
        refine Finset.sum_congr rfl fun r _ => ?_
        rw [hview, if_neg hover]
    · rw [noted_series_ne s.reported runId series.counts hseries] at hruns ⊢
      have hsame : ∀ r, (takeSeries environment instanceId runId effectiveRun windowStart s
          series).view ⟨other, r⟩ = s.view ⟨other, r⟩ := by
        intro r
        rw [hview, if_neg fun h => hseries (congrArg RowKey.series h)]
      simp only [hsame]
      exact hs.shared other runs hruns

theorem balanced_track (hs : Balanced s) (cap : Nat) (instanceId windowStart runId : String) :
    Balanced (s.track cap instanceId windowStart runId) := by
  refine ⟨fun text row hrow => ?_, fun series r counts hr hcounts => ?_, fun series runs hruns => ?_⟩
  · rw [State.track, runFor_buffer] at hrow
    exact hs.named text row hrow
  · rw [view_track] at hcounts
    exact hs.own series r counts hr hcounts
  · simp only [view_track]
    exact hs.shared series runs hruns

/-! ### Runs -/

def WindowRoom (cap : Nat) (environment instanceId runId : String) (s : State) (window : Window) :
    Prop :=
  let effectiveRun := (runFor cap s.aggregator instanceId window.windowStart runId).2
  EveryStep
    (fun t series =>
      some (takeSeries environment instanceId runId effectiveRun window.windowStart t series))
    (fun t series _ => RoomFor t
      ⟨seriesKey environment instanceId window.windowStart series, effectiveRun⟩ runId)
    (s.track cap instanceId window.windowStart runId) window.series

def ReportRoom (cap : Nat) (environment instanceId runId : String) (s : State)
    (windows : List Window) : Prop :=
  EveryStep (fun t window => some (takeWindow cap environment instanceId runId t window))
    (fun t window _ => WindowRoom cap environment instanceId runId t window) s windows

/-- A report has room for its series, and a flush whose write throws finds only values in the buffer
that are stored. -/
def KeepsReported (cap : Nat) (s : State) : Event → Prop
  | .report environment instanceId runId windows =>
    ReportRoom cap environment instanceId runId s windows
  | .failedFlush => ∀ text row, s.aggregator.buffer.lookup text = some row →
    s.rollup.lookup row.1 = some row.2
  | .flush => True
  | .wait _ => True

def Resent (s : State) : Event → Prop
  | .report environment instanceId runId windows => ∀ window ∈ windows, ∀ series ∈ window.series,
    s.reported (seriesKey environment instanceId window.windowStart series) runId =
      some series.counts
  | _ => False

/-- After the step, the rows of a series with what is buffered add up to what its runs have reported
last; a report that is sent again changes no row; a flush stores every row as it was to be; and one
whose write throws leaves every row to be stored. -/
structure Ingests (s : State) (e : Event) (s' : State) : Prop where
  sum : ∀ series (runs : Finset String),
    (∀ r, (s'.view ⟨series, r⟩).isSome ∨ (s'.reported series r).isSome → r ∈ runs) →
    ∑ r ∈ runs, (s'.view ⟨series, r⟩).getD 0 = ∑ r ∈ runs, (s'.reported series r).getD 0
  resent : Resent s e → ∀ key, s'.view key = s.view key
  flushed : e = .flush → ∀ key, s'.rollup.lookup key = s.view key ∧ s'.view key = s.view key
  kept : e = .failedFlush → ∀ key, s'.view key = s.view key

theorem sum_view (hs : Balanced s) (series : SeriesKey) (runs : Finset String)
    (hruns : ∀ r, (s.view ⟨series, r⟩).isSome ∨ (s.reported series r).isSome → r ∈ runs) :
    ∑ r ∈ runs, (s.view ⟨series, r⟩).getD 0 = ∑ r ∈ runs, (s.reported series r).getD 0 := by
  have hshared := hs.shared series runs fun r hr => hruns r (.inr hr)
  have hview : ∀ r ∈ runs, (s.view ⟨series, r⟩).getD 0 =
      (if OVERFLOW_RUN = r then (s.view ⟨series, OVERFLOW_RUN⟩).getD 0 else 0) +
        if r = OVERFLOW_RUN ∨ s.view ⟨series, r⟩ = none then 0
        else (s.reported series r).getD 0 := by
    intro r _
    by_cases hr : r = OVERFLOW_RUN
    · subst hr
      rw [if_pos rfl, if_pos (.inl rfl), add_zero]
    · rw [if_neg (Ne.symm hr), zero_add]
      cases hrow : s.view ⟨series, r⟩ with
      | none => rw [if_pos (.inr rfl), Option.getD_none]
      | some counts =>
        rw [if_neg (by simp [hr]), hs.own series r counts hr hrow]
  have hreported : ∀ r ∈ runs, (s.reported series r).getD 0 =
      (if r = OVERFLOW_RUN ∨ s.view ⟨series, r⟩ = none then (s.reported series r).getD 0 else 0) +
        if r = OVERFLOW_RUN ∨ s.view ⟨series, r⟩ = none then 0
        else (s.reported series r).getD 0 := by
    intro r _
    by_cases hfolded : r = OVERFLOW_RUN ∨ s.view ⟨series, r⟩ = none
    · rw [if_pos hfolded, if_pos hfolded, add_zero]
    · rw [if_neg hfolded, if_neg hfolded, zero_add]
  have hoverflow : (∑ r ∈ runs, if OVERFLOW_RUN = r then
      (s.view ⟨series, OVERFLOW_RUN⟩).getD 0 else 0) =
        (s.view ⟨series, OVERFLOW_RUN⟩).getD 0 := by
    rw [Finset.sum_ite_eq]
    by_cases hmem : OVERFLOW_RUN ∈ runs
    · exact if_pos hmem
    · rw [if_neg hmem]
      cases hrow : s.view ⟨series, OVERFLOW_RUN⟩ with
      | none => rfl
      | some counts => exact absurd (hruns OVERFLOW_RUN (.inl (by rw [hrow]; rfl))) hmem
  rw [Finset.sum_congr rfl hview, Finset.sum_add_distrib, hoverflow, hshared,
    Finset.sum_congr rfl hreported, Finset.sum_add_distrib]

variable {cap : Nat}

theorem balanced_takeWindow {window : Window} (hs : Balanced s)
    (hroom : WindowRoom cap environment instanceId runId s window) :
    Balanced (takeWindow cap environment instanceId runId s window) := by
  refine foldl_invariant_of_guarded (fun t series ht hseries => ?_) (balanced_track hs ..) hroom
  exact balanced_takeSeries ht hseries (runFor_run ..)

theorem balanced_report {windows : List Window} (hs : Balanced s)
    (hroom : ReportRoom cap environment instanceId runId s windows) :
    Balanced (windows.foldl (takeWindow cap environment instanceId runId) s) :=
  foldl_invariant_of_guarded (fun _ _ ht hwindow => balanced_takeWindow ht hwindow) hs hroom

structure SameRows (s t : State) : Prop where
  balanced : Balanced t
  view : ∀ key, t.view key = s.view key
  reported : t.reported = s.reported

theorem sameRows_takeSeries {effectiveRun windowStart : String} {t : State} (ht : SameRows s t)
    (hroom : RoomFor t ⟨seriesKey environment instanceId windowStart series, effectiveRun⟩ runId)
    (heffective : effectiveRun = runId ∨ effectiveRun = OVERFLOW_RUN)
    (hresent : s.reported (seriesKey environment instanceId windowStart series) runId =
      some series.counts) :
    SameRows s (takeSeries environment instanceId runId effectiveRun windowStart t series) := by
  have hsaid := hresent
  rw [← ht.reported] at hsaid
  have hown : effectiveRun ≠ OVERFLOW_RUN := by
    intro hover
    have hnone := (hroom.shared hover).1
    rw [hsaid] at hnone
    cases hnone
  have hrun := heffective.resolve_right hown
  subst hrun
  refine ⟨balanced_takeSeries ht.balanced hroom heffective, fun key => ?_, ?_⟩
  · rw [view_takeSeries hroom, ← ht.view key]
    by_cases hkey : key = ⟨seriesKey environment instanceId windowStart series, effectiveRun⟩
    · rw [if_pos hkey, if_neg hown, hkey]
      rcases hroom.own hown with hnone | hthere
      · rw [hsaid] at hnone
        cases hnone
      · obtain ⟨counts, hcounts⟩ := Option.isSome_iff_exists.mp hthere
        have hlast := ht.balanced.own _ _ counts hown hcounts
        rw [hcounts, ← hlast, hsaid]
    · rw [if_neg hkey]
  · rw [← ht.reported]
    change noted t.reported _ effectiveRun series.counts = t.reported
    rw [noted, ← hsaid, Function.update_eq_self, Function.update_eq_self]

theorem sameRows_report {windows : List Window} (hs : Balanced s)
    (hroom : ReportRoom cap environment instanceId runId s windows)
    (hresent : Resent s (.report environment instanceId runId windows)) :
    SameRows s (windows.foldl (takeWindow cap environment instanceId runId) s) := by
  have hwindows := hroom.and (everyStep_of_events (P := fun _ window _ =>
    ∀ series ∈ window.series, s.reported
      (seriesKey environment instanceId window.windowStart series) runId = some series.counts)
    fun window hwindow _ _ => hresent window hwindow)
  refine foldl_invariant_of_guarded (fun t window ht hguard => ?_) ⟨hs, fun _ => rfl, rfl⟩ hwindows
  obtain ⟨hwindow, hsaid⟩ := hguard
  have hseries := EveryStep.and hwindow (everyStep_of_events (P := fun _ series _ => s.reported
    (seriesKey environment instanceId window.windowStart series) runId = some series.counts)
    fun series hmem _ _ => hsaid series hmem)
  refine foldl_invariant_of_guarded (fun u series hu hguard => ?_) ?_ hseries
  · exact sameRows_takeSeries hu hguard.1 (runFor_run ..) hguard.2
  · refine ⟨balanced_track ht.balanced .., fun key => ?_, ht.reported⟩
    rw [view_track]
    exact ht.view key

theorem flushNow_buffer (a : Aggregator) (rollup : Dict RowKey Counts) (nowMs : Nat) (fails : Bool)
    (text : String) : (flushNow a rollup nowMs fails).1.buffer.lookup text = none := by
  unfold flushNow
  split
  next hempty =>
    have hnone : text ∉ a.buffer := by
      rw [AList.mem_keys, AList.keys, List.isEmpty_iff.mp hempty]
      exact List.not_mem_nil
    exact AList.lookup_eq_none.mpr hnone
  next =>
    dsimp only
    split
    · exact AList.lookup_empty text
    · exact AList.lookup_empty text

theorem flushNow_rollup (hs : Balanced s) (key : RowKey) :
    (flushNow s.aggregator s.rollup s.now false).2.lookup key = s.view key := by
  have hwritten := lookup_foldl_insert_eq_laidOver s.rollup hs.named key
  unfold flushNow
  split
  next hempty =>
    rw [List.isEmpty_iff.mp hempty] at hwritten
    exact hwritten
  next => exact hwritten

theorem flushNow_fails (a : Aggregator) (rollup : Dict RowKey Counts) (nowMs : Nat) :
    (flushNow a rollup nowMs true).2 = rollup := by
  unfold flushNow
  split <;> rfl

theorem balanced_of_view {t : State} (hs : Balanced s)
    (hbuffer : ∀ text, t.aggregator.buffer.lookup text = none)
    (hview : ∀ key, t.view key = s.view key) (hreported : t.reported = s.reported) : Balanced t := by
  refine ⟨fun text row hrow => ?_, fun series r counts hr hcounts => ?_, fun series runs hruns => ?_⟩
  · rw [hbuffer text] at hrow
    cases hrow
  · rw [hview] at hcounts
    rw [hreported]
    exact hs.own series r counts hr hcounts
  · rw [hreported] at hruns ⊢
    simp only [hview]
    exact hs.shared series runs hruns

theorem view_of_flushed (hbuffer : ∀ text, s.aggregator.buffer.lookup text = none) (key : RowKey) :
    s.view key = s.rollup.lookup key := by
  rw [State.view, laidOver, hbuffer]

theorem step_ingests {s' : State} {e : Event} (hs : Balanced s) (hkeeps : KeepsReported cap s e)
    (h : step cap s e = some s') : Balanced s' ∧ Ingests s e s' := by
  obtain rfl := Option.some.inj h
  cases e with
  | report environment instanceId runId windows =>
    have hbalanced := balanced_report hs hkeeps
    refine ⟨hbalanced, ⟨fun series runs hruns => sum_view hbalanced series runs hruns,
      fun hresent => (sameRows_report hs hkeeps hresent).view, nofun, nofun⟩⟩
  | flush =>
    have hrows : ∀ key, (next cap s .flush).rollup.lookup key = s.view key := flushNow_rollup hs
    have hbuffer : ∀ text, (next cap s .flush).aggregator.buffer.lookup text = none :=
      flushNow_buffer s.aggregator s.rollup s.now false
    have hview : ∀ key, (next cap s .flush).view key = s.view key := fun key =>
      (view_of_flushed hbuffer key).trans (hrows key)
    have hbalanced := balanced_of_view hs hbuffer hview rfl
    exact ⟨hbalanced, ⟨sum_view hbalanced, nofun, fun _ key => ⟨hrows key, hview key⟩, nofun⟩⟩
  | failedFlush =>
    have hbuffer : ∀ text, (next cap s .failedFlush).aggregator.buffer.lookup text = none :=
      flushNow_buffer s.aggregator s.rollup s.now true
    have hview : ∀ key, (next cap s .failedFlush).view key = s.view key := by
      intro key
      rw [view_of_flushed hbuffer]
      change (flushNow s.aggregator s.rollup s.now true).2.lookup key = s.view key
      rw [flushNow_fails, State.view, laidOver]
      cases hrow : s.aggregator.buffer.lookup key.text with
      | none => rfl
      | some row =>
        by_cases hkey : row.1 = key
        · have hstored := hkeeps key.text row hrow
          rw [hkey] at hstored
          exact hstored.trans (if_pos hkey).symm
        · exact (if_neg hkey).symm
    have hbalanced := balanced_of_view hs hbuffer hview rfl
    exact ⟨hbalanced, ⟨sum_view hbalanced, nofun, nofun, fun _ => hview⟩⟩
  | wait milliseconds =>
    have hbalanced : Balanced (next cap s (.wait milliseconds)) := ⟨hs.named, hs.own, hs.shared⟩
    exact ⟨hbalanced, ⟨sum_view hbalanced, nofun, nofun, nofun⟩⟩

theorem initial_balanced : Balanced State.initial := by
  refine ⟨fun text row hrow => ?_, fun series r counts _ hcounts => ?_, fun series runs _ => ?_⟩
  · cases hrow
  · cases hcounts
  · refine (Finset.sum_eq_zero fun r _ => ?_).symm
    exact ite_self 0

theorem ingests_of_keepsReported {cap : Nat} {events : List Event}
    (h : EveryStep (step cap) (fun s e _ => KeepsReported cap s e) State.initial events) :
    EveryStep (step cap) Ingests State.initial events :=
  everyStep_of_guarded (P := fun s e _ => KeepsReported cap s e) (I := Balanced)
    (fun _ _ _ hs hkeeps hstep => step_ingests hs hkeeps hstep) initial_balanced h

/-! ### A crash loop and a failing write -/

def roomFor (s : State) (key : RowKey) (runId : String) : Bool :=
  let buffered := s.aggregator.buffer.lookup key.text
  (buffered.all fun row => decide (row.1 = key)) &&
    if key.runId = OVERFLOW_RUN then
      (s.reported key.series runId).isNone && ((s.rollup.lookup key).isNone || buffered.isSome)
    else (s.reported key.series runId).isNone || (s.view key).isSome

theorem roomFor_of_test (s : State) (key : RowKey) (runId : String) (h : roomFor s key runId = true) :
    RoomFor s key runId := by
  simp only [roomFor, Bool.and_eq_true] at h
  obtain ⟨halone, hplace⟩ := h
  refine ⟨fun row hrow => ?_, fun hover => ?_, fun hown => ?_⟩
  · rw [hrow] at halone
    exact of_decide_eq_true halone
  · rw [if_pos hover] at hplace
    simpa using hplace
  · rw [if_neg hown] at hplace
    simpa using hplace

def windowRoom (cap : Nat) (environment instanceId runId : String) (s : State) (window : Window) :
    Bool :=
  let effectiveRun := (runFor cap s.aggregator instanceId window.windowStart runId).2
  passes
    (fun t series =>
      some (takeSeries environment instanceId runId effectiveRun window.windowStart t series))
    (fun t series => roomFor t
      ⟨seriesKey environment instanceId window.windowStart series, effectiveRun⟩ runId)
    (s.track cap instanceId window.windowStart runId) window.series

theorem windowRoom_of_test {window : Window}
    (h : windowRoom cap environment instanceId runId s window = true) :
    WindowRoom cap environment instanceId runId s window := by
  unfold windowRoom at h
  unfold WindowRoom
  generalize (runFor cap s.aggregator instanceId window.windowStart runId).2 = effectiveRun at h ⊢
  exact everyStep_of_passes (fun t series => roomFor t
    ⟨seriesKey environment instanceId window.windowStart series, effectiveRun⟩ runId)
    (fun t series _ htest => roomFor_of_test t _ runId htest) h

def keepsReported (cap : Nat) (s : State) : Event → Bool
  | .report environment instanceId runId windows =>
    passes (fun t window => some (takeWindow cap environment instanceId runId t window))
      (fun t window => windowRoom cap environment instanceId runId t window) s windows
  | .failedFlush => s.aggregator.buffer.entries.all fun entry =>
    decide (s.rollup.lookup entry.2.1 = some entry.2.2)
  | .flush => true
  | .wait _ => true

theorem keepsReported_of_test (cap : Nat) (s : State) (e : Event)
    (h : keepsReported cap s e = true) : KeepsReported cap s e := by
  cases e with
  | report environment instanceId runId windows =>
    exact everyStep_of_passes (fun t window => windowRoom cap environment instanceId runId t window)
      (fun t window _ htest => windowRoom_of_test htest) h
  | failedFlush =>
    intro text row hrow
    have hentry := (lookup_eq_some_iff _ _ _).mp hrow
    exact of_decide_eq_true (List.all_eq_true.mp h _ hentry)
  | flush => trivial
  | wait milliseconds => trivial

def requests (count : Nat) : List Window :=
  [⟨windowStartOf 0, [⟨"", "", "no-route", 404, count, 0, 0, 0, 0, [], [], 0, 0⟩]⟩]

def firstMinute : SeriesKey := ⟨"dev", "gwi_1", windowStartOf 0, "", "", "no-route", 404⟩

def reportsAgain : List Event :=
  [.report "dev" "gwi_1" "a" (requests 5), .report "dev" "gwi_1" "b" (requests 3), .flush,
    .report "dev" "gwi_1" "a" (requests 5), .report "dev" "gwi_1" "a" (requests 9), .flush,
    .report "dev" "gwi_1" "a" (requests 9), .failedFlush]

theorem reportsAgain_ingests : EveryStep (step 1) Ingests State.initial reportsAgain := by
  have hpasses : passes (step 1) (keepsReported 1) State.initial reportsAgain = true := by
    decide +kernel
  have hkeeps : EveryStep (step 1) (fun s e _ => KeepsReported 1 s e) State.initial reportsAgain :=
    everyStep_of_passes (keepsReported 1) (fun s e _ htest => keepsReported_of_test 1 s e htest)
      hpasses
  exact ingests_of_keepsReported hkeeps

theorem counted_twice_and_lost :
    ¬ EveryStep (step 1) Ingests State.initial
        ([.report "dev" "gwi_1" "a" (requests 5), .report "dev" "gwi_1" "b" (requests 3)] ++
          [.report "dev" "gwi_1" "b" (requests 3)]) ∧
      ¬ EveryStep (step 1) Ingests State.initial
        ([.report "dev" "gwi_1" "a" (requests 5)] ++ [.failedFlush]) := by
  constructor
  · refine not_everyStep_of_observed (fun s₁ s₂ =>
      decide (∀ window ∈ requests 3, ∀ series ∈ window.series,
        s₁.reported (seriesKey "dev" "gwi_1" window.windowStart series) "b" =
          some series.counts) &&
        decide (s₂.view ⟨firstMinute, OVERFLOW_RUN⟩ ≠ s₁.view ⟨firstMinute, OVERFLOW_RUN⟩))
      (fun s₁ s₂ hbad hingests => ?_) (by decide +kernel)
    simp only [Bool.and_eq_true, decide_eq_true_eq] at hbad
    exact hbad.2 (hingests.resent hbad.1 _)
  · refine not_everyStep_of_observed
      (fun s₁ s₂ => decide (s₂.view ⟨firstMinute, "a"⟩ ≠ s₁.view ⟨firstMinute, "a"⟩))
      (fun s₁ s₂ hbad hingests => ?_) (by decide +kernel)
    exact of_decide_eq_true hbad (hingests.kept rfl _)

end Apim.Telemetry
