import Apim.ControlPlane.RunRows

/-!
# Counts over the poll

One run of an instance and the control plane with one clock: requests complete, reports travel on
polls that may fail, arrive late or overtake each other, and answers come back later. A window is
closed by the clock at the arrival of a report, and is cleared by its name; so a request that is
counted after the snapshot in the snapshot's own minute is in nobody's hands once that minute has been
cleared.

In every run in which the windows fit and the reports arrive in order, no request is lost, and the
control plane has them all once it is quiet, exactly when no such minute is cleared
(`counts_survive_iff`). The run of `reopened` loses one.
-/

namespace Apim.Telemetry.Polling
open Overlay Trace

inductive Poll where
  | idle
  | sent
  | answered (accepted : List String) (arrivedAt : Nat)
  deriving DecidableEq

/-- The instance, the control plane and the reports under way, each with the number of its poll; and
beside them the last snapshot, the number of the last report that arrived and the cells of all
requests. -/
structure State where
  telemetry : InstanceTelemetry
  poll : Poll
  aggregator : Aggregator
  rollup : Dict RowKey Counts
  wire : List (Nat × List Window)
  now : Nat
  polls : Nat
  taken : List String
  takenAt : Nat
  arrived : Nat
  recorded : List Cell
  since : List Cell
  settled : Bool

def State.initial (maxSeries maxWindowsPerReport : Nat) : State :=
  { telemetry := .fresh maxSeries maxWindowsPerReport
    poll := .idle
    aggregator := ⟨∅, ∅, 0⟩
    rollup := ∅
    wire := []
    now := 0
    polls := 0
    taken := []
    takenAt := 0
    arrived := 0
    recorded := []
    since := []
    settled := false }

inductive Event where
  | record (input : RecordInput)
  | snapshot
  | arrive (poll : Nat)
  | answered
  | failed
  | tooLarge
  | resize (maxSeries maxWindowsPerReport : Nat)
  | flush
  | wait (milliseconds : Nat)

section
variable (cap : Nat) (r : Reporter)

/-- A poll (`data-plane/src/config-client.ts:203-289`) meets the ingest. The log of a request is the
cell it is counted in; the instance has settled once a poll is answered and nothing was counted since
its snapshot. -/
def step (s : State) : Event → Option State
  | .record input =>
    let cell := s.telemetry.cellFor (windowStartOf s.now) input
    some { s with
      telemetry := s.telemetry.record input s.now
      recorded := cell :: s.recorded
      since := cell :: s.since
      settled := false }
  | .snapshot =>
    if s.poll = .idle then
      some { s with
        telemetry := s.telemetry.snapshot.1
        poll := .sent
        wire := (s.polls + 1, s.telemetry.snapshot.2.windows) :: s.wire
        polls := s.polls + 1
        taken := s.telemetry.snapshot.2.windows.map (·.windowStart)
        takenAt := s.now
        since := [] }
    else none
  | .arrive poll =>
    (s.wire.lookup poll).map fun windows =>
      let answer := accept cap s.aggregator r.environment r.instanceId r.runId windows s.now
      { s with
        aggregator := answer.1
        wire := s.wire.filter fun report => decide (report.1 ≠ poll)
        arrived := max s.arrived poll
        poll := if poll = s.polls ∧ s.poll = .sent then .answered answer.2 s.now else s.poll }
  | .answered => match s.poll with
    | .answered accepted _ =>
      some { s with
        telemetry := s.telemetry.clearAccepted accepted
        poll := .idle
        settled := s.since.isEmpty }
    | .idle => none
    | .sent => none
  | .failed => if s.poll = .idle then none else some { s with poll := .idle }
  | .tooLarge =>
    if s.poll = .sent then
      some { s with
        telemetry := s.telemetry.halveBatch
        poll := .idle
        wire := s.wire.filter fun report => decide (report.1 ≠ s.polls) }
    else none
  | .resize maxSeries maxWindowsPerReport =>
    some { s with telemetry := s.telemetry.resize maxSeries maxWindowsPerReport }
  | .flush =>
    let flushed := flushNow s.aggregator s.rollup s.now false
    some { s with aggregator := flushed.1, rollup := flushed.2 }
  | .wait milliseconds => some { s with now := s.now + milliseconds }

def State.viewed (s : State) (c : Cell) : Nat :=
  ((view s.aggregator s.rollup (rowKey r c)).map (·.count)).getD 0

def State.total (s : State) : Nat :=
  totalOf r (flushNow s.aggregator s.rollup s.now false).2

/-! ### The property, and what decides it -/

def WindowsFit (s : State) : Event → State → Prop
  | .snapshot, _ => s.telemetry.windows.keys.length ≤ s.telemetry.batchSize
  | _, _ => True

def InOrder (s : State) : Event → State → Prop
  | .arrive poll, _ => s.arrived < poll
  | _, _ => True

/-- What the instance no longer holds the control plane counts in full, and once the instance has
settled the control plane counts every request. -/
structure Survives (_ : State) (_ : Event) (s' : State) : Prop where
  kept : ∀ c ∈ s'.recorded, c.1 ∉ s'.telemetry.windows → s'.viewed r c = s'.recorded.count c
  settled : s'.settled = true → s'.total r = s'.telemetry.requestsTotal

/-- Where the report said the snapshot's own minute, and arrived after it, nothing has been counted in
that minute since the snapshot. -/
def NotReopened (s : State) : Event → State → Prop
  | .answered, _ => ∀ accepted arrivedAt, s.poll = .answered accepted arrivedAt →
    windowStartOf s.takenAt ∈ s.taken → windowStartOf s.takenAt < windowStartOf arrivedAt →
      ∀ c ∈ s.since, c.1 ≠ windowStartOf s.takenAt
  | _, _ => True

/-! ### The invariant -/

structure Holds (s : State) : Prop where
  requests : s.telemetry.requestsTotal = s.recorded.length
  held : ∀ c : Cell, c.1 ∈ s.telemetry.windows → s.telemetry.countOf c = s.recorded.count c
  named : ∀ start ∈ s.telemetry.windows, ∃ t, t ≤ s.now ∧ start = windowStartOf t
  past : ∀ c ∈ s.recorded, c.1 ∉ s.telemetry.windows → ∀ t, s.now ≤ t → windowStartOf t ≠ c.1

structure Snapped (s : State) : Prop where
  past : s.takenAt ≤ s.now
  since : ∀ c ∈ s.since, ∃ t, s.takenAt ≤ t ∧ t ≤ s.now ∧ c.1 = windowStartOf t
  taken : ∀ start ∈ s.taken, ∃ t, t ≤ s.takenAt ∧ start = windowStartOf t
  rest : ∀ start ∈ s.telemetry.windows, start ∈ s.taken ∨ ∃ c ∈ s.since, c.1 = start

structure Counted (s : State) : Prop where
  tidy : Tidy r s.aggregator s.rollup
  kept : ∀ c ∈ s.recorded, c.1 ∉ s.telemetry.windows → s.viewed r c = s.recorded.count c
  below : ∀ c, s.viewed r c + s.since.count c ≤ s.recorded.count c
  settled : s.settled = true → s.since = [] ∧ ∀ c, s.viewed r c = s.recorded.count c

def saidCount (windows : List Window) (c : Cell) : Nat :=
  ((said r windows (rowKey r c)).map (·.count)).getD 0

structure Fresh (s : State) (windows : List Window) : Prop where
  below : ∀ c, saidCount r windows c + s.since.count c ≤ s.recorded.count c
  held : ∀ c, (said r windows (rowKey r c)).isSome → c.1 ∈ s.telemetry.windows
  settled : s.settled = true → ∀ c, (said r windows (rowKey r c)).isSome →
    saidCount r windows c = s.recorded.count c

structure Wired (s : State) : Prop where
  numbers : ∀ report ∈ s.wire, report.1 ≤ s.polls
  arrived : s.arrived ≤ s.polls
  cells : ∀ report ∈ s.wire, OfCells r report.2
  fresh : ∀ report ∈ s.wire, s.arrived < report.1 → Fresh r s report.2
  sent : s.poll = .sent → s.arrived < s.polls ∧ ∀ windows, (s.polls, windows) ∈ s.wire →
    windows.map (·.windowStart) = s.taken ∧
      ∀ c : Cell, c.1 ∈ s.taken → saidCount r windows c + s.since.count c = s.recorded.count c
  answered : ∀ accepted arrivedAt, s.poll = .answered accepted arrivedAt → s.arrived = s.polls ∧
    s.takenAt ≤ arrivedAt ∧ arrivedAt ≤ s.now ∧
      accepted = s.taken.filter (fun start => decide (start < windowStartOf arrivedAt)) ∧
        ∀ c : Cell, c.1 ∈ s.taken → s.viewed r c + s.since.count c = s.recorded.count c

structure Sound (s : State) : Prop where
  holds : Holds s
  snapped : Snapped s
  counted : Counted r s
  wired : Wired r s

end

variable {next : State}

section
variable {r : Reporter} {s : State}

theorem initial_sound (r : Reporter) (maxSeries maxWindowsPerReport : Nat) :
    Sound r (State.initial maxSeries maxWindowsPerReport) := by
  refine ⟨⟨rfl, fun c hc => ?_, fun start hstart => ?_, nofun⟩,
    ⟨Nat.le_refl _, nofun, nofun, fun start hstart => ?_⟩,
    ⟨initial_tidy r, nofun, fun c => Nat.le_refl _, nofun⟩,
    ⟨nofun, Nat.le_refl _, nofun, nofun, nofun, nofun⟩⟩
  · exact absurd hc (AList.notMem_empty _)
  · exact absurd hstart (AList.notMem_empty _)
  · exact absurd hstart (AList.notMem_empty _)

/-! ### A request -/

theorem count_cons_eq (c₀ : Cell) (cells : List Cell) (c : Cell) :
    (c₀ :: cells).count c = cells.count c + if c = c₀ then 1 else 0 := by
  rw [List.count_cons]
  by_cases h : c = c₀
  · rw [if_pos h, h]
    simp
  · rw [if_neg h, if_neg (by simpa using fun heq => h heq.symm)]

theorem holds_record (h : Holds s) (input : RecordInput)
    (htelemetry : next.telemetry = s.telemetry.record input s.now) (hnow : next.now = s.now)
    (hrecorded : next.recorded = s.telemetry.cellFor (windowStartOf s.now) input :: s.recorded) :
    Holds next := by
  refine ⟨?_, fun c hc => ?_, fun start hstart => ?_, fun c hc hnot t ht => ?_⟩
  · rw [htelemetry, hrecorded, List.length_cons, ← h.requests]
    rfl
  · rw [htelemetry, InstanceTelemetry.mem_windows_record] at hc
    have hbefore : s.telemetry.countOf c = s.recorded.count c := by
      by_cases hheld : c.1 ∈ s.telemetry.windows
      · exact h.held c hheld
      · -- the minute was not held, so nothing has been counted in it
        have hminute : c.1 = windowStartOf s.now := hc.resolve_right hheld
        have hnone : c ∉ s.recorded := fun hin =>
          h.past c hin hheld s.now (Nat.le_refl _) hminute.symm
        rw [InstanceTelemetry.countOf, InstanceTelemetry.cell_of_notMem hheld,
          List.count_eq_zero.mpr hnone]
        rfl
    rw [htelemetry, hrecorded, InstanceTelemetry.countOf_record, count_cons_eq, hbefore]
  · rw [htelemetry, InstanceTelemetry.mem_windows_record] at hstart
    rw [hnow]
    rcases hstart with hminute | hheld
    · exact ⟨s.now, Nat.le_refl _, hminute⟩
    · exact h.named start hheld
  · rw [htelemetry, InstanceTelemetry.mem_windows_record] at hnot
    rw [hnow] at ht
    rw [hrecorded] at hc
    rcases List.mem_cons.mp hc with rfl | hbefore
    · exact absurd (.inl rfl) hnot
    · exact h.past c hbefore (fun hheld => hnot (.inr hheld)) t ht

theorem sound_record (h : Sound r s) (input : RecordInput) {cap : Nat}
    (hstep : step cap r s (.record input) = some next) : Sound r next := by
  obtain rfl := Option.some.inj hstep
  generalize hcell : s.telemetry.cellFor (windowStartOf s.now) input = c₀
  have hminute : c₀.1 = windowStartOf s.now := by rw [← hcell]; rfl
  have hmem : ∀ start, start ∈ (s.telemetry.record input s.now).windows ↔
      start = windowStartOf s.now ∨ start ∈ s.telemetry.windows :=
    s.telemetry.mem_windows_record input s.now
  refine ⟨holds_record h.holds input rfl rfl (by rw [hcell]),
    ⟨h.snapped.past, fun c hc => ?_, h.snapped.taken, fun start hstart => ?_⟩,
    ⟨h.counted.tidy, fun c hc hnot => ?_, fun c => ?_, nofun⟩,
    ⟨h.wired.numbers, h.wired.arrived, h.wired.cells, fun report hreport harrived => ?_,
      fun hsent => ?_, fun accepted arrivedAt hanswered => ?_⟩⟩
  · rcases List.mem_cons.mp hc with rfl | hbefore
    · exact ⟨s.now, h.snapped.past, Nat.le_refl _, hminute⟩
    · exact h.snapped.since c hbefore
  · rcases (hmem start).mp hstart with rfl | hheld
    · exact .inr ⟨c₀, List.mem_cons_self, hminute⟩
    · exact (h.snapped.rest start hheld).imp_right fun ⟨c, hc, hstart⟩ =>
        ⟨c, List.mem_cons_of_mem _ hc, hstart⟩
  · have hne : c ≠ c₀ := fun heq => hnot ((hmem c.1).mpr (.inl (heq ▸ hminute)))
    have hbefore : c ∈ s.recorded := (List.mem_cons.mp hc).resolve_left hne
    have hkept := h.counted.kept c hbefore fun hheld => hnot ((hmem c.1).mpr (.inr hheld))
    rw [count_cons_eq, if_neg hne]
    exact hkept
  · have hbelow := h.counted.below c
    rw [count_cons_eq, count_cons_eq, ← Nat.add_assoc]
    exact Nat.add_le_add_right hbelow _
  · have hfresh := h.wired.fresh report hreport harrived
    refine ⟨fun c => ?_, fun c hc => (hmem c.1).mpr (.inr (hfresh.held c hc)), nofun⟩
    rw [count_cons_eq, count_cons_eq, ← Nat.add_assoc]
    exact Nat.add_le_add_right (hfresh.below c) _
  · obtain ⟨hpolls, hsaid⟩ := h.wired.sent hsent
    refine ⟨hpolls, fun windows hwindows => ⟨(hsaid windows hwindows).1, fun c hc => ?_⟩⟩
    rw [count_cons_eq, count_cons_eq, ← (hsaid windows hwindows).2 c hc, Nat.add_assoc]
  · obtain ⟨hpolls, hpast, hnow, haccepted, hviewed⟩ := h.wired.answered accepted arrivedAt hanswered
    refine ⟨hpolls, hpast, hnow, haccepted, fun c hc => ?_⟩
    have hbefore := hviewed c hc
    rw [count_cons_eq, count_cons_eq, ← hbefore, Nat.add_assoc]
    rfl

/-! ### A snapshot -/

theorem saidCount_held (r : Reporter) (t : InstanceTelemetry) (c : Cell) :
    saidCount r (t.ordered.map t.windowOf) c = t.countOf c := by
  rw [saidCount, said_held, InstanceTelemetry.countOf]

theorem mem_windows_of_said {r : Reporter} {t : InstanceTelemetry} {c : Cell}
    (h : (said r (t.ordered.map t.windowOf) (rowKey r c)).isSome) : c.1 ∈ t.windows := by
  rw [said_held] at h
  by_contra hnot
  rw [InstanceTelemetry.cell_of_notMem hnot] at h
  cases h

theorem sound_snapshot (h : Sound r s) {cap : Nat}
    (hfits : s.telemetry.windows.keys.length ≤ s.telemetry.batchSize)
    (hstep : step cap r s .snapshot = some next) : Sound r next := by
  simp only [step, Option.ite_none_right_eq_some, Option.some.injEq] at hstep
  obtain ⟨hidle, rfl⟩ := hstep
  rw [InstanceTelemetry.snapshot_of_fits hfits]
  dsimp only
  have htaken : ∀ start, start ∈ ((s.telemetry.ordered.map s.telemetry.windowOf).map
      (·.windowStart)) ↔ start ∈ s.telemetry.windows := by
    intro start
    have hnames : (s.telemetry.ordered.map s.telemetry.windowOf).map (·.windowStart) =
        s.telemetry.ordered := by
      rw [List.map_map]
      exact List.map_id _
    rw [hnames]
    exact s.telemetry.mem_ordered start
  have hbelow : ∀ c : Cell, s.telemetry.countOf c ≤ s.recorded.count c := by
    intro c
    by_cases hheld : c.1 ∈ s.telemetry.windows
    · exact Nat.le_of_eq (h.holds.held c hheld)
    · rw [InstanceTelemetry.countOf, InstanceTelemetry.cell_of_notMem hheld]
      exact Nat.zero_le _
  refine ⟨⟨h.holds.requests, h.holds.held, h.holds.named, h.holds.past⟩,
    ⟨Nat.le_refl _, by simp, fun start hstart => ?_, fun start hstart => .inl ((htaken start).mpr hstart)⟩,
    ⟨h.counted.tidy, h.counted.kept, fun c => ?_, fun hsettled => ⟨rfl, (h.counted.settled hsettled).2⟩⟩,
    ⟨fun report hreport => ?_, Nat.le_succ_of_le h.wired.arrived, fun report hreport => ?_,
      fun report hreport harrived => ?_, fun _ => ⟨Nat.lt_succ_of_le h.wired.arrived, ?_⟩, by simp⟩⟩
  · exact h.holds.named start ((htaken start).mp hstart)
  · exact Nat.le_trans (Nat.le_add_right _ _) (h.counted.below c)
  · rcases List.mem_cons.mp hreport with rfl | hbefore
    · exact Nat.le_refl _
    · exact Nat.le_succ_of_le (h.wired.numbers report hbefore)
  · rcases List.mem_cons.mp hreport with rfl | hbefore
    · exact ofCells_held r s.telemetry
    · exact h.wired.cells report hbefore
  · rcases List.mem_cons.mp hreport with rfl | hbefore
    · refine ⟨fun c => ?_, fun c hc => mem_windows_of_said hc, fun _ c hc => ?_⟩
      · rw [saidCount_held]
        exact hbelow c
      · rw [saidCount_held]
        exact h.holds.held c (mem_windows_of_said hc)
    · have hfresh := h.wired.fresh report hbefore harrived
      exact ⟨fun c => Nat.le_trans (Nat.le_add_right _ _) (hfresh.below c), hfresh.held,
        hfresh.settled⟩
  · intro windows hwindows
    rcases List.mem_cons.mp hwindows with hnew | hbefore
    · obtain rfl := (Prod.mk.inj hnew).2
      refine ⟨rfl, fun c hc => ?_⟩
      rw [saidCount_held]
      exact h.holds.held c ((htaken c.1).mp hc)
    · exact absurd (h.wired.numbers _ hbefore) (Nat.not_succ_le_self _)

/-! ### A report arrives -/

theorem mem_of_lookup {wire : List (Nat × List Window)} {poll : Nat} {windows : List Window}
    (h : wire.lookup poll = some windows) : (poll, windows) ∈ wire := by
  obtain ⟨front, back, rfl, -⟩ := List.lookup_eq_some_iff.mp h
  exact List.mem_append_right _ List.mem_cons_self

theorem sound_arrive (h : Sound r s) {cap : Nat} (hcap : 0 < cap) {poll : Nat}
    (horder : s.arrived < poll) (hstep : step cap r s (.arrive poll) = some next) : Sound r next := by
  obtain ⟨windows, hlookup, rfl⟩ := Option.map_eq_some_iff.mp hstep
  have hwire := mem_of_lookup hlookup
  have hpoll := h.wired.numbers _ hwire
  have hfresh := h.wired.fresh _ hwire horder
  have hmax : max s.arrived poll = poll := Nat.max_eq_right (Nat.le_of_lt horder)
  obtain ⟨htidy, hview⟩ := view_accept hcap h.counted.tidy (h.wired.cells _ hwire) s.now
  -- a cell of the report is as it says, and any other as it was
  have hviewed : ∀ c, ((view (accept cap s.aggregator r.environment r.instanceId r.runId windows
      s.now).1 s.rollup (rowKey r c)).map (·.count)).getD 0 =
        if (said r windows (rowKey r c)).isSome then saidCount r windows c else s.viewed r c := by
    intro c
    rw [hview, saidCount, State.viewed]
    cases said r windows (rowKey r c) <;> rfl
  have hunsaid : ∀ c, ¬ (said r windows (rowKey r c)).isSome → saidCount r windows c = 0 := by
    intro c hnone
    rw [saidCount, Option.not_isSome_iff_eq_none.mp hnone]
    rfl
  have hleft : ∀ report ∈ s.wire.filter (fun report => decide (report.1 ≠ poll)), report ∈ s.wire :=
    fun report hreport => (List.mem_filter.mp hreport).1
  refine ⟨⟨h.holds.requests, h.holds.held, h.holds.named, h.holds.past⟩,
    ⟨h.snapped.past, h.snapped.since, h.snapped.taken, h.snapped.rest⟩,
    ⟨htidy, fun c hc hnot => ?_, fun c => ?_, fun hsettled => ?_⟩,
    ⟨fun report hreport => h.wired.numbers report (hleft report hreport), ?_,
      fun report hreport => h.wired.cells report (hleft report hreport),
      fun report hreport harrived => ?_, fun hsent => ?_, fun accepted arrivedAt hanswered => ?_⟩⟩
  · have hkept := h.counted.kept c hc hnot
    rw [State.viewed, hviewed, if_neg fun hsaid => hnot (hfresh.held c hsaid)]
    exact hkept
  · rw [State.viewed, hviewed]
    split
    · exact hfresh.below c
    · exact h.counted.below c
  · obtain ⟨hsince, hcounted⟩ := h.counted.settled hsettled
    refine ⟨hsince, fun c => ?_⟩
    rw [State.viewed, hviewed]
    split
    · rename_i hsaid
      exact hfresh.settled hsettled c hsaid
    · exact hcounted c
  · rw [hmax]
    exact hpoll
  · rw [hmax] at harrived
    have hbefore := h.wired.fresh report (hleft report hreport) (Nat.lt_trans horder harrived)
    exact ⟨hbefore.below, hbefore.held, hbefore.settled⟩
  · by_cases hawaited : poll = s.polls ∧ s.poll = .sent
    · exact absurd ((if_pos hawaited).symm.trans hsent) nofun
    · have hstill : s.poll = .sent := (if_neg hawaited).symm.trans hsent
      obtain ⟨-, hsaid⟩ := h.wired.sent hstill
      refine ⟨?_, fun windows hwindows => hsaid windows (hleft _ hwindows)⟩
      rw [hmax]
      exact Nat.lt_of_le_of_ne hpoll fun heq => hawaited ⟨heq, hstill⟩
  · by_cases hawaited : poll = s.polls ∧ s.poll = .sent
    · obtain ⟨haccepted, harrivedAt⟩ := Poll.answered.inj ((if_pos hawaited).symm.trans hanswered)
      obtain ⟨heq, hsent⟩ := hawaited
      subst heq harrivedAt
      obtain ⟨-, hsaid⟩ := h.wired.sent hsent
      obtain ⟨hnames, hcounts⟩ := hsaid windows hwire
      refine ⟨hmax, h.snapped.past, Nat.le_refl _, ?_, fun c hc => ?_⟩
      · rw [← haccepted, ← hnames]
        rfl
      · rw [State.viewed, hviewed]
        split
        · exact hcounts c hc
        · -- nothing has been counted in the cell before the snapshot
          rename_i hnone
          have hzero := hunsaid c hnone
          have hsaid' := hcounts c hc
          have hbelow := h.counted.below c
          dsimp only
          omega
    · have hstill := (if_neg hawaited).symm.trans hanswered
      have hpolls := (h.wired.answered accepted arrivedAt hstill).1
      omega

/-! ### An answer -/

theorem minute_of_since (h : Snapped s) {c : Cell} (hsince : c ∈ s.since) (htaken : c.1 ∈ s.taken) :
    c.1 = windowStartOf s.takenAt := by
  obtain ⟨t, hafter, -, ht⟩ := h.since c hsince
  obtain ⟨t', hbefore, ht'⟩ := h.taken c.1 htaken
  have hminute := windowStartOf_inj (ht.symm.trans ht')
  rw [ht]
  exact windowStartOf_congr (by omega)

theorem sound_answered (h : Sound r s) {cap : Nat} (hnot : NotReopened s .answered next)
    (hstep : step cap r s .answered = some next) : Sound r next := by
  unfold step at hstep
  cases hpoll : s.poll with
  | idle => rw [hpoll] at hstep; cases hstep
  | sent => rw [hpoll] at hstep; cases hstep
  | answered accepted arrivedAt =>
    rw [hpoll] at hstep
    obtain rfl := Option.some.inj hstep
    obtain ⟨hpolls, hpast, hnow, haccepted, hviewed⟩ := h.wired.answered accepted arrivedAt hpoll
    have hmem : ∀ start, start ∈ (s.telemetry.clearAccepted accepted).windows ↔
        start ∈ s.telemetry.windows ∧ start ∉ accepted :=
      s.telemetry.mem_windows_clearAccepted accepted
    have htaken : ∀ start ∈ accepted, start ∈ s.taken ∧ start < windowStartOf arrivedAt := by
      intro start hstart
      rw [haccepted] at hstart
      exact ⟨(List.mem_filter.mp hstart).1, of_decide_eq_true (List.mem_filter.mp hstart).2⟩
    have hwhole : ∀ c : Cell, c.1 ∈ accepted → s.viewed r c = s.recorded.count c := by
      intro c hc
      obtain ⟨hin, hclosed⟩ := htaken c.1 hc
      have hsince : c ∉ s.since := by
        intro hsince
        have hminute := minute_of_since h.snapped hsince hin
        rw [hminute] at hin hclosed
        exact hnot accepted arrivedAt hpoll hin hclosed c hsince hminute
      have hcounts := hviewed c hin
      rwa [List.count_eq_zero.mpr hsince] at hcounts
    have hkept : ∀ c ∈ s.recorded, c.1 ∉ (s.telemetry.clearAccepted accepted).windows →
        s.viewed r c = s.recorded.count c := by
      intro c hc hgone
      by_cases hheld : c.1 ∈ s.telemetry.windows
      · exact hwhole c (by_contra fun hnot => hgone ((hmem c.1).mpr ⟨hheld, hnot⟩))
      · exact h.counted.kept c hc hheld
    refine ⟨⟨h.holds.requests, fun c hc => ?_, fun start hstart => ?_, fun c hc hgone t ht => ?_⟩,
      ⟨h.snapped.past, h.snapped.since, h.snapped.taken, fun start hstart =>
        h.snapped.rest start ((hmem start).mp hstart).1⟩,
      ⟨h.counted.tidy, hkept, h.counted.below, fun hsettled => ?_⟩,
      ⟨h.wired.numbers, h.wired.arrived, h.wired.cells, fun report hreport harrived => ?_, nofun,
        nofun⟩⟩
    · obtain ⟨hheld, hleft⟩ := (hmem c.1).mp hc
      have hbefore := h.holds.held c hheld
      rw [InstanceTelemetry.countOf, InstanceTelemetry.cell_clearAccepted _ hleft]
      exact hbefore
    · exact h.holds.named start ((hmem start).mp hstart).1
    · by_cases hheld : c.1 ∈ s.telemetry.windows
      · have hin : c.1 ∈ accepted := by_contra fun hnot => hgone ((hmem c.1).mpr ⟨hheld, hnot⟩)
        obtain ⟨htaken, hclosed⟩ := htaken c.1 hin
        obtain ⟨t', hbefore, ht'⟩ := h.snapped.taken c.1 htaken
        -- the window is of a minute before the one in which the report arrived
        have hearlier : t' / 60000 ≠ arrivedAt / 60000 := by
          intro heq
          rw [ht', windowStartOf_congr heq] at hclosed
          exact String.lt_irrefl _ hclosed
        intro heq
        have hminute := windowStartOf_inj (heq.trans ht')
        change s.now ≤ t at ht
        omega
      · exact h.holds.past c hc hheld t ht
    · have hsince : s.since = [] := List.isEmpty_iff.mp hsettled
      refine ⟨hsince, fun c => ?_⟩
      by_cases hin : c.1 ∈ s.taken
      · have hcounts := hviewed c hin
        rwa [hsince] at hcounts
      · by_cases hrecorded : c ∈ s.recorded
        · by_cases hheld : c.1 ∈ s.telemetry.windows
          · rcases h.snapped.rest c.1 hheld with htaken | ⟨d, hd, -⟩
            · exact absurd htaken hin
            · rw [hsince] at hd
              exact absurd hd List.not_mem_nil
          · exact h.counted.kept c hrecorded hheld
        · have hbelow := h.counted.below c
          have hzero := List.count_eq_zero.mpr hrecorded
          change s.viewed r c = s.recorded.count c
          omega
    · have hnumber := h.wired.numbers report hreport
      change s.arrived < report.1 at harrived
      omega

/-! ### Every other step -/

theorem sound_idle (h : Sound r s) (hwindows : next.telemetry.windows = s.telemetry.windows)
    (hrequests : next.telemetry.requestsTotal = s.telemetry.requestsTotal)
    (hwire : ∀ report ∈ next.wire, report ∈ s.wire)
    (hrest : next = { s with telemetry := next.telemetry, poll := .idle, wire := next.wire }) :
    Sound r next := by
  rw [hrest]
  refine ⟨⟨hrequests.trans h.holds.requests, fun c hc => ?_, fun start hstart => ?_,
      fun c hc hgone => ?_⟩,
    ⟨h.snapped.past, h.snapped.since, h.snapped.taken, fun start hstart => ?_⟩,
    ⟨h.counted.tidy, fun c hc hgone => ?_, h.counted.below, h.counted.settled⟩,
    ⟨fun report hreport => h.wired.numbers report (hwire report hreport), h.wired.arrived,
      fun report hreport => h.wired.cells report (hwire report hreport),
      fun report hreport harrived => ?_, nofun, nofun⟩⟩
  · dsimp only at hc ⊢
    rw [hwindows] at hc
    rw [InstanceTelemetry.countOf, InstanceTelemetry.cell, hwindows]
    exact h.holds.held c hc
  · dsimp only at hstart
    rw [hwindows] at hstart
    exact h.holds.named start hstart
  · dsimp only at hgone
    rw [hwindows] at hgone
    exact h.holds.past c hc hgone
  · dsimp only at hstart
    rw [hwindows] at hstart
    exact h.snapped.rest start hstart
  · dsimp only at hgone
    rw [hwindows] at hgone
    exact h.counted.kept c hc hgone
  · have hbefore := h.wired.fresh report (hwire report hreport) harrived
    refine ⟨hbefore.below, fun c hc => ?_, hbefore.settled⟩
    dsimp only
    rw [hwindows]
    exact hbefore.held c hc

theorem sound_flush (h : Sound r s) {cap : Nat} (hstep : step cap r s .flush = some next) :
    Sound r next := by
  obtain rfl := Option.some.inj hstep
  have hviewed : ∀ c, ((view (flushNow s.aggregator s.rollup s.now false).1
      (flushNow s.aggregator s.rollup s.now false).2 (rowKey r c)).map (·.count)).getD 0 =
        s.viewed r c := by
    intro c
    rw [view_of_flush h.counted.tidy, State.viewed]
  refine ⟨⟨h.holds.requests, h.holds.held, h.holds.named, h.holds.past⟩,
    ⟨h.snapped.past, h.snapped.since, h.snapped.taken, h.snapped.rest⟩,
    ⟨(view_flush h.counted.tidy s.now).1, fun c hc hgone => ?_, fun c => ?_, fun hsettled => ?_⟩,
    ⟨h.wired.numbers, h.wired.arrived, h.wired.cells, fun report hreport harrived => ?_,
      h.wired.sent, fun accepted arrivedAt hanswered => ?_⟩⟩
  · rw [State.viewed, hviewed]
    exact h.counted.kept c hc hgone
  · rw [State.viewed, hviewed]
    exact h.counted.below c
  · refine ⟨(h.counted.settled hsettled).1, fun c => ?_⟩
    rw [State.viewed, hviewed]
    exact (h.counted.settled hsettled).2 c
  · have hbefore := h.wired.fresh report hreport harrived
    exact ⟨hbefore.below, hbefore.held, hbefore.settled⟩
  · obtain ⟨hpolls, hpast, hnow, haccepted, hcounts⟩ := h.wired.answered accepted arrivedAt hanswered
    refine ⟨hpolls, hpast, hnow, haccepted, fun c hc => ?_⟩
    rw [State.viewed, hviewed]
    exact hcounts c hc

theorem sound_wait (h : Sound r s) (milliseconds : Nat) :
    Sound r { s with now := s.now + milliseconds } := by
  refine ⟨⟨h.holds.requests, h.holds.held, fun start hstart => ?_, fun c hc hgone t ht => ?_⟩,
    ⟨Nat.le_trans h.snapped.past (Nat.le_add_right _ _), fun c hc => ?_, h.snapped.taken,
      h.snapped.rest⟩,
    ⟨h.counted.tidy, h.counted.kept, h.counted.below, h.counted.settled⟩,
    ⟨h.wired.numbers, h.wired.arrived, h.wired.cells, fun report hreport harrived => ?_,
      h.wired.sent, fun accepted arrivedAt hanswered => ?_⟩⟩
  · obtain ⟨t, ht, hname⟩ := h.holds.named start hstart
    exact ⟨t, Nat.le_trans ht (Nat.le_add_right _ _), hname⟩
  · exact h.holds.past c hc hgone t (Nat.le_trans (Nat.le_add_right _ _) ht)
  · obtain ⟨t, hafter, hbefore, hname⟩ := h.snapped.since c hc
    exact ⟨t, hafter, Nat.le_trans hbefore (Nat.le_add_right _ _), hname⟩
  · have hbefore := h.wired.fresh report hreport harrived
    exact ⟨hbefore.below, hbefore.held, hbefore.settled⟩
  · obtain ⟨hpolls, hpast, hnow, hrest⟩ := h.wired.answered accepted arrivedAt hanswered
    exact ⟨hpolls, hpast, Nat.le_trans hnow (Nat.le_add_right _ _), hrest⟩

theorem sound_resize (h : Sound r s) (maxSeries maxWindowsPerReport : Nat) :
    Sound r { s with telemetry := s.telemetry.resize maxSeries maxWindowsPerReport } := by
  refine ⟨⟨h.holds.requests, h.holds.held, h.holds.named, h.holds.past⟩,
    ⟨h.snapped.past, h.snapped.since, h.snapped.taken, h.snapped.rest⟩,
    ⟨h.counted.tidy, h.counted.kept, h.counted.below, h.counted.settled⟩,
    ⟨h.wired.numbers, h.wired.arrived, h.wired.cells, fun report hreport harrived => ?_,
      h.wired.sent, h.wired.answered⟩⟩
  have hbefore := h.wired.fresh report hreport harrived
  exact ⟨hbefore.below, hbefore.held, hbefore.settled⟩

theorem step_sound {cap : Nat} (hcap : 0 < cap) (h : Sound r s) {e : Event}
    (hfits : WindowsFit s e next) (horder : InOrder s e next) (hnot : NotReopened s e next)
    (hstep : step cap r s e = some next) : Sound r next := by
  cases e with
  | record input => exact sound_record h input hstep
  | snapshot => exact sound_snapshot h hfits hstep
  | arrive poll => exact sound_arrive h hcap horder hstep
  | answered => exact sound_answered h hnot hstep
  | failed =>
    simp only [step, Option.ite_none_left_eq_some, Option.some.injEq] at hstep
    obtain ⟨-, rfl⟩ := hstep
    exact sound_idle h rfl rfl (fun _ hreport => hreport) rfl
  | tooLarge =>
    simp only [step, Option.ite_none_right_eq_some, Option.some.injEq] at hstep
    obtain ⟨-, rfl⟩ := hstep
    exact sound_idle h rfl rfl (fun _ hreport => (List.mem_filter.mp hreport).1) rfl
  | resize maxSeries maxWindowsPerReport =>
    obtain rfl := Option.some.inj hstep
    exact sound_resize h maxSeries maxWindowsPerReport
  | flush => exact sound_flush h hstep
  | wait milliseconds =>
    obtain rfl := Option.some.inj hstep
    exact sound_wait h milliseconds

/-! ### Runs -/

theorem survives_of_sound (h : Sound r s) (before : State) (e : Event) : Survives r before e s := by
  refine ⟨h.counted.kept, fun hsettled => ?_⟩
  obtain ⟨htidy, hstored⟩ := view_flush h.counted.tidy s.now
  rw [State.total, h.holds.requests]
  refine totalOf_eq htidy.stored fun c => ?_
  rw [hstored]
  exact (h.counted.settled hsettled).2 c

theorem notReopened_of_survives (h : Sound r s) {cap : Nat} {e : Event}
    (hstep : step cap r s e = some next) (hsurvives : Survives r s e next) :
    NotReopened s e next := by
  cases e with
  | answered =>
    intro accepted arrivedAt hpoll htaken hclosed c hsince hminute
    obtain ⟨-, -, -, haccepted, hviewed⟩ := h.wired.answered accepted arrivedAt hpoll
    have hin : c.1 ∈ accepted := by
      rw [haccepted, hminute]
      exact List.mem_filter.mpr ⟨htaken, decide_eq_true hclosed⟩
    have hcount := List.count_pos_iff.mpr hsince
    have hbelow := h.counted.below c
    have hrecorded : c ∈ s.recorded := List.count_pos_iff.mp (by omega)
    unfold step at hstep
    rw [hpoll] at hstep
    obtain rfl := Option.some.inj hstep
    have hkept : s.viewed r c = s.recorded.count c := hsurvives.kept c hrecorded fun hheld =>
      ((s.telemetry.mem_windows_clearAccepted accepted c.1).mp hheld).2 hin
    have hbehind := hviewed c (hminute ▸ htaken)
    omega
  | record | snapshot | arrive | failed | tooLarge | resize | flush | wait => trivial

end

/-- In every run of one instance and the control plane in which each report says every window and
none is overtaken: no request is lost and a settled instance is counted in full, if and only if no
answer clears a minute that was counted into after its snapshot. -/
theorem counts_survive_iff {cap : Nat} (hcap : 0 < cap) (r : Reporter)
    (maxSeries maxWindowsPerReport : Nat) (events : List Event)
    (hfits : EveryStep (step cap r) WindowsFit (.initial maxSeries maxWindowsPerReport) events)
    (horder : EveryStep (step cap r) InOrder (.initial maxSeries maxWindowsPerReport) events) :
    EveryStep (step cap r) (Survives r) (.initial maxSeries maxWindowsPerReport) events ↔
      EveryStep (step cap r) NotReopened (.initial maxSeries maxWindowsPerReport) events := by
  refine everyStep_congr_of_guarded (I := Sound r) (fun s e next hs hmeets hstep hsurvives => ?_)
    (fun s e next hs hmeets hstep => ⟨fun hsurvives => ?_, fun hnot => ?_⟩)
    (initial_sound r maxSeries maxWindowsPerReport) (hfits.and horder)
  · exact step_sound hcap hs hmeets.1 hmeets.2 (notReopened_of_survives hs hstep hsurvives) hstep
  · exact notReopened_of_survives hs hstep hsurvives
  · exact survives_of_sound (step_sound hcap hs hmeets.1 hmeets.2 hnot hstep) s e

/-! ### Around the end of a minute -/

def windowsFit (s : State) : Event → Bool
  | .snapshot => decide (s.telemetry.windows.keys.length ≤ s.telemetry.batchSize)
  | _ => true

theorem windowsFit_of_test (s : State) (e : Event) (next : State) (h : windowsFit s e = true) :
    WindowsFit s e next := by
  cases e with
  | snapshot =>
    have hfits : s.telemetry.windows.keys.length ≤ s.telemetry.batchSize := of_decide_eq_true h
    exact hfits
  | record | arrive | answered | failed | tooLarge | resize | flush | wait => trivial

def inOrder (s : State) : Event → Bool
  | .arrive poll => decide (s.arrived < poll)
  | _ => true

theorem inOrder_of_test (s : State) (e : Event) (next : State) (h : inOrder s e = true) :
    InOrder s e next := by
  cases e with
  | arrive poll =>
    have horder : s.arrived < poll := of_decide_eq_true h
    exact horder
  | record | snapshot | answered | failed | tooLarge | resize | flush | wait => trivial

def quiet (s : State) : Event → Bool
  | .answered => s.since.isEmpty
  | _ => true

theorem notReopened_of_quiet (s : State) (e : Event) (next : State) (h : quiet s e = true) :
    NotReopened s e next := by
  cases e with
  | answered =>
    intro accepted arrivedAt _ _ _ c hc
    rw [List.isEmpty_iff.mp h] at hc
    cases hc
  | record | snapshot | arrive | failed | tooLarge | resize | flush | wait => trivial

def firstRun : Reporter := ⟨"dev", "gwi_1", "run_a", by decide⟩

def unmatched : RecordInput := ⟨none, none, ⟨"no-route", by decide⟩, 404, 1, none, 0, 0⟩

def reportedWhole : List Event :=
  [.record unmatched, .wait 1000, .record unmatched, .wait 60000, .snapshot, .arrive 1, .answered,
    .flush]

theorem reportedWhole_survives :
    EveryStep (step 4 firstRun) (Survives firstRun) (.initial 100 10) reportedWhole :=
  (counts_survive_iff (by decide) firstRun 100 10 reportedWhole
    (everyStep_of_passes windowsFit (fun s e next => windowsFit_of_test s e next) (by decide +kernel))
    (everyStep_of_passes inOrder (fun s e next => inOrder_of_test s e next) (by decide +kernel))).mpr
      (everyStep_of_passes quiet (fun s e next => notReopened_of_quiet s e next) (by decide +kernel))

/-- The second request comes after the snapshot, and the minute ends before the report arrives. The
next poll is answered with nothing counted since. -/
def reopened : List Event :=
  [.record unmatched, .snapshot, .record unmatched, .wait 60000, .arrive 1, .answered, .flush,
    .snapshot, .arrive 2]

theorem reopened_loses_a_request :
    EveryStep (step 4 firstRun) WindowsFit (.initial 100 10) (reopened ++ [.answered]) ∧
      EveryStep (step 4 firstRun) InOrder (.initial 100 10) (reopened ++ [.answered]) ∧
        ¬ EveryStep (step 4 firstRun) (Survives firstRun) (.initial 100 10)
          (reopened ++ [.answered]) := by
  refine ⟨everyStep_of_passes windowsFit (fun s e next => windowsFit_of_test s e next)
      (by decide +kernel),
    everyStep_of_passes inOrder (fun s e next => inOrder_of_test s e next) (by decide +kernel), ?_⟩
  refine not_everyStep_of_observed (fun _ s₂ => s₂.settled && decide (s₂.total firstRun = 1) &&
    decide (s₂.telemetry.requestsTotal = 2)) (fun s₁ s₂ hbad hsurvives => ?_) (by decide +kernel)
  simp only [Bool.and_eq_true, decide_eq_true_eq] at hbad
  obtain ⟨⟨hsettled, htotal⟩, hrequests⟩ := hbad
  have hcounted := hsurvives.settled hsettled
  omega

end Apim.Telemetry.Polling
