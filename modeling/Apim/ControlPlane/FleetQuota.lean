import Apim.Lib.Totals
import Apim.Lib.Trace
import Apim.DataPlane.QuotaCounters
import Apim.ControlPlane.QuotaService

/-!
# A quota across the fleet

The instances of any environments and the control plane they report to. A poll takes the deltas of
its instance and is under way as a report, which arrives or does not; the answer is computed as the
report arrives and is applied later, or not at all. An instance has one poll under way, but the
report of one it has given up may still arrive.

No call is counted twice, whatever is lost (`countsOnce_step`). What an instance is given covers what
it has had accepted, and it refuses at the limit, as long as no table of windows is full
(`quota_enforced`). The second counts from the last report an instance has handed over, not from the
last answer.
-/

namespace Apim.Quota

open Apim.Overlay Apim.Trace Apim.Totals

/-! ### The fleet -/

inductive Poll where
  | idle
  | sent
  | answered (aggregates : Counts)

structure Node where
  environment : String
  counters : QuotaCounters
  poll : Poll
  given : QuotaKey → Nat
  sinceTaken : QuotaKey → Nat
  sinceAnswered : QuotaKey → Nat
  accepted : QuotaKey → Nat

structure Report where
  sender : Nat
  environment : String
  deltas : Counts
  awaited : Bool

structure Fleet where
  nodes : List Node
  reports : List Report
  service : QuotaService
  now : Nat
  allowed : Slot → Nat

structure Limits where
  maxKeys : Nat
  maxEntries : Nat

inductive Event where
  | tick (ms : Nat)
  | start (environment : String)
  | call (node : Nat) (subscriptionId : String) (scopeKind : QuotaScope) (scopeId : String)
      (periodSec calls : Nat)
  | take (node : Nat)
  | arrive (report : Nat)
  | lost (report : Nat)
  | failed (node : Nat)
  | answered (node : Nat)
  | flush
  | sweep (node : Nat)
  | sweepRows

def Node.start (environment : String) : Node :=
  ⟨environment, ∅, .idle, fun _ => 0, fun _ => 0, fun _ => 0, fun _ => 0⟩

def Node.call (limits : Limits) (node : Node) (key : QuotaKey) (calls now : Nat) : Node :=
  let counted := node.counters.counted limits.maxKeys key calls now
  { node with
    counters := (node.counters.check limits.maxKeys key calls now).2
    sinceTaken := fun k => node.sinceTaken k + counted k
    sinceAnswered := fun k => node.sinceAnswered k + counted k }

def Node.take (node : Node) : Node :=
  { node with counters := node.counters.zeroed, poll := .sent, sinceTaken := fun _ => 0 }

def Node.heard (node : Node) (report : Report) (aggregates : Counts) : Node :=
  { node with
    poll := if report.awaited then .answered aggregates else node.poll
    accepted := fun k => node.accepted k + report.deltas.of k }

def Node.apply (limits : Limits) (node : Node) (aggregates : Counts) (now : Nat) : Node :=
  { node with
    counters := node.counters.applyAggregates limits.maxKeys aggregates now
    poll := .idle
    given := QuotaCounters.told node.given aggregates.entries
    sinceAnswered := fun _ => 0 }

def Fleet.accepting (limits : Limits) (s : Fleet) (report : Report) : QuotaService :=
  s.service.accept limits.maxEntries report.environment report.deltas

def Fleet.answer (limits : Limits) (s : Fleet) (report : Report) : Counts :=
  (s.accepting limits report).aggregatesFor limits.maxEntries report.environment s.now

def Report.abandon (node : Nat) (report : Report) : Report :=
  if report.sender = node then { report with awaited := false } else report

def step (limits : Limits) (s : Fleet) : Event → Option Fleet
  | .tick ms => some { s with now := s.now + ms }
  | .start environment => some { s with nodes := s.nodes ++ [.start environment] }
  | .call i subscriptionId scopeKind scopeId periodSec calls =>
    if 0 < periodSec then
      (s.nodes[i]?).map fun node =>
        let key := keyFor subscriptionId scopeKind scopeId periodSec s.now
        { s with
          nodes := s.nodes.set i (node.call limits key calls s.now)
          allowed := fun slot => s.allowed slot +
            if slot.environment = node.environment then
              node.counters.counted limits.maxKeys key calls s.now slot.key
            else 0 }
    else none
  | .take i =>
    (s.nodes[i]?).bind fun node =>
      match node.poll with
      | .idle => some { s with
          nodes := s.nodes.set i node.take
          reports := s.reports ++ [⟨i, node.environment, node.counters.deltas, true⟩] }
      | _ => none
  | .arrive m =>
    (s.reports[m]?).bind fun report =>
      (s.nodes[report.sender]?).map fun node =>
        { s with
          nodes := s.nodes.set report.sender (node.heard report (s.answer limits report))
          reports := s.reports.eraseIdx m
          service := s.accepting limits report }
  | .lost m => (s.reports[m]?).map fun _ => { s with reports := s.reports.eraseIdx m }
  | .failed i => (s.nodes[i]?).map fun node =>
      { s with
        nodes := s.nodes.set i { node with poll := .idle }
        reports := s.reports.map (Report.abandon i) }
  | .answered i =>
    (s.nodes[i]?).bind fun node =>
      match node.poll with
      | .answered aggregates =>
        some { s with nodes := s.nodes.set i (node.apply limits aggregates s.now) }
      | _ => none
  | .flush => some { s with service := s.service.flush s.now }
  | .sweep i => (s.nodes[i]?).map fun node =>
      { s with nodes := s.nodes.set i { node with counters := node.counters.sweep s.now } }
  | .sweepRows => some { s with service := s.service.sweep s.now }

def Fleet.initial : Fleet := ⟨[], [], .empty, 0, fun _ => 0⟩

/-! ### No call is counted twice -/

def Report.brings (slot : Slot) (report : Report) : Nat :=
  QuotaService.brought report.environment report.deltas slot

def Node.counts (slot : Slot) (node : Node) : Nat :=
  if slot.environment = node.environment then node.counters.deltaOf slot.key else 0

theorem counts_of_eq (slot : Slot) (node : Node) (h : slot.environment = node.environment) :
    Node.counts slot node = node.counters.deltaOf slot.key := if_pos h

theorem counts_of_ne (slot : Slot) (node : Node) (h : slot.environment ≠ node.environment) :
    Node.counts slot node = 0 := if_neg h

theorem counts_mono (node node' : Node) (henvironment : node'.environment = node.environment)
    (hle : ∀ k, node'.counters.deltaOf k ≤ node.counters.deltaOf k) (slot : Slot) :
    Node.counts slot node' ≤ Node.counts slot node := by
  unfold Node.counts
  rw [henvironment]
  split
  · exact hle slot.key
  · exact le_rfl

structure Node.Bounded (allowed : Slot → Nat) (node : Node) : Prop where
  enforced : ∀ k, node.counters.aggregateOf k + node.counters.deltaOf k ≤
    allowed ⟨node.environment, k⟩
  answered : ∀ aggregates, node.poll = .answered aggregates → ∀ k n, aggregates.lookup k = some n →
    n + node.counters.deltaOf k ≤ allowed ⟨node.environment, k⟩

structure Sound (s : Fleet) : Prop where
  counted : ∀ slot, s.service.held slot + total (Report.brings slot) s.reports +
    total (Node.counts slot) s.nodes ≤ s.allowed slot
  bounded : ∀ (i : Nat) (node : Node), s.nodes[i]? = some node → node.Bounded s.allowed
  senders : ∀ report ∈ s.reports, ∃ node, s.nodes[report.sender]? = some node ∧
    node.environment = report.environment

variable {node : Node}

theorem Node.Bounded.mono {allowed allowed' : Slot → Nat} (h : node.Bounded allowed)
    (hle : ∀ slot, allowed slot ≤ allowed' slot) : node.Bounded allowed' :=
  ⟨fun k => (h.enforced k).trans (hle _), fun a ha k n hn => (h.answered a ha k n hn).trans (hle _)⟩

theorem Node.Bounded.shrink {allowed : Slot → Nat} {node' : Node} (h : node.Bounded allowed)
    (henvironment : node'.environment = node.environment)
    (hshrinks : QuotaCounters.Shrinks node.counters node'.counters)
    (hpoll : ∀ a, node'.poll = .answered a → node.poll = .answered a) : node'.Bounded allowed := by
  constructor
  · intro k
    have hold := h.enforced k
    have hdelta := hshrinks.delta k
    have haggregate := hshrinks.aggregate k
    rw [henvironment]
    omega
  · intro a ha k n hn
    have hold := h.answered a (hpoll a ha) k n hn
    have hdelta := hshrinks.delta k
    rw [henvironment]
    omega

theorem senders_set {nodes : List Node} {i : Nat} (node' : Node) (hnode : nodes[i]? = some node)
    (henvironment : node'.environment = node.environment) {report : Report}
    (h : ∃ sender, nodes[report.sender]? = some sender ∧ sender.environment = report.environment) :
    ∃ sender, (nodes.set i node')[report.sender]? = some sender ∧
      sender.environment = report.environment := by
  obtain ⟨sender, hsender, hsame⟩ := h
  by_cases hi : report.sender = i
  · subst hi
    obtain rfl := Option.some.inj (hnode.symm.trans hsender)
    refine ⟨node', ?_, henvironment.trans hsame⟩
    rw [List.getElem?_set_self (List.getElem?_eq_some_iff.mp hnode).1]
  · exact ⟨sender, by rw [List.getElem?_set_ne (Ne.symm hi)]; exact hsender, hsame⟩

variable {s : Fleet}

theorem Sound.update (hs : Sound s) {i : Nat} (node' : Node) {allowed : Slot → Nat}
    (hnode : s.nodes[i]? = some node) (henvironment : node'.environment = node.environment)
    (hallowed : ∀ slot, s.allowed slot ≤ allowed slot)
    (hcounts : ∀ slot, node'.counts slot + s.allowed slot ≤ node.counts slot + allowed slot)
    (hbounded : node'.Bounded allowed) :
    Sound { s with nodes := s.nodes.set i node', allowed := allowed } := by
  refine ⟨fun slot => ?_, fun j node'' hj => ?_, fun report hreport => ?_⟩
  · have hsum := total_set (Node.counts slot) hnode node'
    have hle := le_total (Node.counts slot) hnode
    have hold := hs.counted slot
    have hgrown := hallowed slot
    have hown := hcounts slot
    change s.service.held slot + total (Report.brings slot) s.reports +
      total (Node.counts slot) (s.nodes.set i node') ≤ allowed slot
    omega
  · rcases getElem?_set_cases hj with ⟨-, rfl⟩ | hold
    · exact hbounded
    · exact (hs.bounded j node'' hold).mono hallowed
  · exact senders_set node' hnode henvironment (hs.senders report hreport)

variable {limits : Limits} {e : Event}

theorem sound_step {next : Fleet} (hs : Sound s) (h : step limits s e = some next) : Sound next := by
  cases e with
  | tick ms =>
    cases h
    exact ⟨hs.counted, hs.bounded, hs.senders⟩
  | start environment =>
    cases h
    refine ⟨fun slot => ?_, fun j node hj => ?_, fun report hreport => ?_⟩
    · have hold := hs.counted slot
      have hnone : Node.counts slot (.start environment) = 0 := by
        simp only [Node.counts, Node.start]
        exact ite_self 0
      change s.service.held slot + total (Report.brings slot) s.reports +
        total (Node.counts slot) (s.nodes ++ [.start environment]) ≤ s.allowed slot
      rw [total_append, total_cons, total_nil, hnone]
      omega
    · rcases getElem?_append_one hj with hold | rfl
      · exact hs.bounded j node hold
      · refine ⟨fun k => ?_, by rintro aggregates ⟨⟩⟩
        simp [Node.start, QuotaCounters.deltaOf, QuotaCounters.aggregateOf]
    · obtain ⟨sender, hsender, hsame⟩ := hs.senders report hreport
      refine ⟨sender, ?_, hsame⟩
      have hlt := (List.getElem?_eq_some_iff.mp hsender).1
      change (s.nodes ++ [Node.start environment])[report.sender]? = some sender
      rw [List.getElem?_append_left hlt]
      exact hsender
  | call i subscriptionId scopeKind scopeId periodSec calls =>
    simp only [step, Option.ite_none_right_eq_some, Option.map_eq_some_iff] at h
    obtain ⟨-, node, hnode, rfl⟩ := h
    have hspec := node.counters.check_spec limits.maxKeys
      (keyFor subscriptionId scopeKind scopeId periodSec s.now) calls s.now
    have hbounded := hs.bounded i node hnode
    refine hs.update _ hnode rfl (fun slot => Nat.le_add_right _ _) (fun slot => ?_) ⟨fun k => ?_, ?_⟩
    · by_cases henvironment : slot.environment = node.environment
      · have hdelta := (hspec slot.key).1
        rw [counts_of_eq slot node henvironment, counts_of_eq slot (node.call _ _ _ _) henvironment]
        simp only [Node.call, if_pos henvironment]
        omega
      · rw [counts_of_ne slot node henvironment, counts_of_ne slot (node.call _ _ _ _) henvironment]
        simp only [if_neg henvironment]
        omega
    · obtain ⟨hdelta, haggregate, -⟩ := hspec k
      have hold := hbounded.enforced k
      simp only [Node.call, if_true]
      omega
    · intro a ha k n hn
      have hdelta := (hspec k).1
      have hold := hbounded.answered a ha k n hn
      simp only [Node.call, if_true]
      omega
  | take i =>
    obtain ⟨node, hnode, h⟩ := Option.bind_eq_some_iff.mp h
    cases hpoll : node.poll with
    | idle =>
      simp only [hpoll, Option.some.injEq] at h
      subst h
      have htake := node.counters.take_spec
      have hshrinks : QuotaCounters.Shrinks node.counters node.take.counters := by
        constructor
        · intro k
          have hk := (htake k).1
          change node.counters.zeroed.deltaOf k ≤ _
          omega
        · exact fun k => Nat.le_of_eq (htake k).2
      refine ⟨fun slot => ?_, fun j node' hj => ?_, fun report hreport => ?_⟩
      · have hold := hs.counted slot
        have hsum := total_set (Node.counts slot) hnode node.take
        have hmoved : Node.counts slot node.take +
            Report.brings slot ⟨i, node.environment, node.counters.deltas, true⟩ =
            Node.counts slot node := by
          by_cases henvironment : slot.environment = node.environment
          · have hbrings : Report.brings slot ⟨i, node.environment, node.counters.deltas, true⟩ =
              node.counters.deltas.of slot.key := if_pos henvironment
            rw [counts_of_eq slot node henvironment, counts_of_eq slot node.take henvironment,
              hbrings, Nat.add_comm]
            exact (htake slot.key).1
          · have hbrings : Report.brings slot ⟨i, node.environment, node.counters.deltas, true⟩ =
              0 := if_neg henvironment
            rw [counts_of_ne slot node henvironment, counts_of_ne slot node.take henvironment,
              hbrings]
        change s.service.held slot + total (Report.brings slot)
          (s.reports ++ [⟨i, node.environment, node.counters.deltas, true⟩]) +
          total (Node.counts slot) (s.nodes.set i node.take) ≤ s.allowed slot
        rw [total_append, total_cons, total_nil]
        omega
      · rcases getElem?_set_cases hj with ⟨-, rfl⟩ | hold
        · exact (hs.bounded i node hnode).shrink rfl hshrinks (by rintro aggregates ⟨⟩)
        · exact hs.bounded j node' hold
      · rcases List.mem_append.mp hreport with hold | hnew
        · exact senders_set node.take hnode rfl (hs.senders report hold)
        · rw [List.mem_singleton.mp hnew]
          exact senders_set node.take hnode rfl ⟨node, hnode, rfl⟩
    | sent =>
      rw [hpoll] at h
      cases h
    | answered aggregates =>
      rw [hpoll] at h
      cases h
  | arrive m =>
    obtain ⟨report, hreport, h⟩ := Option.bind_eq_some_iff.mp h
    obtain ⟨node, hnode, rfl⟩ := Option.map_eq_some_iff.mp h
    obtain ⟨sender, hsender, hsame⟩ := hs.senders report (List.mem_of_getElem? hreport)
    obtain rfl := Option.some.inj (hnode.symm.trans hsender)
    have hcounted : ∀ slot, (s.accepting limits report).held slot +
        total (Report.brings slot) (s.reports.eraseIdx m) +
        total (Node.counts slot) (s.nodes.set report.sender
          (node.heard report (s.answer limits report))) ≤ s.allowed slot := by
      intro slot
      have hold := hs.counted slot
      have haccepted := (QuotaService.held_accept limits.maxEntries s.service report.environment
        report.deltas slot).2.1
      have herased := total_eraseIdx (Report.brings slot) hreport
      have hsum := total_set (Node.counts slot) hnode (node.heard report (s.answer limits report))
      have hkept : Node.counts slot (node.heard report (s.answer limits report)) =
        Node.counts slot node := rfl
      unfold Fleet.accepting
      unfold Report.brings at herased hold ⊢
      omega
    refine ⟨hcounted, fun j node' hj => ?_, fun report' hreport' => ?_⟩
    · rcases getElem?_set_cases hj with ⟨-, rfl⟩ | hold
      · refine ⟨(hs.bounded report.sender node hnode).enforced, fun a ha k n hn => ?_⟩
        cases hawaited : report.awaited with
        | false =>
          simp only [Node.heard, hawaited, Bool.false_eq_true, if_false] at ha
          exact (hs.bounded report.sender node hnode).answered a ha k n hn
        | true =>
          -- What is given is held, and the deltas of the instance are counted beside it.
          simp only [Node.heard, hawaited, if_true, Poll.answered.injEq] at ha
          subst ha
          have hgiven := QuotaService.le_held_of_aggregatesFor hn
          have hall := hcounted ⟨report.environment, k⟩
          have hown := le_total (Node.counts ⟨report.environment, k⟩) hj
          rw [counts_of_eq ⟨report.environment, k⟩ (node.heard _ _) hsame.symm] at hown
          change n + node.counters.deltaOf k ≤ s.allowed ⟨node.environment, k⟩
          rw [hsame]
          refine Nat.le_trans (Nat.add_le_add hgiven hown) (Nat.le_trans ?_ hall)
          exact Nat.add_le_add_right (Nat.le_add_right _ _) _
      · exact hs.bounded j node' hold
    · exact senders_set (node.heard report (s.answer limits report)) hnode rfl
        (hs.senders report' (List.mem_of_mem_eraseIdx hreport'))
  | lost m =>
    obtain ⟨report, hreport, rfl⟩ := Option.map_eq_some_iff.mp h
    refine ⟨fun slot => ?_, hs.bounded, fun report' hreport' => ?_⟩
    · have hold := hs.counted slot
      have herased := total_eraseIdx (Report.brings slot) hreport
      change s.service.held slot + total (Report.brings slot) (s.reports.eraseIdx m) +
        total (Node.counts slot) s.nodes ≤ s.allowed slot
      omega
    · exact hs.senders report' (List.mem_of_mem_eraseIdx hreport')
  | failed i =>
    obtain ⟨node, hnode, rfl⟩ := Option.map_eq_some_iff.mp h
    have hupdated := hs.update { node with poll := .idle } hnode rfl
      (fun _ => le_rfl) (fun _ => le_rfl)
      ((hs.bounded i node hnode).shrink rfl (.refl _) (by rintro aggregates ⟨⟩))
    refine ⟨fun slot => ?_, hupdated.bounded, fun report hreport => ?_⟩
    · have hsame := total_map_of_eq (Report.brings slot) (Report.abandon i) (fun report => by
        unfold Report.abandon
        split <;> rfl) s.reports
      have hold := hupdated.counted slot
      change s.service.held slot + total (Report.brings slot) (s.reports.map (Report.abandon i)) +
        total (Node.counts slot) _ ≤ s.allowed slot
      rw [hsame]
      exact hold
    · obtain ⟨report', hreport', rfl⟩ := List.mem_map.mp hreport
      have hsender := hupdated.senders report' hreport'
      unfold Report.abandon
      split <;> exact hsender
  | answered i =>
    obtain ⟨node, hnode, h⟩ := Option.bind_eq_some_iff.mp h
    cases hpoll : node.poll with
    | answered aggregates =>
      simp only [hpoll, Option.some.injEq] at h
      subst h
      have hbounded := hs.bounded i node hnode
      have happlied := QuotaCounters.applyAggregates_bounded limits.maxKeys s.now
        hbounded.enforced fun a ha => hbounded.answered aggregates hpoll a.1 a.2
          ((lookup_eq_some_iff aggregates a.1 a.2).mpr ha)
      refine hs.update _ hnode rfl (fun _ => le_rfl) (fun slot => ?_) ⟨fun k => ?_, by rintro answer ⟨⟩⟩
      · exact Nat.add_le_add_right (counts_mono node (node.apply _ _ _) rfl
          (fun k => (happlied k).1) slot) _
      · exact (happlied k).2
    | idle =>
      rw [hpoll] at h
      cases h
    | sent =>
      rw [hpoll] at h
      cases h
  | flush =>
    cases h
    refine ⟨fun slot => ?_, hs.bounded, hs.senders⟩
    rw [QuotaService.held_flush]
    exact hs.counted slot
  | sweep i =>
    obtain ⟨node, hnode, rfl⟩ := Option.map_eq_some_iff.mp h
    have hshrinks := node.counters.shrinks_sweep s.now
    refine hs.update _ hnode rfl (fun _ => le_rfl) (fun slot => ?_)
      ((hs.bounded i node hnode).shrink rfl hshrinks fun _ => id)
    exact Nat.add_le_add_right (counts_mono node { node with counters := node.counters.sweep s.now } rfl
      hshrinks.delta slot) _
  | sweepRows =>
    cases h
    refine ⟨fun slot => ?_, hs.bounded, hs.senders⟩
    have hold := hs.counted slot
    have hswept := s.service.held_sweep_le s.now slot
    change (s.service.sweep s.now).held slot + total (Report.brings slot) s.reports +
      total (Node.counts slot) s.nodes ≤ s.allowed slot
    omega

theorem Fleet.initial_sound : Sound .initial := by
  refine ⟨fun slot => ?_, fun i node hnode => ?_, fun report hreport => ?_⟩
  · simp [initial, QuotaService.held, QuotaService.stored, QuotaService.waiting, QuotaService.empty]
  · cases hnode
  · cases hreport

/-! ### What a step shows -/

def Fleet.allows (limits : Limits) (s : Fleet) (node : Node) (key : QuotaKey) (calls : Nat) : Bool :=
  (node.counters.check limits.maxKeys key calls s.now).1

/-- The control plane holds no more than was allowed, and a call that is refused comes after as many
calls as the limit says. -/
structure CountsOnce (limits : Limits) (s : Fleet) (e : Event) (next : Fleet) : Prop where
  held : ∀ slot, next.service.held slot ≤ next.allowed slot
  refused : ∀ i subscriptionId scopeKind scopeId periodSec calls node,
    e = .call i subscriptionId scopeKind scopeId periodSec calls → s.nodes[i]? = some node →
    s.allows limits node (keyFor subscriptionId scopeKind scopeId periodSec s.now) calls = false →
    calls ≤ s.allowed ⟨node.environment,
      keyFor subscriptionId scopeKind scopeId periodSec s.now⟩

/-- The answer to a poll covers, in every live window it gives, what was accepted from the
instance. -/
def CoversAccepted (s : Fleet) (e : Event) (next : Fleet) : Prop :=
  ∀ m report node aggregates, e = .arrive m → s.reports[m]? = some report →
    report.awaited = true → next.nodes[report.sender]? = some node →
    node.poll = .answered aggregates → ∀ k n, k.isLive s.now = true →
    aggregates.lookup k = some n → node.accepted k ≤ n

/-- An instance refuses where the calls of a window it has allowed since some point bring the fleet's
count, as it was last given, to the limit. -/
def RefusesFrom (since : Node → QuotaKey → Nat) (limits : Limits) (s : Fleet) (e : Event) : Prop :=
  ∀ i subscriptionId scopeKind scopeId periodSec calls node,
    e = .call i subscriptionId scopeKind scopeId periodSec calls → 0 < periodSec →
    s.nodes[i]? = some node →
    calls ≤ node.given (keyFor subscriptionId scopeKind scopeId periodSec s.now) +
      since node (keyFor subscriptionId scopeKind scopeId periodSec s.now) →
    s.allows limits node (keyFor subscriptionId scopeKind scopeId periodSec s.now) calls = false

theorem countsOnce_step {next : Fleet} (hs : Sound s) (h : step limits s e = some next) :
    CountsOnce limits s e next := by
  refine ⟨fun slot => ?_, ?_⟩
  · have hcounted := (sound_step hs h).counted slot
    omega
  · intro i subscriptionId scopeKind scopeId periodSec calls node _ hnode hrefused
    have hfull := (node.counters.check_allowed_iff limits.maxKeys
      (keyFor subscriptionId scopeKind scopeId periodSec s.now) calls s.now).not.mp
      (Bool.eq_false_iff.mp hrefused)
    have hbound := (hs.bounded i node hnode).enforced
      (keyFor subscriptionId scopeKind scopeId periodSec s.now)
    omega

/-! ### Where no table is full -/

/-- A window that a step brings to a table finds room in it, and an answer is read from every row of
its environment. -/
def HasRoom (limits : Limits) (s : Fleet) : Event → Prop
  | .call i subscriptionId scopeKind scopeId periodSec _ => ∀ node, s.nodes[i]? = some node →
      node.counters.HasRoom limits.maxKeys
        (keyFor subscriptionId scopeKind scopeId periodSec s.now)
  | .answered i => ∀ node aggregates, s.nodes[i]? = some node → node.poll = .answered aggregates →
      node.counters.HasRoomFor limits.maxKeys s.now aggregates.entries
  | .arrive m => ∀ report, s.reports[m]? = some report →
      QuotaService.HasRoomFor limits.maxEntries report.environment s.service.pending
        report.deltas.entries ∧
      (s.accepting limits report).ReadsAll limits.maxEntries report.environment
  | _ => True

structure Node.Covers (now : Nat) (service : QuotaService) (node : Node) : Prop where
  given : ∀ k, k.isLive now = true → node.given k ≤ node.counters.aggregateOf k
  since : ∀ k, k.isLive now = true → node.sinceTaken k ≤ node.counters.deltaOf k
  accepted : ∀ k, k.isLive now = true → node.accepted k ≤ service.held ⟨node.environment, k⟩

def Covered (s : Fleet) : Prop :=
  ∀ (i : Nat) (node : Node), s.nodes[i]? = some node → node.Covers s.now s.service

theorem Node.Covers.mono {now : Nat} {service service' : QuotaService} (h : node.Covers now service)
    (hle : ∀ slot, slot.key.isLive now = true → service.held slot ≤ service'.held slot) :
    node.Covers now service' :=
  ⟨h.given, h.since, fun k hk => (h.accepted k hk).trans (hle ⟨node.environment, k⟩ hk)⟩

theorem covered_set (hs : Covered s) {i : Nat} {node' : Node}
    (hnode' : node'.Covers s.now s.service) : Covered { s with nodes := s.nodes.set i node' } := by
  intro j node hj
  rcases getElem?_set_cases hj with ⟨-, rfl⟩ | hold
  · exact hnode'
  · exact hs j node hold

theorem covered_step {next : Fleet} (hsound : Sound s) (hs : Covered s) (hroom : HasRoom limits s e)
    (h : step limits s e = some next) : Covered next := by
  cases e with
  | tick ms =>
    cases h
    intro i node hnode
    have hold := hs i node hnode
    have hearlier : ∀ k : QuotaKey, k.isLive (s.now + ms) = true → k.isLive s.now = true :=
      fun k hk => QuotaKey.isLive_mono (Nat.le_add_right _ _) hk
    exact ⟨fun k hk => hold.given k (hearlier k hk), fun k hk => hold.since k (hearlier k hk),
      fun k hk => hold.accepted k (hearlier k hk)⟩
  | start environment =>
    cases h
    intro i node hnode
    rcases getElem?_append_one hnode with hold | rfl
    · exact hs i node hold
    · exact ⟨fun _ _ => Nat.zero_le _, fun _ _ => Nat.zero_le _, fun _ _ => Nat.zero_le _⟩
  | call i subscriptionId scopeKind scopeId periodSec calls =>
    simp only [step, Option.ite_none_right_eq_some, Option.map_eq_some_iff] at h
    obtain ⟨-, node, hnode, rfl⟩ := h
    have hold := hs i node hnode
    have hspec := fun k => (node.counters.check_spec limits.maxKeys
      (keyFor subscriptionId scopeKind scopeId periodSec s.now) calls s.now k).2.2 (hroom node hnode)
    refine covered_set (s := s) hs ⟨fun k hk => ?_, fun k hk => ?_, hold.accepted⟩
    · exact (hold.given k hk).trans (Nat.le_of_eq (hspec k).2.symm)
    · exact (Nat.add_le_add_right (hold.since k hk) _).trans (Nat.le_of_eq (hspec k).1.symm)
  | take i =>
    obtain ⟨node, hnode, h⟩ := Option.bind_eq_some_iff.mp h
    cases hpoll : node.poll with
    | idle =>
      simp only [hpoll, Option.some.injEq] at h
      subst h
      have hold := hs i node hnode
      refine covered_set (s := s) hs ⟨fun k hk => ?_, fun _ _ => Nat.zero_le _, hold.accepted⟩
      exact (hold.given k hk).trans (Nat.le_of_eq (node.counters.take_spec k).2.symm)
    | sent =>
      rw [hpoll] at h
      cases h
    | answered aggregates =>
      rw [hpoll] at h
      cases h
  | arrive m =>
    obtain ⟨report, hreport, h⟩ := Option.bind_eq_some_iff.mp h
    obtain ⟨node, hnode, rfl⟩ := Option.map_eq_some_iff.mp h
    obtain ⟨sender, hsender, hsame⟩ := hsound.senders report (List.mem_of_getElem? hreport)
    obtain rfl := Option.some.inj (hnode.symm.trans hsender)
    have haccepted := fun slot => QuotaService.held_accept limits.maxEntries s.service
      report.environment report.deltas slot
    intro j node' hj
    rcases getElem?_set_cases hj with ⟨-, rfl⟩ | hold
    · have hold := hs report.sender node hnode
      refine ⟨hold.given, hold.since, fun k hk => ?_⟩
      have hexact := (haccepted ⟨report.environment, k⟩).2.2 (hroom report hreport).1
      have hbefore := hold.accepted k hk
      rw [hsame] at hbefore
      change node.accepted k + report.deltas.of k ≤
        (s.accepting limits report).held ⟨node.environment, k⟩
      rw [hsame, Fleet.accepting, hexact, QuotaService.brought, if_pos rfl]
      exact Nat.add_le_add_right hbefore _
    · exact (hs j node' hold).mono fun slot _ => (haccepted slot).1
  | lost m =>
    obtain ⟨report, -, rfl⟩ := Option.map_eq_some_iff.mp h
    exact hs
  | failed i =>
    obtain ⟨node, hnode, rfl⟩ := Option.map_eq_some_iff.mp h
    have hold := hs i node hnode
    exact covered_set (s := s) hs ⟨hold.given, hold.since, hold.accepted⟩
  | answered i =>
    obtain ⟨node, hnode, h⟩ := Option.bind_eq_some_iff.mp h
    cases hpoll : node.poll with
    | answered aggregates =>
      simp only [hpoll, Option.some.injEq] at h
      subst h
      have hold := hs i node hnode
      have hfits := hroom node aggregates hnode hpoll
      refine covered_set (s := s) hs ⟨fun k hk => ?_, fun k hk => ?_, hold.accepted⟩
      · exact (QuotaCounters.applyAggregates_room hfits node.given (hold.given k hk)).2
      · have hdelta := (QuotaCounters.applyAggregates_room hfits node.given (hold.given k hk)).1
        exact (hold.since k hk).trans (Nat.le_of_eq hdelta.symm)
    | idle =>
      rw [hpoll] at h
      cases h
    | sent =>
      rw [hpoll] at h
      cases h
  | flush =>
    cases h
    exact fun j node hj => (hs j node hj).mono fun slot _ =>
      Nat.le_of_eq (s.service.held_flush s.now slot).symm
  | sweep i =>
    obtain ⟨node, hnode, rfl⟩ := Option.map_eq_some_iff.mp h
    have hold := hs i node hnode
    refine covered_set (s := s) hs ⟨fun k hk => ?_, fun k hk => ?_, hold.accepted⟩
    · simp only [QuotaCounters.aggregateOf, QuotaCounters.lookup_sweep_of_live _ hk]
      exact hold.given k hk
    · simp only [QuotaCounters.deltaOf, QuotaCounters.lookup_sweep_of_live _ hk]
      exact hold.since k hk
  | sweepRows =>
    cases h
    exact fun j node hj => (hs j node hj).mono fun slot hlive =>
      Nat.le_of_eq (s.service.held_sweep_of_live hlive).symm

theorem coversAccepted_step {next : Fleet} (hsound : Sound s) (hs : Covered s)
    (hroom : HasRoom limits s e) (h : step limits s e = some next) : CoversAccepted s e next := by
  have hnext := covered_step hsound hs hroom h
  rintro m report node aggregates rfl hreport hawaited hnode hpoll k n hlive hn
  obtain ⟨report', hreport', h⟩ := Option.bind_eq_some_iff.mp h
  obtain rfl := Option.some.inj (hreport.symm.trans hreport')
  obtain ⟨sender, hsender, rfl⟩ := Option.map_eq_some_iff.mp h
  obtain ⟨sender', hsender', hsame⟩ := hsound.senders report (List.mem_of_getElem? hreport)
  obtain rfl := Option.some.inj (hsender.symm.trans hsender')
  have hplace := (List.getElem?_eq_some_iff.mp hsender).1
  have hheard : node = sender.heard report (s.answer limits report) := by
    rw [List.getElem?_set_self hplace] at hnode
    exact (Option.some.inj hnode).symm
  subst hheard
  simp only [Node.heard, hawaited, if_true, Poll.answered.injEq] at hpoll
  subst hpoll
  rw [QuotaService.held_of_aggregatesFor (hroom report hreport).2 hlive hn, ← hsame]
  exact (hnext report.sender _ hnode).accepted k hlive

theorem refusesFrom_taken_step (hs : Covered s) : RefusesFrom Node.sinceTaken limits s e := by
  intro i subscriptionId scopeKind scopeId periodSec calls node _ hperiod hnode hreached
  have hlive := isLive_keyFor hperiod subscriptionId scopeKind scopeId s.now
  have hgiven := (hs i node hnode).given _ hlive
  have hsince := (hs i node hnode).since _ hlive
  refine Bool.eq_false_iff.mpr fun hallowed => ?_
  have hbelow := (node.counters.check_allowed_iff limits.maxKeys _ calls s.now).mp hallowed
  omega

/-- In every run no call is counted twice and none is refused too early; in a run in which no table
is full, an answer covers what was accepted from its instance, and an instance refuses where the
fleet's count with the calls it has allowed since deltas were taken reaches the limit. -/
theorem quota_enforced (limits : Limits) (events : List Event) :
    EveryStep (step limits) (CountsOnce limits) .initial events ∧
      (EveryStep (step limits) (fun s e _ => HasRoom limits s e) .initial events →
        EveryStep (step limits) (fun s e next =>
          CoversAccepted s e next ∧ RefusesFrom Node.sinceTaken limits s e) .initial events) := by
  constructor
  · exact everyStep_of_invariant (fun s e next hs h => sound_step hs h)
      (fun s e next hs h => countsOnce_step hs h) Fleet.initial_sound events
  · intro hroom
    have hguarded : ∀ s e next, Sound s ∧ Covered s → HasRoom limits s e →
        step limits s e = some next → (Sound next ∧ Covered next) ∧
          CoversAccepted s e next ∧ RefusesFrom Node.sinceTaken limits s e :=
      fun s e next hs hroom h => ⟨⟨sound_step hs.1 h, covered_step hs.1 hs.2 hroom h⟩,
        coversAccepted_step hs.1 hs.2 hroom h, refusesFrom_taken_step hs.2⟩
    refine everyStep_of_guarded hguarded ⟨Fleet.initial_sound, fun i node hnode => ?_⟩ hroom
    cases hnode

/-! ### Two runs of one instance -/

def roomy (limits : Limits) (s : Fleet) : Event → Bool
  | .call i subscriptionId scopeKind scopeId periodSec _ => (s.nodes[i]?).all fun node =>
      decide (node.counters.HasRoom limits.maxKeys
        (keyFor subscriptionId scopeKind scopeId periodSec s.now))
  | .answered i => (s.nodes[i]?).all fun node => match node.poll with
      | .answered aggregates =>
        decide (node.counters.HasRoomFor limits.maxKeys s.now aggregates.entries)
      | _ => true
  | .arrive m => (s.reports[m]?).all fun report =>
      decide (QuotaService.HasRoomFor limits.maxEntries report.environment s.service.pending
        report.deltas.entries) &&
      decide ((s.accepting limits report).ReadsAll limits.maxEntries report.environment)
  | _ => true

theorem hasRoom_of_roomy (h : roomy limits s e = true) : HasRoom limits s e := by
  cases e with
  | call i subscriptionId scopeKind scopeId periodSec calls =>
    intro node hnode
    simp only [roomy, hnode, Option.all_some] at h
    exact of_decide_eq_true h
  | answered i =>
    intro node aggregates hnode hpoll
    simp only [roomy, hnode, Option.all_some, hpoll] at h
    exact of_decide_eq_true h
  | arrive m =>
    intro report hreport
    simp only [roomy, hreport, Option.all_some, Bool.and_eq_true, decide_eq_true_eq] at h
    exact h
  | _ => trivial

def shipped : Limits := ⟨MAX_QUOTA_ENTRIES, MAX_QUOTA_ENTRIES⟩

def oneCall : Event := .call 0 "sub_1" .route "res_1" 3600 1

/-- An instance whose poll has been answered allows the one call of the limit, and polls again. -/
def polling : List Event :=
  [.start "prod", .take 0, .arrive 0, .answered 0, oneCall, .take 0]

theorem quota_enforced_polling :
    EveryStep (step shipped) (fun s e next =>
      CoversAccepted s e next ∧ RefusesFrom Node.sinceTaken shipped s e) .initial
      (polling ++ [.arrive 0, .answered 0, oneCall]) :=
  (quota_enforced shipped (polling ++ [.arrive 0, .answered 0, oneCall])).2
    (everyStep_of_passes (roomy shipped) (fun _ _ _ => hasRoom_of_roomy) (by decide +kernel))

theorem allowed_while_polling :
    ¬ EveryStep (step shipped) (fun s e _ => RefusesFrom Node.sinceAnswered shipped s e) .initial
      (polling ++ [oneCall]) :=
  not_everyStep_of_observed
    (fun s _ => (s.nodes[0]?).any fun node =>
      decide (1 ≤ node.given (keyFor "sub_1" .route "res_1" 3600 s.now) +
        node.sinceAnswered (keyFor "sub_1" .route "res_1" 3600 s.now)) &&
      s.allows shipped node (keyFor "sub_1" .route "res_1" 3600 s.now) 1)
    (fun s _ hseen hrefuses => by
      obtain ⟨node, hnode, hseen⟩ := Option.any_eq_true _ _ |>.mp hseen
      simp only [Bool.and_eq_true, decide_eq_true_eq] at hseen
      have hrefused := hrefuses 0 "sub_1" .route "res_1" 3600 1 node rfl (by decide) hnode hseen.1
      rw [hseen.2] at hrefused
      cases hrefused)
    (by decide +kernel)

end Apim.Quota
