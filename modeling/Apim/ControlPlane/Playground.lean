import Apim.Lib.Trace
import Apim.Shared.Routing
import Mathlib.Data.Nat.ModEq

/-!
# The broker of the Kafka playground

A produce of the playground (`control-plane/src/kafka.ts:243-267, 857-912`) and a read from an offset.
Every statement of the handler names the topic, so the rows are those of one topic, in the order of
their ids. The broker keeps the newest hundred, and computes both the next offset of a partition and
the next partition of an unkeyed record from what is kept; `given` has every record ever given out.
-/

namespace Apim.ControlPlane.Playground

open Trace Routing

structure Message where
  id : Nat
  partition : Nat
  offset : Nat
  key : Option String
  headers : List (String × String)
  value : String
  deriving DecidableEq

structure Broker where
  partitions : Nat
  messages : List Message := []
  nextId : Nat := 1

structure Body where
  partition : Option Int := none
  key : Option String := none
  headers : List (String × String) := []
  value : Option String

inductive Refusal where
  | partition
  | message
  | key
  | headers
  deriving DecidableEq

structure Request where
  partition : Option Nat
  key : Option String
  headers : List (String × String)
  value : String
  deriving DecidableEq

def PLAYGROUND_MAX_MESSAGES : Nat := 100

def PLAYGROUND_MAX_VALUE : Nat := 32768

def PLAYGROUND_MAX_HEADERS : Nat := 20

/-- `partitionFor` (`control-plane/src/kafka.ts:248-252`), over 32-bit integers. -/
def partitionFor (key : String) (partitions : Nat) : Nat :=
  (key.toList.foldl (fun (hash : BitVec 32) c => hash * 31 + BitVec.ofNat 32 c.toNat) 0).toInt.natAbs
    % partitions

def readHeaders (entries : List (String × String)) : Except Refusal (List (String × String)) :=
  let headers := (entries.map fun e => (String.ofList (trim e.1.toList), e.2)).filter (·.1 ≠ "")
  if headers.length > PLAYGROUND_MAX_HEADERS then .error .headers
  else if headers.any fun h =>
      utf16Length h.1.toList > 200 || utf16Length h.2.toList > 2000 then .error .headers
  else .ok headers

def Broker.choosePartition (t : Broker) : Option Int → Except Refusal (Option Nat)
  | none => .ok none
  | some p => if p < 0 ∨ (t.partitions : Int) ≤ p then .error .partition else .ok (some p.toNat)

def Broker.check (t : Broker) (body : Body) : Except Refusal Request := do
  let partition ← t.choosePartition body.partition
  let value ← match body.value with
    | some value =>
      if utf16Length value.toList > PLAYGROUND_MAX_VALUE then .error .message else .ok value
    | none => .error .message
  let key := body.key.filter (· ≠ "")
  if key.any fun k => utf16Length k.toList > 1024 then .error .key
  else
    let headers ← readHeaders body.headers
    .ok ⟨partition, key, headers, value⟩

def Broker.target (t : Broker) (q : Request) : Nat :=
  match q.partition, q.key with
  | some partition, _ => partition
  | none, some key => partitionFor key t.partitions
  | none, none => t.messages.length % t.partitions

def Broker.nextOffset (t : Broker) (partition : Nat) : Nat :=
  match ((t.messages.filter (·.partition == partition)).map (·.offset)).max? with
  | some offset => offset + 1
  | none => 0

def Broker.record (t : Broker) (q : Request) : Message :=
  ⟨t.nextId, t.target q, t.nextOffset (t.target q), q.key, q.headers, q.value⟩

def Broker.insert (t : Broker) (q : Request) : Broker :=
  let rows := t.messages ++ [t.record q]
  { t with messages := rows.drop (rows.length - 100), nextId := t.nextId + 1 }

/-- A read of one partition from an offset (`control-plane/src/kafka.ts:914-957`). -/
def Broker.readFrom (t : Broker) (partition offset limit : Nat) : List Message :=
  (t.messages.filter fun m => m.partition == partition && decide (offset ≤ m.offset)).take
    (min limit PLAYGROUND_MAX_MESSAGES)

/-! ### Histories -/

/-- A record that was given out, with its request and the partitions the topic had. -/
structure Produced where
  record : Message
  request : Request
  partitions : Nat
  deriving DecidableEq

structure History where
  broker : Broker
  given : List Produced := []

inductive Event where
  | produce (body : Body)
  | grow (partitions : Nat)

def History.produce (s : History) (q : Request) : History :=
  ⟨s.broker.insert q, s.given ++ [⟨s.broker.record q, q, s.broker.partitions⟩]⟩

/-- A produce, or an edit of the number of partitions (`control-plane/src/kafka.ts:466-470`). What is
refused changes nothing. -/
def step (s : History) : Event → Option History
  | .produce body => match s.broker.check body with
    | .ok q => some (s.produce q)
    | .error _ => some s
  | .grow partitions =>
    if partitions < s.broker.partitions ∨ 100 < partitions then some s
    else some { s with broker.partitions := partitions }

def Request.Keyed (q : Request) (key : String) : Prop := q.partition = none ∧ q.key = some key

def Request.Unkeyed (q : Request) : Prop := q.partition = none ∧ q.key = none

instance (q : Request) : Decidable q.Unkeyed := inferInstanceAs (Decidable (_ ∧ _))

/-- The next record may come behind those given out: its offset is beyond all of its partition, it is
with the records of its key, and in turn behind an unkeyed one. -/
structure Follows (given : List Produced) (r : Produced) : Prop where
  rises : ∀ m ∈ given, m.record.partition = r.record.partition → m.record.offset < r.record.offset
  together : ∀ m ∈ given, ∀ key, m.request.Keyed key → r.request.Keyed key →
    m.partitions = r.partitions → m.record.partition = r.record.partition
  inTurn : ∀ m ∈ given.getLast?, m.request.Unkeyed → r.request.Unkeyed →
    m.partitions = r.partitions → r.record.partition = (m.record.partition + 1) % r.partitions

/-- No read from an offset returns a record produced before one that the offset is past. -/
def History.NeverBack (s : History) : Prop :=
  ∀ m ∈ s.given, ∀ offset limit, m.record.offset < offset →
    ∀ r ∈ s.broker.readFrom m.record.partition offset limit, m.record.id < r.id

structure Ordered (s : History) (_ : Event) (next : History) : Prop where
  follows : ∀ r, next.given = s.given ++ [r] → Follows s.given r
  neverBack : next.NeverBack

/-- The partition of the record still holds one or never did, and an unkeyed record behind another one
comes before any record has been dropped, unless there is one partition only. -/
structure Spared (s : History) (q : Request) : Prop where
  held : (∃ m ∈ s.broker.messages, m.partition = s.broker.target q) ∨
    ∀ m ∈ s.given, m.record.partition ≠ s.broker.target q
  early : q.Unkeyed → ∀ m ∈ s.given.getLast?, m.request.Unkeyed →
    m.partitions = s.broker.partitions → s.broker.partitions = 1 ∨ s.given.length ≤ 100

def SparedBy (s : History) (e : Event) (_ : History) : Prop :=
  ∀ body q, e = .produce body → s.broker.check body = .ok q → Spared s q

/-! ### What is kept of a history -/

def Before (a b : Produced) : Prop :=
  a.record.id < b.record.id ∧ (a.record.partition = b.record.partition → a.record.offset < b.record.offset)

structure Kept (s : History) : Prop where
  newest : s.broker.messages = (s.given.map (·.record)).drop (s.given.length - 100)
  before : s.given.Pairwise Before
  ids : ∀ m ∈ s.given, m.record.id < s.broker.nextId
  hashed : ∀ m ∈ s.given, ∀ key, m.request.Keyed key →
    m.record.partition = partitionFor key m.partitions
  turned : ∀ m ∈ s.given.getLast?, m.request.Unkeyed →
    m.record.partition = min (s.given.length - 1) 100 % m.partitions

variable {s : History}

theorem Kept.length (hs : Kept s) : s.broker.messages.length = min s.given.length 100 := by
  rw [hs.newest, List.length_drop, List.length_map]
  omega

theorem Kept.mem_given (hs : Kept s) {r : Message} (hr : r ∈ s.broker.messages) :
    ∃ m ∈ s.given, m.record = r := by
  rw [hs.newest] at hr
  exact List.mem_map.mp (List.mem_of_mem_drop hr)

theorem Kept.neverBack (hs : Kept s) : s.NeverBack := by
  intro m hm offset limit hpast r hr
  obtain ⟨hrow, hread⟩ := List.mem_filter.mp (List.mem_of_mem_take hr)
  rw [Bool.and_eq_true, beq_iff_eq, decide_eq_true_eq] at hread
  obtain ⟨hpartition, hoffset⟩ := hread
  obtain ⟨n, hn, rfl⟩ := hs.mem_given hrow
  have horder : m = n ∨ Before m n ∨ Before n m := by
    refine List.Pairwise.forall_of_forall_of_flip (R := fun a b => a = b ∨ Before a b ∨ Before b a)
      (fun a _ => .inl rfl) (hs.before.imp fun hab => .inr (.inl hab))
      (hs.before.imp fun hab => .inr (.inr hab)) hm hn
  obtain rfl | hmn | hnm := horder
  · omega
  · exact hmn.1
  · have hless := hnm.2 hpartition
    omega

/-! ### One produce -/

theorem le_nextOffset (t : Broker) {m : Message} (hm : m ∈ t.messages) :
    m.offset < t.nextOffset m.partition := by
  have hmem : m.offset ∈ (t.messages.filter (·.partition == m.partition)).map (·.offset) :=
    List.mem_map_of_mem (List.mem_filter.mpr ⟨hm, beq_self_eq_true _⟩)
  cases hmax : ((t.messages.filter (·.partition == m.partition)).map (·.offset)).max? with
  | none =>
    rw [List.max?_eq_none_iff.mp hmax] at hmem
    exact absurd hmem List.not_mem_nil
  | some offset =>
    have hle := (List.max?_eq_some_iff.mp hmax).2 m.offset hmem
    simp only [Broker.nextOffset, hmax]
    omega

theorem nextOffset_of_none_kept (t : Broker) {partition : Nat}
    (hnone : ∀ m ∈ t.messages, m.partition ≠ partition) : t.nextOffset partition = 0 := by
  have hrows : t.messages.filter (·.partition == partition) = [] :=
    List.filter_eq_nil_iff.mpr fun m hm => by simpa using hnone m hm
  simp [Broker.nextOffset, hrows]

theorem rises_iff (hs : Kept s) (partition : Nat) :
    (∀ m ∈ s.given, m.record.partition = partition →
        m.record.offset < s.broker.nextOffset partition) ↔
      (∃ m ∈ s.broker.messages, m.partition = partition) ∨
        ∀ m ∈ s.given, m.record.partition ≠ partition := by
  constructor
  · intro hrises
    by_contra hlost
    rw [not_or] at hlost
    obtain ⟨hnone, hsome⟩ := hlost
    push Not at hnone hsome
    obtain ⟨m, hm, hpartition⟩ := hsome
    have hzero := nextOffset_of_none_kept s.broker hnone
    have hless := hrises m hm hpartition
    omega
  · intro hheld m hm hpartition
    obtain ⟨k, hk, hin⟩ | hnever := hheld
    · subst hin
      have hnext := le_nextOffset s.broker hk
      have hsplit := List.take_append_drop (s.given.length - 100) s.given
      rw [hs.newest, ← List.map_drop] at hk
      obtain ⟨n, hn, rfl⟩ := List.mem_map.mp hk
      rw [← hsplit] at hm
      obtain hdropped | hkept := List.mem_append.mp hm
      -- what was dropped lies before what is kept
      · have hbefore := (List.pairwise_append.mp (hsplit ▸ hs.before)).2.2 m hdropped n hn
        exact (hbefore.2 hpartition).trans hnext
      · have hrow : m.record ∈ s.broker.messages := by
          rw [hs.newest, ← List.map_drop]
          exact List.mem_map_of_mem hkept
        have hown := le_nextOffset s.broker hrow
        rwa [hpartition] at hown
    · exact absurd hpartition (hnever m hm)

theorem succ_mod_eq_iff (a n : Nat) : (a % n + 1) % n = a % n ↔ n = 1 := by
  constructor
  · intro h
    rw [Nat.mod_add_mod] at h
    have hone := Nat.sub_mod_eq_zero_of_mod_eq h
    rw [Nat.add_sub_cancel_left] at hone
    exact Nat.dvd_one.mp (Nat.dvd_of_mod_eq_zero hone)
  · rintro rfl
    simp [Nat.mod_one]

variable {q : Request}

theorem target_of_keyed (t : Broker) {key : String} (hq : q.Keyed key) :
    t.target q = partitionFor key t.partitions := by
  obtain ⟨hpartition, hkey⟩ := hq
  simp only [Broker.target, hpartition, hkey]

theorem target_of_unkeyed (t : Broker) (hq : q.Unkeyed) :
    t.target q = t.messages.length % t.partitions := by
  obtain ⟨hpartition, hkey⟩ := hq
  simp only [Broker.target, hpartition, hkey]

theorem inTurn_iff (hs : Kept s) (hq : q.Unkeyed) {m : Produced} (hm : m ∈ s.given.getLast?)
    (hlast : m.request.Unkeyed) (hcount : m.partitions = s.broker.partitions) :
    s.broker.target q = (m.record.partition + 1) % s.broker.partitions ↔
      s.broker.partitions = 1 ∨ s.given.length ≤ 100 := by
  have hgiven : s.given ≠ [] := by
    rintro hnil
    simp [hnil] at hm
  have hpos : 0 < s.given.length := List.length_pos_iff.mpr hgiven
  rw [target_of_unkeyed s.broker hq, hs.length, hs.turned m hm hlast, hcount]
  by_cases hearly : s.given.length ≤ 100
  · have hnow : min s.given.length 100 = s.given.length - 1 + 1 := by omega
    have hthen : min (s.given.length - 1) 100 = s.given.length - 1 := by omega
    rw [hnow, hthen, Nat.mod_add_mod]
    simp [hearly]
  · have hnow : min s.given.length 100 = 100 := by omega
    have hthen : min (s.given.length - 1) 100 = 100 := by omega
    rw [hnow, hthen, eq_comm, succ_mod_eq_iff]
    simp [hearly]

theorem follows_iff (hs : Kept s) (q : Request) :
    Follows s.given ⟨s.broker.record q, q, s.broker.partitions⟩ ↔ Spared s q := by
  constructor
  · intro h
    refine ⟨(rises_iff hs _).mp h.rises, fun hq m hm hlast hcount => ?_⟩
    exact (inTurn_iff hs hq hm hlast hcount).mp (h.inTurn m hm hlast hq hcount)
  · intro h
    refine ⟨(rises_iff hs _).mpr h.held, fun m hm key hkeyed hq hcount => ?_,
      fun m hm hlast hq hcount => ?_⟩
    · have hthen := hs.hashed m hm key hkeyed
      have hnow := target_of_keyed s.broker hq
      rw [hthen, show m.partitions = s.broker.partitions from hcount]
      exact hnow.symm
    · exact (inTurn_iff hs hq hm hlast hcount).mpr (h.early hq m hm hlast hcount)

theorem insert_newest (hs : Kept s) (q : Request) :
    (s.broker.insert q).messages =
      ((s.produce q).given.map (·.record)).drop ((s.produce q).given.length - 100) := by
  have hlength := hs.length
  simp only [Broker.insert, History.produce, List.map_append, List.map_cons, List.map_nil,
    List.length_append, List.length_cons, List.length_nil]
  rw [hlength, hs.newest]
  by_cases hfull : s.given.length < 100
  · have hbefore : s.given.length - 100 = 0 := by omega
    have hrows : min s.given.length 100 + (0 + 1) - 100 = 0 := by omega
    have hall : s.given.length + (0 + 1) - 100 = 0 := by omega
    rw [hbefore, hrows, hall]
    rfl
  · have hrows : min s.given.length 100 + (0 + 1) - 100 = 1 := by omega
    have hall : s.given.length + (0 + 1) - 100 = (s.given.length - 100) + 1 := by omega
    rw [hrows, hall, ← List.drop_drop,
      List.drop_append_of_le_length (i := s.given.length - 100) (by rw [List.length_map]; omega)]

theorem Kept.produce (hs : Kept s)
    (hfollows : Follows s.given ⟨s.broker.record q, q, s.broker.partitions⟩) :
    Kept (s.produce q) where
  newest := insert_newest hs q
  before := by
    refine List.pairwise_append.mpr ⟨hs.before, List.pairwise_singleton _ _, fun a ha b hb => ?_⟩
    obtain rfl := List.mem_singleton.mp hb
    exact ⟨hs.ids a ha, hfollows.rises a ha⟩
  ids := by
    intro m hm
    obtain hold | hnew := List.mem_append.mp hm
    · exact (hs.ids m hold).trans (Nat.lt_succ_self _)
    · obtain rfl := List.mem_singleton.mp hnew
      exact Nat.lt_succ_self _
  hashed := by
    intro m hm key hkeyed
    obtain hold | hnew := List.mem_append.mp hm
    · exact hs.hashed m hold key hkeyed
    · obtain rfl := List.mem_singleton.mp hnew
      exact target_of_keyed s.broker hkeyed
  turned := by
    intro m hm hunkeyed
    have hlast : (s.produce q).given.getLast? = some ⟨s.broker.record q, q, s.broker.partitions⟩ :=
      List.getLast?_concat
    obtain rfl := Option.some.inj (hlast.symm.trans hm)
    have hlength : (s.produce q).given.length - 1 = s.given.length := by simp [History.produce]
    have htarget := target_of_unkeyed s.broker hunkeyed
    rw [hs.length] at htarget
    rw [hlength]
    exact htarget

/-! ### Runs -/

theorem Kept.grow (hs : Kept s) (partitions : Nat) :
    Kept { s with broker.partitions := partitions } :=
  ⟨hs.newest, hs.before, hs.ids, hs.hashed, hs.turned⟩

theorem step_cases {next : History} {e : Event} (h : step s e = some next) :
    (∃ body q, e = .produce body ∧ s.broker.check body = .ok q ∧ next = s.produce q) ∨
      ((∀ body q, e = .produce body → s.broker.check body ≠ .ok q) ∧ next.given = s.given ∧
        ∃ partitions, next = { s with broker.partitions := partitions }) := by
  cases e with
  | produce body =>
    cases hcheck : s.broker.check body with
    | ok q =>
      simp only [step, hcheck, Option.some.injEq] at h
      exact .inl ⟨body, q, rfl, hcheck, h.symm⟩
    | error refusal =>
      simp only [step, hcheck, Option.some.injEq] at h
      subst h
      refine .inr ⟨fun body' q hbody => ?_, rfl, s.broker.partitions, rfl⟩
      cases hbody
      rw [hcheck]
      exact fun hok => nomatch hok
  | grow partitions =>
    have hnone : ∀ body q, Event.grow partitions = .produce body → s.broker.check body ≠ .ok q := by
      intro body q hbody
      cases hbody
    simp only [step] at h
    split at h
    · cases h
      exact .inr ⟨hnone, rfl, s.broker.partitions, rfl⟩
    · cases h
      exact .inr ⟨hnone, rfl, partitions, rfl⟩

theorem Kept.step {next : History} {e : Event} (hs : Kept s) (h : step s e = some next)
    (hlaw : Ordered s e next) : Kept next := by
  obtain ⟨body, q, rfl, hcheck, rfl⟩ | ⟨-, -, partitions, rfl⟩ := step_cases h
  · exact hs.produce (hlaw.follows _ rfl)
  · exact hs.grow partitions

theorem ordered_iff_spared {next : History} {e : Event} (hs : Kept s) (h : step s e = some next) :
    Ordered s e next ↔ SparedBy s e next := by
  obtain ⟨body, q, rfl, hcheck, rfl⟩ | ⟨hnone, hgiven, partitions, rfl⟩ := step_cases h
  · constructor
    · intro hlaw body' q' hbody hcheck'
      cases hbody
      obtain rfl : q = q' := Except.ok.inj (hcheck.symm.trans hcheck')
      exact (follows_iff hs q).mp (hlaw.follows _ rfl)
    · intro hspared
      have hfollows := (follows_iff hs q).mpr (hspared body q rfl hcheck)
      refine ⟨fun r hr => ?_, (hs.produce hfollows).neverBack⟩
      obtain rfl := List.cons.inj (List.append_cancel_left (hr : s.given ++ [_] = s.given ++ [r])) |>.1
      exact hfollows
  · constructor
    · exact fun _ body q hbody hcheck => absurd hcheck (hnone body q hbody)
    · intro _
      refine ⟨fun r hr => ?_, (hs.grow partitions).neverBack⟩
      have hlength := congrArg List.length hr
      simp at hlength

/-- In every sequence of produces to an empty topic of at least one partition, the records are in order
exactly where each produce is spared. -/
theorem offsets_along_runs_iff (partitions : Nat) (events : List Event) :
    EveryStep step Ordered ⟨{ partitions }, []⟩ events ↔
      EveryStep step SparedBy ⟨{ partitions }, []⟩ events := by
  have hstart : Kept ⟨{ partitions }, []⟩ :=
    ⟨rfl, List.Pairwise.nil, List.forall_mem_nil _, List.forall_mem_nil _, fun m hm => nomatch hm⟩
  exact everyStep_congr_of_kept (P := Ordered) (Q := SparedBy)
    (fun s e next hs h hlaw => Kept.step hs h hlaw)
    (fun s e next hs h => ordered_iff_spared hs h) hstart events

/-- The last record given out is no further than one that came before it in its partition. -/
def fellBack (s next : History) : Bool :=
  match next.given.getLast? with
  | some r => decide (next.given = s.given ++ [r]) && s.given.any fun m =>
      m.record.partition == r.record.partition && decide (r.record.offset ≤ m.record.offset)
  | none => false

theorem not_ordered_of_fellBack {next : History} {e : Event} (h : fellBack s next = true) :
    ¬ Ordered s e next := by
  intro hlaw
  unfold fellBack at h
  split at h
  · rename_i r hr
    rw [Bool.and_eq_true, decide_eq_true_eq, List.any_eq_true] at h
    obtain ⟨hgiven, m, hm, hback⟩ := h
    rw [Bool.and_eq_true, beq_iff_eq, decide_eq_true_eq] at hback
    have hrises := (hlaw.follows r hgiven).rises m hm hback.1
    exact absurd hrises (Nat.not_lt.mpr hback.2)
  · exact absurd h Bool.false_ne_true

/-- A record of partition 1, a hundred of partition 0, and the next of partition 1. -/
theorem offset_given_again : ¬ ∀ partitions events,
    EveryStep step Ordered ⟨{ partitions }, []⟩ events := by
  intro h
  exact not_everyStep_of_observed fellBack (fun s next hbad => not_ordered_of_fellBack hbad)
    (by decide +kernel) (h 2 ((.produce ⟨some 1, none, [], some "a"⟩ ::
      List.replicate 100 (.produce ⟨some 0, none, [], some "b"⟩)) ++
        [.produce ⟨some 1, none, [], some "c"⟩]))

end Apim.ControlPlane.Playground
