import Apim.DataPlane.Pinned

/-!
# Streams that are open

A WebSocket is admitted under the ceilings, and registered when its socket opens; what is opened,
resized or activated in between is not looked at again. An event stream is registered as it is
admitted, under the table its request came with. So a stream that is opened is within the ceilings
and is of an active subscription exactly where it would be admitted at that moment
(`streams_respect_iff`).
-/

namespace Apim.ConfigClient

open Apim.Trace

def Instance.OpenActive (s : Instance) : Prop :=
  ∀ config, s.history.activated = some config → ∀ stream ∈ s.streams.streams,
    ∀ id, stream.subscriptionId = some id → id ∈ config.active

/-- A stream that a step opens is within the ceilings in force, and no stream is open of a
subscription that has gone. -/
structure RespectsStreams (s next : Instance) : Prop where
  within : ∀ stream ∈ next.streams.streams, stream ∉ s.streams.streams →
    next.streams.Within stream.resourceId (next.unitInForce stream.resourceId)
  active : next.OpenActive

def Instance.opens (s : Instance) : Event → Option StreamRequest
  | .opened index => s.waiting index true
  | .sse index => ((s.waiting index false).filter (·.unit.sse)).filter fun request =>
      s.streams.admission request.resourceId (some request.unit) = .ok
  | _ => none

/-- A stream is opened where it would be admitted, for a subscription that is active. -/
def OpensInForce (s : Instance) (e : Event) : Prop :=
  ∀ request, s.opens e = some request →
    s.streams.admission request.resourceId (s.unitInForce request.resourceId) = .ok ∧
    ∀ config, s.history.activated = some config → ∀ id, request.subscriptionId = some id →
      id ∈ config.active

theorem run_streams {options : Options} {s next : Instance} {e : Event}
    (hrun : s.run options e = some next) :
    (∃ kind request, s.opens e = some request ∧ next.client = s.client ∧ next.history = s.history ∧
        next.streams = s.streams.opened kind request.resourceId request.subscriptionId) ∨
      (s.opens e = none ∧ next.streams.streams.Sublist s.streams.streams ∧
        next.streams.nextId = s.streams.nextId) := by
  cases e with
  | clock now =>
    cases hrun
    exact .inr ⟨rfl, List.Sublist.refl _, rfl⟩
  | poll answer =>
    simp only [Instance.run, Option.ite_none_right_eq_some, Option.some.injEq] at hrun
    obtain ⟨-, rfl⟩ := hrun
    by_cases hrejected : answer = .rejected
    · subst hrejected
      exact .inr ⟨rfl, List.nil_sublist _, rfl⟩
    · obtain ⟨client, candidate, heq, -⟩ := pollExclusive_spec options s hrejected
      rw [heq]
      exact .inr ⟨rfl, List.Sublist.refl _, rfl⟩
  | fetch bytes =>
    obtain ⟨candidate, -, hrun⟩ := Option.bind_eq_some_iff.mp hrun
    cases hrest : candidate.rest with
    | nil =>
      rw [hrest] at hrun
      cases hrun
    | cons key rest =>
      rw [hrest] at hrun
      cases hrun
      exact .inr ⟨rfl, List.Sublist.refl _, rfl⟩
  | prefetched =>
    obtain ⟨candidate, -, hrun⟩ := Option.bind_eq_some_iff.mp hrun
    simp only [Option.ite_none_right_eq_some, Option.some.injEq] at hrun
    obtain ⟨-, rfl⟩ := hrun
    exact .inr ⟨rfl, List.Sublist.refl _, rfl⟩
  | settle written =>
    obtain ⟨candidate, -, hrun⟩ := Option.bind_eq_some_iff.mp hrun
    simp only [Option.ite_none_right_eq_some] at hrun
    obtain ⟨-, hrun⟩ := hrun
    split at hrun
    · cases hrun
      exact .inr ⟨rfl, List.filter_sublist, rfl⟩
    · cases hrun
      exact .inr ⟨rfl, List.Sublist.refl _, rfl⟩
  | read key =>
    cases hrun
    exact .inr ⟨rfl, List.Sublist.refl _, rfl⟩
  | resize maxBytes =>
    cases hrun
    exact .inr ⟨rfl, List.Sublist.refl _, rfl⟩
  | request resourceId subscriptionId =>
    obtain ⟨requests, rfl⟩ := receive_eq_some hrun
    exact .inr ⟨rfl, List.Sublist.refl _, rfl⟩
  | upgrade index =>
    obtain ⟨request, -, rfl⟩ := Option.map_eq_some_iff.mp hrun
    unfold Instance.upgrade
    split <;> exact .inr ⟨rfl, List.Sublist.refl _, rfl⟩
  | opened index =>
    obtain ⟨request, hwaiting, rfl⟩ := Option.map_eq_some_iff.mp hrun
    exact .inl ⟨.websocket, request, hwaiting, rfl, rfl, rfl⟩
  | sse index =>
    obtain ⟨request, hwaiting, rfl⟩ := Option.map_eq_some_iff.mp hrun
    have hopens : s.opens (.sse index) = (some request).filter fun request =>
        s.streams.admission request.resourceId (some request.unit) = .ok :=
      congrArg (Option.filter _) hwaiting
    unfold Instance.sse
    by_cases hadmitted : s.streams.admission request.resourceId (some request.unit) = .ok
    · rw [if_pos hadmitted]
      exact .inl ⟨.sse, request, by simp [hopens, hadmitted], rfl, rfl, rfl⟩
    · rw [if_neg hadmitted]
      exact .inr ⟨by simp [hopens, hadmitted], List.Sublist.refl _, rfl⟩
  | dropped index =>
    cases hrun
    exact .inr ⟨rfl, List.Sublist.refl _, rfl⟩
  | closed id =>
    cases hrun
    exact .inr ⟨rfl, List.filter_sublist, rfl⟩
  | restart listing => cases hrun

theorem streams_restart (options : Options) (s : Instance) (listing : List (Key × File)) :
    (restart options s listing).streams.streams = [] := by
  unfold restart loadFromCache
  split
  · rfl
  · rfl
  · split
    · rfl
    · split <;> rfl

theorem openActive_restart (options : Options) (s : Instance) (listing : List (Key × File)) :
    (restart options s listing).OpenActive := by
  intro config _ stream hstream
  rw [streams_restart] at hstream
  cases hstream

theorem openActive_of_sublist {options : Options} {s next : Instance} {e : Event}
    (hs : s.OpenActive) (hrun : s.run options e = some next)
    (hsub : next.streams.streams.Sublist s.streams.streams) : next.OpenActive := by
  rcases run_cases hrun with ⟨-, -, rfl⟩ | ⟨written, candidate, -, -, -, rfl⟩ | hsteady
  · intro config _ stream hstream
    cases hstream
  · intro config hconfig stream hstream id hid
    cases hconfig
    have hkept := (List.mem_filter.mp hstream).2
    rw [hid] at hkept
    simpa using hkept
  · intro config hconfig stream hstream
    rw [hsteady.history] at hconfig
    exact hs config hconfig stream (hsub.subset hstream)

theorem numbered_step {options : Options} {s next : Instance} {e : Event}
    (hs : s.streams.Numbered) (h : step options s e = some next) : next.streams.Numbered := by
  rcases step_cases h with ⟨listing, -, -, rfl⟩ | ⟨-, -, hrun⟩
  · intro stream hstream
    rw [streams_restart] at hstream
    cases hstream
  · rcases run_streams hrun with ⟨kind, request, -, -, -, hstreams⟩ | ⟨-, hsub, hnext⟩
    · rw [hstreams]
      exact hs.opened kind request.resourceId request.subscriptionId
    · exact hs.sublist hsub hnext

theorem respectsStreams_step {options : Options} {s next : Instance} {e : Event}
    (hnumbered : s.streams.Numbered) (hs : s.OpenActive) (h : step options s e = some next) :
    RespectsStreams s next ↔ OpensInForce s e := by
  rcases step_cases h with ⟨listing, rfl, -, rfl⟩ | ⟨-, -, hrun⟩
  · refine iff_of_true ⟨fun stream hstream => ?_, openActive_restart options s listing⟩ nofun
    rw [streams_restart] at hstream
    cases hstream
  rcases run_streams hrun with ⟨kind, request, hopens, hclient, hhistory, hstreams⟩ |
    ⟨hopens, hsub, -⟩
  · have hunit : ∀ resourceId, next.unitInForce resourceId = s.unitInForce resourceId := by
      intro resourceId
      rw [Instance.unitInForce, Instance.unitInForce, hclient]
    have hmem : ∀ stream, stream ∈ next.streams.streams ↔ stream ∈ s.streams.streams ∨
        stream = ⟨s.streams.nextId, kind, request.resourceId, request.subscriptionId⟩ := by
      intro stream
      rw [hstreams]
      exact List.mem_append.trans (or_congr_right List.mem_singleton)
    -- The stream is new: its number was not given out before.
    have hnew : ⟨s.streams.nextId, kind, request.resourceId, request.subscriptionId⟩ ∉
        s.streams.streams := fun hold => absurd (hnumbered _ hold) (lt_irrefl _)
    simp only [OpensInForce, hopens, Option.some.injEq, forall_eq']
    rw [← StreamRegistry.within_opened_iff s.streams kind request.resourceId request.subscriptionId,
      ← hstreams]
    constructor
    · intro hrespects
      have hthere := (hmem _).mpr (.inr rfl)
      refine ⟨?_, fun config hconfig id hid => ?_⟩
      · rw [← hunit]
        exact hrespects.within _ hthere hnew
      · exact hrespects.active config (hhistory ▸ hconfig) _ hthere id hid
    · rintro ⟨hwithin, hactive⟩
      refine ⟨fun stream hstream hnot => ?_, fun config hconfig stream hstream id hid => ?_⟩
      · rcases (hmem stream).mp hstream with hold | rfl
        · exact absurd hold hnot
        · rw [hunit]
          exact hwithin
      · rw [hhistory] at hconfig
        rcases (hmem stream).mp hstream with hold | rfl
        · exact hs config hconfig stream hold id hid
        · exact hactive config hconfig id hid
  · refine iff_of_true ⟨fun stream hstream hnot => ?_, openActive_of_sublist hs hrun hsub⟩ ?_
    · exact absurd (hsub.subset hstream) hnot
    · intro request hrequest
      rw [hopens] at hrequest
      cases hrequest

theorem streams_respect_iff (options : Options) (file : CacheFile) (disk : List (Key × File))
    (events : List Event) :
    EveryStep (step options) (fun s _ next => RespectsStreams s next) (stopped options file disk)
        events ↔
      EveryStep (step options) (fun s e _ => OpensInForce s e) (stopped options file disk)
        events := by
  have hkept : ∀ s e next, s.streams.Numbered ∧ s.OpenActive → step options s e = some next →
      RespectsStreams s next → next.streams.Numbered ∧ next.OpenActive :=
    fun s e next hs h hrespects => ⟨numbered_step hs.1 h, hrespects.active⟩
  have hsame : ∀ s e next, s.streams.Numbered ∧ s.OpenActive → step options s e = some next →
      (RespectsStreams s next ↔ OpensInForce s e) :=
    fun s e next hs h => respectsStreams_step hs.1 hs.2 h
  refine everyStep_congr_of_kept hkept hsame ⟨?_, ?_⟩ events
  · intro stream hstream
    cases hstream
  · intro config hconfig
    cases hconfig

/-! ### A stream opened for a subscription that has gone -/

def acme : SubscriptionId := ⟨"sub_acme", by decide⟩

def live : ConfigRoute :=
  ⟨"res_live", "Live", ["prod_live"], ⟨"{}", true, some { websocket := true }⟩, []⟩

def listing (subscriptions : List SubscriptionId) : GatewayConfig :=
  ⟨6, "sha256:1", ⟨2048, 1024, 536870912⟩, [live],
    subscriptions.map fun id => ⟨id, "prod_live"⟩, []⟩

/-- A WebSocket is admitted for a subscription that the document activated before it opens does not
list. -/
def overtaken : List Event :=
  [.restart [], .poll (.ok 6 (.config (some (listing [acme])))), .prefetched, .settle .whole,
    .request "res_live" (some acme), .upgrade 0,
    .poll (.ok 6 (.config (some (listing [])))), .prefetched, .settle .whole]

theorem opened_after_revocation :
    ¬ EveryStep (step container) (fun s _ next => RespectsStreams s next)
      (stopped container .absent []) (overtaken ++ [.opened 0]) :=
  not_everyStep_of_observed
    (fun _ next => next.history.activated.any fun config => next.streams.streams.any fun stream =>
      stream.subscriptionId.any fun id => !decide (id ∈ config.active))
    (fun _ next hseen hrespects => by
      obtain ⟨config, hconfig, hseen⟩ := Option.any_eq_true _ _ |>.mp hseen
      obtain ⟨stream, hstream, hseen⟩ := List.any_eq_true.mp hseen
      obtain ⟨id, hid, hgone⟩ := Option.any_eq_true _ _ |>.mp hseen
      simp [hrespects.active config hconfig stream hstream id hid] at hgone)
    (by decide +kernel)

end Apim.ConfigClient
