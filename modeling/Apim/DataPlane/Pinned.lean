import Apim.DataPlane.Revocation

/-!
# What the served document needs

Prefetching a candidate pins what the candidate refers to before anything says whether it will be
served, and a start from the file pins nothing, so the ceiling may take what the served document
began with. It does so exactly where an enforcement does not spare it (`keeps_begun_iff`).
-/

namespace Apim.ConfigClient

open Apim.Trace ArtifactCache

/-- Everything the served document referred to and had when it began to be served is there. -/
def Instance.KeepsBegun (s : Instance) : Prop :=
  ∀ key ∈ s.history.began, s.cache.available key = true

def foundOnDisk (config : GatewayConfig) (listing : List (Key × File)) : List Key :=
  config.references.filter (indexDisk listing 0).available

/-- The enforcements that do not concern an activation spare what the served document began with:
with the pins of the candidate, under the new ceiling, and with no pins at a start. -/
def SparesBegun (options : Options) (s : Instance) : Event → Prop
  | .prefetched => ∀ candidate, s.candidate = some candidate →
      { s.cache with pinned := candidate.config.references }.Spares s.history.began
  | .resize maxBytes => { s.cache with maxBytes := maxBytes }.Spares s.history.began
  | .restart listing => ∀ config, cachedDocument options s.file = some config →
      settingsBlocker options config.settings = none →
      (indexDisk listing config.settings.artifactCacheMaxBytes).Spares (foundOnDisk config listing)
  | _ => True

def Instance.PinsCandidate (s : Instance) : Prop :=
  ∀ candidate, s.candidate = some candidate → candidate.prefetched = true →
    s.cache.pinned = candidate.config.references

structure Grows (s next : Instance) : Prop where
  pinned : next.cache.pinned = s.cache.pinned
  available : ∀ key, s.cache.available key = true → next.cache.available key = true
  candidate : ∀ c, next.candidate = some c → c.prefetched = true →
    ∃ c', s.candidate = some c' ∧ c'.prefetched = true ∧ c'.config = c.config

theorem Grows.of_eq {s next : Instance} (hcache : next.cache = s.cache)
    (hcandidate : next.candidate = s.candidate) : Grows s next := by
  refine ⟨by rw [hcache], fun key h => by rwa [hcache], fun c hc hprefetched => ?_⟩
  exact ⟨c, hcandidate ▸ hc, hprefetched, rfl⟩

theorem run_cache {options : Options} {s next : Instance} {e : Event}
    (hrun : s.run options e = some next) :
    (∃ candidate, e = .prefetched ∧ s.candidate = some candidate ∧
        next.cache = s.cache.pin candidate.config.references ∧
        next.candidate = some { candidate with prefetched := true }) ∨
      (∃ maxBytes, e = .resize maxBytes ∧ next.cache = s.cache.resize maxBytes ∧
        next.candidate = s.candidate) ∨
      (∃ written candidate, e = .settle written ∧ s.candidate = some candidate ∧
        candidate.prefetched = true ∧
        next = activate { s with candidate := none } candidate.config written) ∨
      (Grows s next ∧ e ≠ .prefetched ∧ ∀ maxBytes, e ≠ .resize maxBytes) := by
  cases e with
  | clock now =>
    cases hrun
    exact .inr (.inr (.inr ⟨.of_eq rfl rfl, by simp, by simp⟩))
  | poll answer =>
    simp only [Instance.run, Option.ite_none_right_eq_some, Option.some.injEq] at hrun
    obtain ⟨hidle, rfl⟩ := hrun
    refine .inr (.inr (.inr ⟨?_, by simp, by simp⟩))
    by_cases hrejected : answer = .rejected
    · subst hrejected
      exact .of_eq rfl rfl
    · obtain ⟨client, candidate, heq, -, -, hcandidate⟩ := pollExclusive_spec options s hrejected
      rw [heq]
      refine ⟨rfl, fun _ => id, fun c hc hprefetched => ?_⟩
      rcases hcandidate c hc with hold | ⟨hnot, -⟩
      · exact ⟨c, hold, hprefetched, rfl⟩
      · rw [hprefetched] at hnot
        cases hnot
  | fetch bytes =>
    obtain ⟨candidate, hcandidate, hrun⟩ := Option.bind_eq_some_iff.mp hrun
    cases hrest : candidate.rest with
    | nil =>
      rw [hrest] at hrun
      cases hrun
    | cons key rest =>
      rw [hrest] at hrun
      cases hrun
      obtain ⟨hpinned, hkept, -⟩ := s.cache.fetch_spec key bytes s.now
      refine .inr (.inr (.inr ⟨⟨hpinned, hkept, fun c hc hprefetched => ?_⟩, by simp, by simp⟩))
      cases hc
      exact ⟨candidate, hcandidate, hprefetched, rfl⟩
  | prefetched =>
    obtain ⟨candidate, hcandidate, hrun⟩ := Option.bind_eq_some_iff.mp hrun
    simp only [Option.ite_none_right_eq_some, Option.some.injEq] at hrun
    obtain ⟨-, rfl⟩ := hrun
    exact .inl ⟨candidate, rfl, hcandidate, rfl, rfl⟩
  | settle written =>
    rcases run_cases hrun with ⟨he, -⟩ | hactivated | -
    · cases he
    · exact .inr (.inr (.inl hactivated))
    · obtain ⟨candidate, hcandidate, hrun⟩ := Option.bind_eq_some_iff.mp hrun
      simp only [Option.ite_none_right_eq_some] at hrun
      obtain ⟨hprefetched, hrun⟩ := hrun
      by_cases hmissing : candidate.missing.isEmpty = true
      · rw [if_pos hmissing] at hrun
        cases hrun
        exact .inr (.inr (.inl ⟨written, candidate, rfl, hcandidate, hprefetched, rfl⟩))
      · rw [if_neg hmissing] at hrun
        cases hrun
        exact .inr (.inr (.inr ⟨⟨rfl, fun _ => id, by rintro c ⟨⟩⟩, by simp, by simp⟩))
  | read key =>
    cases hrun
    obtain ⟨-, hpinned, hsame⟩ := s.cache.read_spec key s.now
    refine .inr (.inr (.inr ⟨⟨hpinned, fun k hk => ?_, fun c hc hprefetched => ?_⟩, by simp, by simp⟩))
    · exact (hsame k).trans hk
    · exact ⟨c, hc, hprefetched, rfl⟩
  | resize maxBytes =>
    cases hrun
    exact .inr (.inl ⟨maxBytes, rfl, rfl, rfl⟩)
  | request resourceId subscriptionId =>
    obtain ⟨requests, rfl⟩ := receive_eq_some hrun
    exact .inr (.inr (.inr ⟨.of_eq rfl rfl, by simp, by simp⟩))
  | upgrade index =>
    obtain ⟨request, -, rfl⟩ := Option.map_eq_some_iff.mp hrun
    unfold Instance.upgrade
    split <;> exact .inr (.inr (.inr ⟨.of_eq rfl rfl, by simp, by simp⟩))
  | opened index =>
    obtain ⟨request, -, rfl⟩ := Option.map_eq_some_iff.mp hrun
    exact .inr (.inr (.inr ⟨.of_eq rfl rfl, by simp, by simp⟩))
  | sse index =>
    obtain ⟨request, -, rfl⟩ := Option.map_eq_some_iff.mp hrun
    unfold Instance.sse
    split <;> exact .inr (.inr (.inr ⟨.of_eq rfl rfl, by simp, by simp⟩))
  | dropped index =>
    cases hrun
    exact .inr (.inr (.inr ⟨.of_eq rfl rfl, by simp, by simp⟩))
  | closed id =>
    cases hrun
    exact .inr (.inr (.inr ⟨.of_eq rfl rfl, by simp, by simp⟩))
  | restart listing => cases hrun

theorem pinsCandidate_step {options : Options} {s next : Instance} {e : Event}
    (hs : s.PinsCandidate) (h : step options s e = some next) : next.PinsCandidate := by
  rcases step_cases h with ⟨listing, -, -, rfl⟩ | ⟨-, -, hrun⟩
  · intro candidate hcandidate
    rw [restart, candidate_loadFromCache] at hcandidate
    cases hcandidate
  intro c hc hprefetched
  rcases run_cache hrun with ⟨candidate, -, -, hcache, hnext⟩ | ⟨maxBytes, -, hcache, hnext⟩ |
    ⟨written, candidate, -, -, -, rfl⟩ | ⟨hgrows, -, -⟩
  · obtain rfl := Option.some.inj (hnext.symm.trans hc)
    rw [hcache, pinned_pin]
  · rw [hcache, pinned_resize]
    exact hs c (hnext ▸ hc) hprefetched
  · cases hc
  · obtain ⟨c', hc', hprefetched', hconfig⟩ := hgrows.candidate c hc hprefetched
    rw [hgrows.pinned, hs c' hc' hprefetched', hconfig]

theorem keepsBegun_restart_iff (options : Options) (s : Instance) (listing : List (Key × File)) :
    (restart options s listing).KeepsBegun ↔ SparesBegun options s (.restart listing) := by
  unfold Instance.KeepsBegun SparesBegun restart loadFromCache cachedDocument
  cases hfile : s.file with
  | absent => simp
  | unreadable => simp
  | config config =>
    by_cases hversion : config.configVersion = options.wireVersion
    · have hfound : ∀ maxBytes, ∀ k ∈ foundOnDisk config listing,
          (indexDisk listing maxBytes).available k = true :=
        fun _ k hk => (List.mem_filter.mp hk).2
      simp only [hversion, ne_eq, not_true_eq_false, if_false, if_true, Option.some.injEq,
        forall_eq']
      cases hblocker : settingsBlocker options config.settings with
      | some refused =>
        refine iff_of_true (fun k hk => ?_) nofun
        exact (List.mem_filter.mp hk).2
      | none =>
        simp only [true_imp_iff]
        exact keeps_enforceCeiling_iff _ (hfound config.settings.artifactCacheMaxBytes)
    · simp [hversion]

theorem keepsBegun_activate {s : Instance} {candidate : Candidate} (hs : s.PinsCandidate)
    (hcandidate : s.candidate = some candidate) (hprefetched : candidate.prefetched = true)
    (written : Written) :
    (activate { s with candidate := none } candidate.config written).KeepsBegun := by
  have hpinned := hs candidate hcandidate hprefetched
  have hspares : { s.cache with maxBytes := candidate.config.settings.artifactCacheMaxBytes }.Spares
      (candidate.config.references.filter s.cache.available) := by
    refine spares_of_pinned fun k hk => ?_
    rw [hpinned]
    exact (List.mem_filter.mp hk).1
  refine (keeps_enforceCeiling_iff _ fun k hk => ?_).mpr hspares
  exact (List.mem_filter.mp hk).2

theorem keepsBegun_step {options : Options} {s next : Instance} {e : Event}
    (hpins : s.PinsCandidate) (hs : s.KeepsBegun) (h : step options s e = some next) :
    next.KeepsBegun ↔ SparesBegun options s e := by
  rcases step_cases h with ⟨listing, rfl, -, rfl⟩ | ⟨hrestart, -, hrun⟩
  · exact keepsBegun_restart_iff options s listing
  rcases run_cache hrun with ⟨candidate, rfl, hcandidate, hcache, -⟩ | ⟨maxBytes, rfl, hcache, -⟩ |
    ⟨written, candidate, rfl, hcandidate, hprefetched, rfl⟩ | ⟨hgrows, hprefetch, hresize⟩
  · rcases run_cases hrun with ⟨he, -⟩ | ⟨_, _, he, -⟩ | hsteady
    · cases he
    · cases he
    · simp only [Instance.KeepsBegun, SparesBegun, hsteady.history, hcache, hcandidate,
        Option.some.injEq, forall_eq']
      exact keeps_enforceCeiling_iff { s.cache with pinned := _ } hs
  · rcases run_cases hrun with ⟨he, -⟩ | ⟨_, _, he, -⟩ | hsteady
    · cases he
    · cases he
    · simp only [Instance.KeepsBegun, SparesBegun, hsteady.history, hcache]
      exact keeps_enforceCeiling_iff { s.cache with maxBytes := maxBytes } hs
  · exact iff_of_true (keepsBegun_activate hpins hcandidate hprefetched written) trivial
  · have hspares : SparesBegun options s e := by
      cases e with
      | prefetched => exact absurd rfl hprefetch
      | resize maxBytes => exact absurd rfl (hresize maxBytes)
      | restart listing => exact absurd rfl (hrestart listing)
      | _ => trivial
    refine iff_of_true ?_ hspares
    rcases run_cases hrun with ⟨-, -, rfl⟩ | ⟨written, candidate, -, hcandidate, hprefetched, rfl⟩ |
      hsteady
    · exact nofun
    · exact keepsBegun_activate hpins hcandidate hprefetched written
    · intro key hkey
      rw [hsteady.history] at hkey
      exact hgrows.available key (hs key hkey)

theorem keeps_begun_iff (options : Options) (file : CacheFile) (disk : List (Key × File))
    (events : List Event) :
    EveryStep (step options) (fun _ _ next => next.KeepsBegun) (stopped options file disk) events ↔
      EveryStep (step options) (fun s e _ => SparesBegun options s e)
        (stopped options file disk) events := by
  have hkept : ∀ s e next, s.PinsCandidate ∧ s.KeepsBegun → step options s e = some next →
      next.KeepsBegun → next.PinsCandidate ∧ next.KeepsBegun :=
    fun s e next hs h hkeeps => ⟨pinsCandidate_step hs.1 h, hkeeps⟩
  have hsame : ∀ s e next, s.PinsCandidate ∧ s.KeepsBegun → step options s e = some next →
      (next.KeepsBegun ↔ SparesBegun options s e) :=
    fun s e next hs h => keepsBegun_step hs.1 hs.2 h
  exact everyStep_congr_of_kept hkept hsame
    ⟨fun c hc => (by cases hc), fun k hk => absurd hk List.not_mem_nil⟩ events

/-! ### A candidate that is not activated takes the served document's schemas -/

def validated (digest : String) : ConfigRoute :=
  ⟨"res_orders", "Orders", [], ⟨"{}", false, none⟩, [digest]⟩

def document (digests : List String) (ceiling : Nat) : GatewayConfig :=
  ⟨6, "sha256:1", ⟨2048, 1024, ceiling⟩, digests.map validated, [], []⟩

/-- A document is served with a ceiling of 1 MiB; a new one refers to two other validators, of which
one cannot be fetched. -/
def offered : List Event :=
  [.restart [], .poll (.ok 6 (.config (some (document ["sha256:a"] 1048576)))),
    .fetch (some 1000000), .prefetched, .settle .whole,
    .poll (.ok 6 (.config (some (document ["sha256:b", "sha256:c"] 1048576)))),
    .fetch (some 1000000), .fetch none]

theorem served_validator_evicted :
    ¬ EveryStep (step container) (fun _ _ next => next.KeepsBegun) (stopped container .absent [])
      (offered ++ [.prefetched]) :=
  not_everyStep_of_observed
    (fun _ next => next.history.began.any fun key => !next.cache.available key)
    (fun _ next hseen hkeeps => by
      obtain ⟨key, hkey, hgone⟩ := List.any_eq_true.mp hseen
      simp [hkeeps key hkey] at hgone)
    (by decide +kernel)

end Apim.ConfigClient
