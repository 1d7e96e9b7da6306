import Apim.DataPlane.ConfigClient

/-!
# A revoked instance and its restarts

A poll that is answered 401 or 403 takes the table away, and only an activation brings one back while
the process lives. The document on the disk stays, and `loadFromCache` reads it with nothing else to
go by: whether the revocation holds is decided at each restart by the file
(`revocation_holds_iff`).
-/

namespace Apim.ConfigClient

open Apim.Trace

def cachedDocument (options : Options) : CacheFile → Option GatewayConfig
  | .absent | .unreadable => none
  | .config config => if config.configVersion = options.wireVersion then some config else none

def Instance.StaysRevoked (s : Instance) : Prop := s.history.revoked = true → s.served = []

/-- A restart of an instance that is revoked finds no document with routes. -/
def RestartsEmpty (options : Options) (s : Instance) : Event → Prop
  | .restart _ => s.history.revoked = true →
      ∀ config, cachedDocument options s.file = some config → config.routes = []
  | _ => True

structure Instance.Down (s : Instance) : Prop where
  table : s.client.decommissioned = true → s.client.table = none
  candidate : s.candidate.isSome = true → s.client.decommissioned = false

theorem Instance.Down.served {s : Instance} (h : s.Down) :
    s.served = (s.client.table.map (·.routes)).getD [] := by
  unfold Instance.served
  by_cases hdown : s.client.decommissioned = true
  · rw [if_pos hdown, h.table hdown]
    rfl
  · rw [if_neg hdown]

theorem revoked_loadFromCache (options : Options) (s : Instance) :
    (loadFromCache options s).history.revoked = s.history.revoked := by
  unfold loadFromCache
  split
  · rfl
  · rfl
  · split
    · rfl
    · split <;> rfl

theorem decommissioned_loadFromCache (options : Options) (s : Instance) :
    (loadFromCache options s).client.decommissioned = s.client.decommissioned := by
  unfold loadFromCache
  split
  · rfl
  · rfl
  · split
    · rfl
    · split <;> rfl

theorem table_loadFromCache (options : Options) (s : Instance) :
    (loadFromCache options s).client.table =
      (cachedDocument options s.file).or s.client.table := by
  cases hfile : s.file with
  | absent => simp [loadFromCache, cachedDocument, hfile]
  | unreadable => simp [loadFromCache, cachedDocument, hfile]
  | config config =>
    by_cases hversion : config.configVersion = options.wireVersion
    · simp only [loadFromCache, cachedDocument, hfile, hversion, ne_eq, not_true_eq_false, if_false,
        if_true]
      split <;> rfl
    · simp [loadFromCache, cachedDocument, hfile, hversion]

theorem served_restart (options : Options) (s : Instance) (listing : List (Key × File)) :
    (restart options s listing).served =
      ((cachedDocument options s.file).map (·.routes)).getD [] := by
  unfold Instance.served restart
  rw [decommissioned_loadFromCache, table_loadFromCache]
  simp

theorem candidate_loadFromCache (options : Options) (s : Instance) :
    (loadFromCache options s).candidate = s.candidate := by
  unfold loadFromCache
  split
  · rfl
  · rfl
  · split
    · rfl
    · split <;> rfl

theorem down_step {options : Options} {s next : Instance} {e : Event} (hs : s.Down)
    (h : step options s e = some next) : next.Down := by
  rcases step_cases h with ⟨listing, -, -, rfl⟩ | ⟨-, -, hrun⟩
  · constructor
    · intro hdown
      rw [restart, decommissioned_loadFromCache] at hdown
      cases hdown
    · intro hsome
      rw [restart, candidate_loadFromCache] at hsome
      cases hsome
  rcases run_cases hrun with ⟨-, hidle, rfl⟩ | ⟨written, candidate, -, hcandidate, -, rfl⟩ | hsteady
  · refine ⟨fun _ => rfl, fun hsome => ?_⟩
    rw [show (decommission s).candidate = s.candidate from rfl, hidle] at hsome
    cases hsome
  · have hup : s.client.decommissioned = false :=
      hs.candidate (Option.isSome_of_eq_some hcandidate)
    refine ⟨fun hdown => ?_, nofun⟩
    exact absurd (hup.symm.trans hdown) nofun
  · constructor
    · intro hdown
      rw [hsteady.table]
      exact hs.table (hsteady.decommissioned hdown)
    · intro hsome
      rcases hsteady.candidate hsome with hold | hup
      · exact Bool.eq_false_iff.mpr fun hdown =>
          absurd ((hs.candidate hold).symm.trans (hsteady.decommissioned hdown)) nofun
      · exact hup

theorem staysRevoked_step {options : Options} {s next : Instance} {e : Event} (hs : s.Down)
    (hrevoked : s.StaysRevoked) (h : step options s e = some next) :
    next.StaysRevoked ↔ RestartsEmpty options s e := by
  have hnext := down_step hs h
  rcases step_cases h with ⟨listing, rfl, -, rfl⟩ | ⟨hrestart, -, hrun⟩
  · unfold Instance.StaysRevoked RestartsEmpty
    rw [served_restart, restart, revoked_loadFromCache]
    refine imp_congr_right fun _ => ?_
    cases cachedDocument options s.file <;> simp
  · have hspared : RestartsEmpty options s e := by
      cases e with
      | restart listing => exact absurd rfl (hrestart listing)
      | _ => trivial
    refine iff_of_true ?_ hspared
    rcases run_cases hrun with ⟨rfl, -, rfl⟩ | ⟨written, candidate, rfl, -, -, rfl⟩ | hsteady
    · exact fun _ => rfl
    · exact nofun
    · intro hnow
      rw [hsteady.history] at hnow
      have hempty := hrevoked hnow
      rw [hs.served] at hempty
      rw [hnext.served, hsteady.table, hempty]

theorem revocation_holds_iff (options : Options) (file : CacheFile) (disk : List (Key × File))
    (events : List Event) :
    EveryStep (step options) (fun _ _ next => next.StaysRevoked) (stopped options file disk) events ↔
      EveryStep (step options) (fun s e _ => RestartsEmpty options s e)
        (stopped options file disk) events := by
  have hkept : ∀ s e next, s.Down ∧ s.StaysRevoked → step options s e = some next →
      next.StaysRevoked → next.Down ∧ next.StaysRevoked :=
    fun s e next hs h hstays => ⟨down_step hs.1 h, hstays⟩
  have hsame : ∀ s e next, s.Down ∧ s.StaysRevoked → step options s e = some next →
      (next.StaysRevoked ↔ RestartsEmpty options s e) :=
    fun s e next hs h => staysRevoked_step hs.1 hs.2 h
  exact everyStep_congr_of_kept hkept hsame ⟨⟨fun _ => rfl, fun _ => rfl⟩, fun _ => rfl⟩ events

/-! ### A revoked instance that serves again -/

def orders : ConfigRoute := ⟨"res_orders", "Orders", [], ⟨"{}", false, none⟩, []⟩

def current : GatewayConfig := ⟨6, "sha256:1", ⟨2048, 1024, 536870912⟩, [orders], [], []⟩

def container : Options := ⟨6, true, none, ⟨2048, 1024, 536870912⟩⟩

def revoked : List Event :=
  [.restart [], .poll (.ok 6 (.config (some current))), .prefetched, .settle .whole, .poll .rejected]

theorem revoked_instance_serves_again :
    ¬ EveryStep (step container) (fun _ _ next => next.StaysRevoked) (stopped container .absent [])
      (revoked ++ [.restart []]) :=
  not_everyStep_of_observed (fun _ next => next.history.revoked && decide (next.served ≠ []))
    (fun _ next hseen hstays => by
      simp only [Bool.and_eq_true, decide_eq_true_eq] at hseen
      exact hseen.2 (hstays hseen.1))
    (by decide +kernel)

end Apim.ConfigClient
