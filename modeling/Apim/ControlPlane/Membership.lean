import Apim.ControlPlane.GroupMapping
import Apim.Shared.Letters

/-!
# Sign-ins and administrators

What a run of sign-ins, claim re-reads and administrator writes keeps. Two applications may come to
carry one group where SQLite's `lower` does not see what `toLowerCase` sees, or where an administrator
binds a group to the platform's own application, which the mapping does not read; and a sign-in breaks
off where the name of a group is the name of another application. A run without these steps is
`Allowed`.
-/

namespace Apim.Groups
open Overlay Opmatch Guard Trace Letters

/-! ### Rows of memberships -/

def Recorded (memberships : Memberships) : Prop :=
  ∀ application user row, memberships application user = some row →
    row.grantedBy.isSome = true ∧ row.grantedAt.isSome = true

theorem regranted_regranted (old : Option Membership) (source : Source) (grantedBy grantedBy' : String)
    (now now' : Nat) : regranted (some (regranted old source grantedBy now)) source grantedBy' now' =
      regranted old source grantedBy now := by
  cases old with
  | none => cases source <;> rfl
  | some old =>
    obtain ⟨oldSource, by', at'⟩ := old
    cases oldSource <;> cases source <;> cases by' <;> cases at' <;> rfl

theorem regranted_local {row : Membership} (hlocal : row.source = .locally)
    (hrecorded : row.grantedBy.isSome = true ∧ row.grantedAt.isSome = true) (grantedBy : String)
    (now : Nat) : regranted (some row) .idp grantedBy now = row := by
  obtain ⟨source, by', at'⟩ := row
  obtain ⟨by', rfl⟩ := Option.isSome_iff_exists.mp hrecorded.1
  obtain ⟨at', rfl⟩ := Option.isSome_iff_exists.mp hrecorded.2
  cases hlocal
  rfl

theorem regranted_recorded (old : Option Membership) (source : Source) (grantedBy : String)
    (now : Nat) : (regranted old source grantedBy now).grantedBy.isSome = true ∧
      (regranted old source grantedBy now).grantedAt.isSome = true := by
  cases old with
  | none => exact ⟨rfl, rfl⟩
  | some old =>
    obtain ⟨oldSource, by', at'⟩ := old
    cases by' <;> cases at' <;> exact ⟨rfl, rfl⟩

theorem grantMembership_ok {applicationId : String} (h : applicationId ≠ PLATFORM_APPLICATION_ID)
    (now : Nat) (userId : String) (source : Source) (grantedBy : String) (memberships : Memberships) :
    grantMembership now userId applicationId source grantedBy memberships =
      .ok fun application user =>
        if application = applicationId ∧ user = userId then
          some (regranted (memberships application user) source grantedBy now)
        else memberships application user := by
  rw [grantMembership, ensure, decide_eq_true h]
  rfl

variable {wanted : List String}

theorem foldlM_grant (h : PLATFORM_APPLICATION_ID ∉ wanted) (now : Nat) (userId : String)
    (memberships : Memberships) :
    wanted.foldlM (fun memberships applicationId =>
      grantMembership now userId applicationId .idp "idp-sync" memberships) memberships =
        .ok fun application user =>
          if user = userId ∧ application ∈ wanted then
            some (regranted (memberships application user) .idp "idp-sync" now)
          else memberships application user := by
  induction wanted generalizing memberships with
  | nil => simp [pure, Except.pure]
  | cons first wanted ih =>
    have hfirst : first ≠ PLATFORM_APPLICATION_ID := fun heq => h (heq ▸ List.mem_cons_self)
    have hrest : PLATFORM_APPLICATION_ID ∉ wanted := fun hin => h (List.mem_cons_of_mem _ hin)
    rw [List.foldlM_cons, grantMembership_ok hfirst, ok_bind, ih hrest]
    congr 1
    funext application user
    by_cases huser : user = userId
    · by_cases happ : application = first
      · subst happ
        by_cases hlater : application ∈ wanted
        · simp [huser, hlater, regranted_regranted]
        · simp [huser, hlater]
      · simp [huser, happ]
    · simp [huser]

variable {memberships : Memberships}

theorem dropStale_of_kept {userId : String} {application user : String}
    (h : user ≠ userId ∨ application ∈ wanted) :
    dropStale userId wanted memberships application user = memberships application user := by
  have hkept : ∀ row : Membership,
      (!(user == userId && row.source == .idp && !wanted.contains application)) = true := by
    intro row
    rcases h with hne | hin
    · simp [hne]
    · simp [hin]
  unfold dropStale
  cases memberships application user with
  | none => rfl
  | some row => rw [Option.filter_some, if_pos (hkept row)]

def synced (now : Nat) (userId : String) (wanted : List String) (memberships : Memberships) :
    Memberships := fun application user =>
  if user = userId ∧ application ∈ wanted then
    some (regranted (memberships application user) .idp "idp-sync" now)
  else dropStale userId wanted memberships application user

theorem syncIdpMemberships_ok (h : PLATFORM_APPLICATION_ID ∉ wanted) (now : Nat) (userId : String)
    (memberships : Memberships) :
    syncIdpMemberships now userId wanted memberships = .ok (synced now userId wanted memberships) := by
  rw [syncIdpMemberships, foldlM_grant h]
  congr 1
  funext application user
  unfold synced
  by_cases hwanted : user = userId ∧ application ∈ wanted
  · rw [if_pos hwanted, if_pos hwanted]
    rw [dropStale_of_kept (.inr hwanted.2)]
  · rw [if_neg hwanted, if_neg hwanted]

theorem synced_congr {wanted' : List String} (h : ∀ id, id ∈ wanted ↔ id ∈ wanted') (now : Nat)
    (userId : String) (memberships : Memberships) :
    synced now userId wanted memberships = synced now userId wanted' memberships := by
  funext application user
  have hcontains : wanted.contains application = wanted'.contains application := by
    rw [Bool.eq_iff_iff, List.contains_iff_mem, List.contains_iff_mem]
    exact h application
  simp only [synced, dropStale, h, hcontains]

theorem synced_synced (now now' : Nat) (userId : String) (memberships : Memberships) :
    synced now' userId wanted (synced now userId wanted memberships) =
      synced now userId wanted memberships := by
  funext application user
  unfold synced
  by_cases hwanted : user = userId ∧ application ∈ wanted
  · simp only [if_pos hwanted]
    rw [regranted_regranted]
  · simp only [if_neg hwanted, dropStale, Option.filter_filter, Bool.and_self]

theorem idp_synced (now : Nat) (userId : String) (wanted : List String) (memberships : Memberships)
    (application : String) :
    (∃ row, synced now userId wanted memberships application userId = some row ∧ row.source = .idp) ↔
      application ∈ wanted ∧ ∀ row, memberships application userId = some row →
        row.source ≠ .locally := by
  unfold synced dropStale
  by_cases hwanted : application ∈ wanted
  · simp only [hwanted, and_self, if_true, true_and, Option.some.injEq, exists_eq_left']
    cases memberships application userId with
    | none => simp [regranted]
    | some row =>
      cases hsource : row.source <;> simp [regranted, hsource]
  · simp only [hwanted, and_false, if_false, false_and, iff_false]
    rintro ⟨row, hrow, hsource⟩
    rw [Option.filter_eq_some_iff] at hrow
    simp [hsource, hwanted] at hrow

theorem local_synced (hrecorded : Recorded memberships) (now : Nat) (userId : String)
    (wanted : List String) {application : String} {row : Membership}
    (hrow : memberships application userId = some row) (hlocal : row.source = .locally) :
    synced now userId wanted memberships application userId = some row := by
  unfold synced
  split
  · rw [hrow, regranted_local hlocal (hrecorded _ _ _ hrow)]
  · rw [dropStale, hrow, Option.filter_eq_some_iff]
    exact ⟨rfl, by simp [hlocal]⟩

theorem others_synced (now : Nat) (userId : String) (wanted : List String) (memberships : Memberships)
    (application : String) {user : String} (hne : user ≠ userId) :
    synced now userId wanted memberships application user = memberships application user := by
  rw [synced, if_neg fun h => hne h.1, dropStale_of_kept (.inl hne)]

theorem recorded_synced (h : Recorded memberships) (now : Nat) (userId : String)
    (wanted : List String) : Recorded (synced now userId wanted memberships) := by
  intro application user row hrow
  unfold synced at hrow
  split at hrow
  · cases hrow
    exact regranted_recorded _ _ _ _
  · rw [dropStale, Option.filter_eq_some_iff] at hrow
    exact h application user row hrow.1

/-! ### What the claims of a token do -/

variable {applications applications' : List Application}

section
variable {F : CaseFolding}

theorem names_congr_rows (h : ∀ row, row ∈ applications' ↔ row ∈ applications) (value id : String) :
    Names F applications' value id ↔ Names F applications value id := by
  have hcarries : ∀ key id, Carries F applications' key id ↔ Carries F applications key id :=
    fun key id => exists_congr fun row => and_congr_left fun _ => h row
  exact names_congr (hcarries _) (hcarries _) id

theorem applyClaims_ok {d : Directory} (hsound : Sound F d.applications) (identity : ClaimIdentity)
    (hnameable : ∀ value ∈ valuesOf identity.groups, Nameable F d.applications value) (now : Nat)
    (userId : String) (row : Principal) :
    ∃ m, mapGroups F (Mapping.start F d.applications) identity.groups = (m, none) ∧
      Keeps F (Mapping.start F d.applications) m ∧
      (∀ value ∈ valuesOf identity.groups, Settled F m.applications value) ∧
      (∀ id, id ∈ m.applicationIds ↔
        ∃ value ∈ valuesOf identity.groups, Names F m.applications value id) ∧
      applyClaims F now d userId row identity =
        ⟨m.applications, synced now userId m.applicationIds d.memberships,
          Function.update d.principals userId (some (row.claimed identity))⟩ := by
  obtain ⟨hcoherent, happs, hids⟩ := coherent_start hsound
  have hnone := mapGroups_ok hcoherent (by rwa [happs])
  obtain ⟨hkeeps, hend⟩ := mapGroups_spec hcoherent identity.groups
  obtain ⟨hsettled, hadded⟩ := hend hnone
  generalize hm : mapGroups F (Mapping.start F d.applications) identity.groups = result at *
  obtain ⟨m, error⟩ := result
  obtain rfl : error = none := hnone
  have hmem : ∀ id, id ∈ m.applicationIds ↔
      ∃ value ∈ valuesOf identity.groups, Names F m.applications value id := by
    intro id
    rw [hadded, hids]
    constructor
    · rintro (hbad | ⟨raw, hraw, hne, hnames⟩)
      · exact absurd hbad List.not_mem_nil
      · exact ⟨_, mem_valuesOf.mpr ⟨raw, hraw, hne, rfl⟩, hnames⟩
    · rintro ⟨value, hvalue, hnames⟩
      obtain ⟨raw, hraw, hne, rfl⟩ := mem_valuesOf.mp hvalue
      exact .inr ⟨raw, hraw, hne, hnames⟩
  have hplatform : PLATFORM_APPLICATION_ID ∉ m.applicationIds := by
    intro hbad
    obtain ⟨value, -, ⟨_, _, _, hne, _⟩ | ⟨-, _, _, _, hne, _⟩⟩ := (hmem _).mp hbad
    · exact hne rfl
    · exact hne rfl
  refine ⟨m, rfl, hkeeps, fun value hvalue => ?_, hmem, ?_⟩
  · obtain ⟨raw, hraw, hne, rfl⟩ := mem_valuesOf.mp hvalue
    exact hsettled raw hraw hne
  · rw [applyClaims, hm]
    dsimp only
    rw [syncIdpMemberships_ok hplatform]

structure FollowsClaims (F : CaseFolding) (now : Nat) (d : Directory) (userId : String)
    (row : Principal) (identity : ClaimIdentity) (d' : Directory) : Prop where
  bindings : ∀ a ∈ d.applications, (boundTo a.sourceGroup).isSome = true → a ∈ d'.applications
  memberships : ∀ application,
    (∃ m, d'.memberships application userId = some m ∧ m.source = .idp) ↔
      (∃ value ∈ valuesOf identity.groups, Names F d'.applications value application) ∧
        ∀ m, d.memberships application userId = some m → m.source ≠ .locally
  granted : ∀ application m, d.memberships application userId = some m → m.source = .locally →
    d'.memberships application userId = some m
  others : ∀ application user, user ≠ userId →
    d'.memberships application user = d.memberships application user
  again : ∀ now' row', d'.principals userId = some row' → applyClaims F now' d' userId row' identity = d'
  order : ∀ groups, groups.Perm identity.groups →
    (groups.filterMap (applicationIdForGroup F)).Nodup →
      (∀ a, a ∈ (applyClaims F now d userId row { identity with groups := groups }).applications ↔
        a ∈ d'.applications) ∧
      (applyClaims F now d userId row { identity with groups := groups }).memberships =
        d'.memberships ∧
      (applyClaims F now d userId row { identity with groups := groups }).principals = d'.principals

theorem claimed_claimed (row : Principal) (identity : ClaimIdentity) :
    (row.claimed identity).claimed identity = row.claimed identity := by
  unfold Principal.claimed
  by_cases husername : identity.username = ""
  · by_cases hdisplay : identity.displayName = ""
    · simp [husername, hdisplay]
    · simp [husername, hdisplay]
  · by_cases hdisplay : identity.displayName = ""
    · simp [husername, hdisplay]
    · simp [husername, hdisplay]

theorem followsClaims_of_nameable {d : Directory} (hsound : Sound F d.applications)
    (hrecorded : Recorded d.memberships) {identity : ClaimIdentity}
    (hnameable : ∀ value ∈ valuesOf identity.groups, Nameable F d.applications value) (now : Nat)
    (userId : String) (row : Principal) :
    FollowsClaims F now d userId row identity (applyClaims F now d userId row identity) := by
  obtain ⟨hstart, happs, -⟩ := coherent_start hsound
  obtain ⟨m, hm, hkeeps, hsettled, hids, happlied⟩ := applyClaims_ok hsound identity hnameable now userId row
  have hkept : ∀ a ∈ d.applications, (boundTo a.sourceGroup).isSome = true → a ∈ m.applications := by
    intro a ha
    exact hkeeps.rows a (by rwa [happs])
  rw [happlied]
  constructor
  case bindings => exact hkept
  case memberships =>
    intro application
    change (∃ r, synced now userId m.applicationIds d.memberships application userId = some r ∧ _) ↔ _
    rw [idp_synced, hids]
  case granted =>
    intro application r hr hlocal
    exact local_synced hrecorded now userId _ hr hlocal
  case others =>
    intro application user hne
    exact others_synced now userId _ d.memberships application hne
  case again =>
    intro now' row' hrow'
    obtain rfl : row' = row.claimed identity := by
      dsimp only at hrow'
      rw [Function.update_self] at hrow'
      exact (Option.some.inj hrow').symm
    have hsound' : Sound F m.applications := hkeeps.coherent.rows
    obtain ⟨hstart', happs', -⟩ := coherent_start hsound'
    have hfixed : ∀ value ∈ valuesOf identity.groups, Nameable F m.applications value := by
      intro value hvalue id hbinds
      rcases hsettled value hvalue with ⟨name, hname⟩ | hshut | ⟨other, hother, htaken⟩
      · exact absurd hname (hbinds.1 name)
      · rw [hbinds.2.1] at hshut
        cases hshut
      · rw [hbinds.2.1, Option.some.injEq] at hother
        exact absurd (hother ▸ htaken) hbinds.2.2
    obtain ⟨m', hm', -, -, hids', happlied'⟩ := applyClaims_ok
      (d := ⟨m.applications, synced now userId m.applicationIds d.memberships,
        Function.update d.principals userId (some (row.claimed identity))⟩) hsound' identity hfixed
        now' userId (row.claimed identity)
    have hstays : ∀ raw ∈ identity.groups, trimmed raw ≠ "" →
        Settled F (Mapping.start F m.applications).applications (trimmed raw) := by
      intro raw hraw hne
      rw [happs']
      exact hsettled _ (mem_valuesOf.mpr ⟨raw, hraw, hne, rfl⟩)
    have hrows : m'.applications = m.applications := by
      obtain ⟨-, hsame⟩ := mapGroups_settled hstart' hstays
      rw [hm', happs'] at hsame
      exact hsame
    have hwanted : ∀ id, id ∈ m'.applicationIds ↔ id ∈ m.applicationIds := by
      intro id
      rw [hids', hids, hrows]
    rw [happlied', hrows, synced_congr hwanted, synced_synced, claimed_claimed, Function.update_idem]
  case order =>
    intro groups hperm hnodup
    have hvalues : ∀ value, value ∈ valuesOf groups ↔ value ∈ valuesOf identity.groups := by
      intro value
      rw [mem_valuesOf, mem_valuesOf]
      exact exists_congr fun raw => and_congr_left fun _ => hperm.mem_iff
    have hnodup' : (identity.groups.filterMap (applicationIdForGroup F)).Nodup :=
      (hperm.filterMap _).nodup_iff.mp hnodup
    have hnameable' : ∀ value ∈ valuesOf groups, Nameable F d.applications value :=
      fun value hvalue => hnameable value ((hvalues value).mp hvalue)
    obtain ⟨m', hm', -, -, hids', happlied'⟩ :=
      applyClaims_ok hsound { identity with groups := groups } hnameable' now userId row
    have hrows : ∀ a, a ∈ m'.applications ↔ a ∈ m.applications := by
      intro a
      have hthere := mem_mapGroups hstart hnodup (by rw [hm']) a
      have hhere := mem_mapGroups hstart hnodup' (by rw [hm]) a
      rw [hm'] at hthere
      rw [hm] at hhere
      rw [hthere, hhere]
      simp only [hvalues]
    have hwanted : ∀ id, id ∈ m'.applicationIds ↔ id ∈ m.applicationIds := by
      intro id
      rw [hids', hids]
      refine exists_congr fun value => and_congr (hvalues value) ?_
      exact names_congr_rows hrows value id
    rw [happlied']
    exact ⟨hrows, synced_congr hwanted now userId d.memberships, rfl⟩

/-! ### What administrators write -/

def Seen (F : CaseFolding) (applications : List Application) (exceptId : Option String)
    (group : String) : Prop :=
  ∀ row ∈ applications, some row.id ≠ exceptId → ∀ held, row.sourceGroup = some held →
    keyOf F held = F.toLowerCase group → lower held = lower group

theorem givenGroup_eq_some {sourceGroup : Option String} {group : String}
    (h : givenGroup sourceGroup = some group) : trimmed group = group ∧ group ≠ "" := by
  obtain ⟨hsome, hfull⟩ := Option.filter_eq_some_iff.mp h
  obtain ⟨given, -, rfl⟩ := Option.map_eq_some_iff.mp hsome
  exact ⟨trimmed_trimmed given, by simpa using hfull⟩

theorem free_of_seen (hsound : Sound F applications) {exceptId : Option String} {group : String}
    (hgroup : trimmed group = group ∧ group ≠ "") (hseen : Seen F applications exceptId group)
    (hfree : assertSourceGroupFree applications group exceptId = .ok ()) :
    ∀ row ∈ applications, some row.id ≠ exceptId → ∀ held, boundTo row.sourceGroup = some held →
      keyOf F held ≠ keyOf F group := by
  intro row hrow hne held hheld hkey
  rw [keyOf_trimmed hgroup.1] at hkey
  have hsource := (boundTo_eq_some.mp hheld).1
  have hlower := hseen row hrow hne held hsource hkey
  unfold assertSourceGroupFree at hfree
  cases hclash : applications.find? fun row => row.sourceGroup.any (lower · == lower group) with
  | none =>
    have hnot := List.find?_eq_none.mp hclash row hrow
    rw [hsource] at hnot
    exact hnot (beq_iff_eq.mpr hlower)
  | some clash =>
    rw [hclash] at hfree
    dsimp only at hfree
    rw [ensure_eq_ok, decide_eq_true_iff] at hfree
    -- the row that was found is the one that is written, and it has the group as well
    have hmem := List.mem_of_find?_eq_some hclash
    have hfound := List.find?_some hclash
    obtain ⟨own, hown, hsame⟩ := (Option.any_eq_true _ _).mp hfound
    have hsame : lower own = lower group := eq_of_beq hsame
    have hfold : F.toLowerCase own = F.toLowerCase held := by
      rw [← F.fold_ascii own, hsame, ← hlower, F.fold_ascii]
    have hstored := hsound.stored clash hmem own hown
    have hnonempty : own ≠ "" := by
      rintro rfl
      have hlength := congrArg (fun s => s.toList.length) hsame
      simp only [lower, String.toList_ofList, List.length_map] at hlength
      exact hgroup.2 (String.toList_eq_nil_iff.mp (List.length_eq_zero_iff.mp hlength.symm))
    have hbound : boundTo clash.sourceGroup = some own :=
      boundTo_eq_some.mpr ⟨hown, by rwa [hstored]⟩
    have hids : row.id ≠ clash.id := fun heq => hne ((congrArg some heq).trans hfree)
    refine hsound.distinct row hrow clash hmem hids held own hheld hbound ?_
    rw [keyOf_trimmed hstored, hfold, keyOf, (hsound.stored row hrow held hsource)]

theorem sound_of_map (h : Sound F applications) (f : Application → Application)
    (hid : ∀ row, (f row).id = row.id) (hgroup : ∀ row, (f row).sourceGroup = row.sourceGroup) :
    Sound F (applications.map f) where
  ids := by
    rw [List.map_map]
    have hsame : (·.id) ∘ f = fun row : Application => row.id := funext hid
    rw [hsame]
    exact h.ids
  distinct := by
    intro a ha b hb hne group group' hboundA hboundB
    obtain ⟨old, hold, rfl⟩ := List.mem_map.mp ha
    obtain ⟨other, hother, rfl⟩ := List.mem_map.mp hb
    rw [hid, hid] at hne
    rw [hgroup] at hboundA hboundB
    exact h.distinct old hold other hother hne group group' hboundA hboundB
  platform := by
    intro row hrow hplatform
    obtain ⟨old, hold, rfl⟩ := List.mem_map.mp hrow
    rw [hid] at hplatform
    rw [hgroup]
    exact h.platform old hold hplatform
  stored := by
    intro row hrow group hstored
    obtain ⟨old, hold, rfl⟩ := List.mem_map.mp hrow
    rw [hgroup] at hstored
    exact h.stored old hold group hstored

theorem sound_write (h : Sound F applications)
    (written : Application) (hids : (applications'.map (·.id)).Nodup)
    (hrows : ∀ row ∈ applications', row = written ∨ (row ∈ applications ∧ row.id ≠ written.id))
    (hfree : ∀ group, written.sourceGroup = some group → written.id ≠ PLATFORM_APPLICATION_ID ∧
      trimmed group = group ∧ ∀ row ∈ applications, row.id ≠ written.id → ∀ held,
      boundTo row.sourceGroup = some held → keyOf F held ≠ keyOf F group) :
    Sound F applications' where
  ids := hids
  distinct := by
    intro a ha b hb hne group group' hboundA hboundB hkey
    rcases hrows a ha with rfl | ⟨holdA, hneA⟩
    · rcases hrows b hb with rfl | ⟨holdB, hneB⟩
      · exact hne rfl
      · obtain ⟨-, -, hother⟩ := hfree group (boundTo_eq_some.mp hboundA).1
        exact hother b holdB hneB group' hboundB hkey.symm
    · rcases hrows b hb with rfl | ⟨holdB, -⟩
      · obtain ⟨-, -, hother⟩ := hfree group' (boundTo_eq_some.mp hboundB).1
        exact hother a holdA hneA group hboundA hkey
      · exact h.distinct a holdA b holdB hne group group' hboundA hboundB hkey
  platform := by
    intro row hrow hplatform
    rcases hrows row hrow with rfl | ⟨hold, -⟩
    · cases hgroup : row.sourceGroup with
      | none => rfl
      | some group => exact absurd hplatform (hfree group hgroup).1
    · exact h.platform row hold hplatform
  stored := by
    intro row hrow group hgroup
    rcases hrows row hrow with rfl | ⟨hold, -⟩
    · exact (hfree group hgroup).2.1
    · exact h.stored row hold group hgroup

theorem sound_create (h : Sound F applications)
    {body : CreateBody} (hok : createApplication applications body = .ok applications')
    (hgiven : ∀ group, givenGroup body.sourceGroup = some group →
      body.newId ≠ PLATFORM_APPLICATION_ID ∧ Seen F applications none group) :
    Sound F applications' := by
  unfold createApplication at hok
  simp only [bind_eq_ok, ensure_eq_ok, pure_eq_ok] at hok
  obtain ⟨-, -, -, -, ⟨⟩, hassert, -, -, -, hnew, rfl⟩ := hok
  unfold assertGivenFree at hassert
  have hfresh : ∀ row ∈ applications, row.id ≠ body.newId := by
    intro row hrow hid
    rw [Bool.not_eq_true', List.any_eq_false] at hnew
    exact hnew row hrow (beq_iff_eq.mpr hid)
  refine sound_write h ⟨body.newId, trimmed (body.name.getD ""), givenGroup body.sourceGroup⟩
    ?_ ?_ ?_
  · rw [List.map_append, List.nodup_append]
    refine ⟨h.ids, List.nodup_singleton _, fun a ha b hb => ?_⟩
    obtain ⟨row, hrow, rfl⟩ := List.mem_map.mp ha
    rw [List.mem_singleton.mp hb]
    exact hfresh row hrow
  · intro row hrow
    rcases List.mem_append.mp hrow with hold | hlast
    · exact .inr ⟨hold, hfresh row hold⟩
    · exact .inl (List.mem_singleton.mp hlast)
  · intro group hgroup
    change givenGroup body.sourceGroup = some group at hgroup
    obtain ⟨hplatform, hseen⟩ := hgiven group hgroup
    rw [hgroup] at hassert
    have htext := givenGroup_eq_some hgroup
    refine ⟨hplatform, htext.1, fun row hrow _ held hheld => ?_⟩
    exact free_of_seen h htext hseen hassert row hrow (Option.some_ne_none _) held hheld

theorem sound_regroup (h : Sound F applications)
    {id : String} {sourceGroup : Option (Option String)}
    (hok : regroupApplication applications id sourceGroup = .ok applications')
    (hgiven : ∀ given group, sourceGroup = some given → givenGroup given = some group →
      id ≠ PLATFORM_APPLICATION_ID ∧ Seen F applications (some id) group) :
    Sound F applications' := by
  cases sourceGroup with
  | none =>
    obtain rfl := Except.ok.inj hok
    exact h
  | some given =>
    simp only [regroupApplication, bind_eq_ok, pure_eq_ok] at hok
    obtain ⟨⟨⟩, hassert, rfl⟩ := hok
    unfold assertGivenFree at hassert
    by_cases hthere : ∃ row ∈ applications, row.id = id
    · obtain ⟨row, hrow, rfl⟩ := hthere
      refine sound_write h { row with sourceGroup := givenGroup given } ?_ ?_ ?_
      · have hmap : (rebound applications row.id (givenGroup given)).map (·.id) =
            applications.map (·.id) := by
          rw [rebound, List.map_map]
          refine List.map_congr_left fun r _ => ?_
          dsimp only [Function.comp_apply]
          split <;> rfl
        exact hmap ▸ h.ids
      · intro other hother
        obtain ⟨old, hold, rfl⟩ := List.mem_map.mp hother
        by_cases hid : old.id = row.id
        · rw [if_pos hid, h.row_eq hold hrow hid]
          exact .inl rfl
        · rw [if_neg hid]
          exact .inr ⟨hold, hid⟩
      · intro group hgroup
        change givenGroup given = some group at hgroup
        obtain ⟨hplatform, hseen⟩ := hgiven given group rfl hgroup
        rw [hgroup] at hassert
        have htext := givenGroup_eq_some hgroup
        refine ⟨hplatform, htext.1, fun other hother hne held hheld => ?_⟩
        exact free_of_seen h htext hseen hassert other hother
          (fun heq => hne (Option.some.inj heq)) held hheld
    · have hsame : rebound applications id (givenGroup given) = applications := by
        refine (List.map_congr_left fun row hrow => ?_).trans (List.map_id applications)
        exact if_neg fun hid => hthere ⟨row, hrow, hid⟩
      rw [hsame]
      exact h

/-! ### Runs -/

/-- Steps at which the directory follows the groups: a group an administrator writes is not the
platform's and is spelled so that SQLite sees whose it is, and each group of a token can be bound. -/
def Allowed (F : CaseFolding) (d : Directory) : Event → Directory → Prop
  | .claims _ _ identity, _ =>
    ∀ value ∈ valuesOf identity.groups, Nameable F d.applications value
  | .create body, _ => ∀ group, givenGroup body.sourceGroup = some group →
    body.newId ≠ PLATFORM_APPLICATION_ID ∧ Seen F d.applications none group
  | .update id _ sourceGroup, _ => ∀ given group, sourceGroup = some given →
    givenGroup given = some group →
      id ≠ PLATFORM_APPLICATION_ID ∧ Seen F d.applications (some id) group
  | _, _ => True

def Faithful (F : CaseFolding) (d : Directory) (e : Event) (d' : Directory) : Prop :=
  Distinct F d'.applications ∧
    ∀ now userId identity row, e = .claims now userId identity → d.principals userId = some row →
      FollowsClaims F now d userId row identity d'

theorem sound_update (h : Sound F applications) {id : String}
    {name : Option String} {sourceGroup : Option (Option String)}
    (hgiven : ∀ given group, sourceGroup = some given → givenGroup given = some group →
      id ≠ PLATFORM_APPLICATION_ID ∧ Seen F applications (some id) group) :
    Sound F (updateApplication applications id name sourceGroup) := by
  -- a new name changes no id and no group
  have hrename : ∀ renamed, renameApplication applications id name = .ok renamed →
      ∃ f : Application → Application, renamed = applications.map f ∧
        (∀ row, (f row).id = row.id) ∧ ∀ row, (f row).sourceGroup = row.sourceGroup := by
    intro renamed hrenamed
    cases name with
    | none =>
      obtain rfl := Except.ok.inj hrenamed
      exact ⟨fun row => row, (List.map_id' _).symm, fun _ => rfl, fun _ => rfl⟩
    | some name =>
      simp only [renameApplication, bind_eq_ok, ensure_eq_ok, pure_eq_ok] at hrenamed
      obtain ⟨-, -, -, -, rfl⟩ := hrenamed
      refine ⟨_, rfl, fun row => ?_, fun row => ?_⟩
      · split <;> rfl
      · split <;> rfl
  unfold updateApplication
  split
  · exact h
  · rename_i renamed hrenamed
    obtain ⟨f, rfl, hid, hgroup⟩ := hrename renamed hrenamed
    have hsound := sound_of_map h f hid hgroup
    split
    · exact hsound
    · rename_i regrouped hregrouped
      refine sound_regroup hsound hregrouped fun given group hsome htext => ?_
      obtain ⟨hplatform, hseen⟩ := hgiven given group hsome htext
      refine ⟨hplatform, fun row hrow hne held hheld hkey => ?_⟩
      obtain ⟨old, hold, rfl⟩ := List.mem_map.mp hrow
      rw [hid] at hne
      rw [hgroup] at hheld
      exact hseen old hold hne held hheld hkey

theorem recorded_grant {memberships' : Memberships} (h : Recorded memberships) {now : Nat}
    {userId applicationId actor : String}
    (hok : grantMembership now userId applicationId .locally actor memberships = .ok memberships') :
    Recorded memberships' := by
  simp only [grantMembership, bind_eq_ok, ensure_eq_ok, pure_eq_ok] at hok
  obtain ⟨-, -, rfl⟩ := hok
  intro application user row hrow
  dsimp only at hrow
  split at hrow
  · cases hrow
    exact regranted_recorded _ _ _ _
  · exact h application user row hrow

theorem faithful_of_allowed {d d' : Directory} {e : Event}
    (h : Sound F d.applications ∧ Recorded d.memberships) (hallowed : Allowed F d e d')
    (hstep : step F d e = some d') :
    (Sound F d'.applications ∧ Recorded d'.memberships) ∧ Faithful F d e d' := by
  obtain ⟨hsound, hrecorded⟩ := h
  suffices hkept : (Sound F d'.applications ∧ Recorded d'.memberships) ∧
      ∀ now userId identity row, e = .claims now userId identity → d.principals userId = some row →
        FollowsClaims F now d userId row identity d' from
    ⟨hkept.1, hkept.1.1.distinct, hkept.2⟩
  cases e with
  | claims now userId identity =>
    obtain ⟨row, hrow, rfl⟩ := Option.map_eq_some_iff.mp hstep
    have hfollows := followsClaims_of_nameable hsound hrecorded hallowed now userId row
    obtain ⟨m, -, hkeeps, -, -, happlied⟩ := applyClaims_ok hsound identity hallowed now userId row
    refine ⟨?_, ?_⟩
    · rw [happlied]
      exact ⟨hkeeps.coherent.rows, recorded_synced hrecorded _ _ _⟩
    · rintro now' userId' identity' row' heq hrow'
      cases heq
      obtain rfl := Option.some.inj (hrow.symm.trans hrow')
      exact hfollows
  | register userId row =>
    refine ⟨?_, nofun⟩
    unfold step at hstep
    dsimp only at hstep
    split at hstep
    · cases hstep
    · cases hstep
      exact ⟨hsound, hrecorded⟩
  | create body =>
    refine ⟨?_, nofun⟩
    unfold step at hstep
    dsimp only at hstep
    split at hstep
    · rename_i applications hok
      cases hstep
      exact ⟨sound_create hsound hok hallowed, hrecorded⟩
    · cases hstep
      exact ⟨hsound, hrecorded⟩
  | update id name sourceGroup =>
    refine ⟨?_, nofun⟩
    cases hstep
    exact ⟨sound_update hsound hallowed, hrecorded⟩
  | remove id owned =>
    refine ⟨?_, nofun⟩
    unfold step at hstep
    dsimp only at hstep
    split at hstep
    · cases hstep
      exact ⟨hsound, hrecorded⟩
    · cases hstep
      refine ⟨hsound.sublist List.filter_sublist, fun application user row hrow => ?_⟩
      dsimp only at hrow
      split at hrow
      · cases hrow
      · exact hrecorded application user row hrow
  | grant now userId applicationId actor =>
    refine ⟨?_, nofun⟩
    unfold step at hstep
    dsimp only at hstep
    split at hstep
    · rename_i memberships hok
      cases hstep
      exact ⟨hsound, recorded_grant hrecorded hok⟩
    · cases hstep
      exact ⟨hsound, hrecorded⟩
  | revoke userId applicationId =>
    refine ⟨?_, nofun⟩
    cases hstep
    refine ⟨hsound, fun application user row hrow => ?_⟩
    dsimp only at hrow
    split at hrow
    · cases hrow
    · exact hrecorded application user row hrow

end

theorem membership_follows_groups (F : CaseFolding) (d : Directory) (events : List Event)
    (hsound : Sound F d.applications) (hrecorded : Recorded d.memberships)
    (hallowed : EveryStep (step F) (Allowed F) d events) :
    EveryStep (step F) (Faithful F) d events :=
  everyStep_of_guarded (P := Allowed F) (Q := Faithful F)
    (I := fun d => Sound F d.applications ∧ Recorded d.memberships)
    (fun _ _ _ h ha hs => faithful_of_allowed h ha hs) ⟨hsound, hrecorded⟩ hallowed

/-! ### Letters beyond ASCII -/

def foldChar (c : Char) : Char := if c = 'Ä' then 'ä' else c.toLower

theorem foldChar_toLower (c : Char) : foldChar c.toLower = foldChar c := by
  unfold foldChar
  by_cases hc : c = 'Ä'
  · subst hc
    decide
  · have hne : c.toLower ≠ 'Ä' := fun h => hc ((toLower_eq_iff (by decide)).mp h).1
    rw [if_neg hne, if_neg hc, toLower_of_not_isUpper (isUpper_toLower c)]

theorem foldChar_slash (c : Char) : (foldChar c == '/') = (c == '/') := by
  rw [Bool.eq_iff_iff, beq_iff_eq, beq_iff_eq]
  unfold foldChar
  by_cases hc : c = 'Ä'
  · subst hc
    decide
  · rw [if_neg hc, toLower_eq_iff (by decide)]
    refine and_iff_left_of_imp ?_
    rintro rfl
    decide

theorem splitOnP_map (f : Char → Char) (p : Char → Bool) (h : ∀ c, p (f c) = p c) (l : List Char) :
    (l.map f).splitOnP p = (l.splitOnP p).map (List.map f) := by
  induction l with
  | nil => rfl
  | cons c l ih =>
    rw [List.map_cons, List.splitOnP_cons_eq_if_modifyHead, List.splitOnP_cons_eq_if_modifyHead, h, ih]
    split
    · rfl
    · cases l.splitOnP p <;> rfl

def CaseFolding.umlaut : CaseFolding where
  toLowerCase := fun s => String.ofList (s.toList.map foldChar)
  fold_ascii := by
    intro s
    simp only [lower, String.toList_ofList, List.map_map]
    refine congrArg String.ofList (List.map_congr_left fun c _ => ?_)
    exact foldChar_toLower c
  fold_segments := by
    intro s
    unfold segmentsOf
    rw [String.toList_ofList, List.splitOn_eq_splitOnP, List.splitOn_eq_splitOnP,
      splitOnP_map foldChar _ foldChar_slash, List.filter_map, List.map_map, List.map_map]
    have hempty : (fun part : List Char => decide (part ≠ [])) ∘ List.map foldChar =
        fun part => decide (part ≠ []) := by
      funext part
      simp
    rw [hempty]
    refine List.map_congr_left fun part _ => ?_
    simp only [Function.comp_apply, String.toList_ofList]

def newDirectory : Directory where
  applications := [⟨PLATFORM_APPLICATION_ID, "Integration Portal", none⟩]
  memberships := fun _ _ => none
  principals := fun user => if user = "ada" then some ⟨"ada", none, "Ada", false⟩ else none

theorem sound_new (F : CaseFolding) : Sound F newDirectory.applications where
  ids := List.nodup_singleton _
  distinct := by
    intro a ha b hb hne
    rw [List.mem_singleton.mp ha, List.mem_singleton.mp hb] at hne
    exact absurd rfl hne
  platform := by
    intro row hrow _
    rw [List.mem_singleton.mp hrow]
    rfl
  stored := by
    intro row hrow group hgroup
    rw [List.mem_singleton.mp hrow] at hgroup
    cases hgroup

def claimsOf (groups : List String) : Event := .claims 7 "ada" ⟨"ada", none, "Ada", false, groups⟩

theorem membership_follows_new : EveryStep (step CaseFolding.umlaut) (Faithful CaseFolding.umlaut)
    newDirectory [claimsOf ["/apim/Orders"]] := by
  refine membership_follows_groups _ _ _ (sound_new _) nofun fun next _ => ⟨?_, trivial⟩
  intro value hvalue
  have hvalue : value ∈ ["/apim/Orders"] := by
    have hvalues : valuesOf ["/apim/Orders"] = ["/apim/Orders"] := by decide +kernel
    exact hvalues ▸ hvalue
  rw [List.mem_singleton.mp hvalue]
  have hnames : ∀ row ∈ newDirectory.applications, row.name ≠ lastPart "/apim/Orders" := by
    decide +kernel
  exact fun id _ => .inr hnames

theorem group_carried_twice : ¬∀ (F : CaseFolding) (d : Directory) (events : List Event),
    Sound F d.applications → Recorded d.memberships → EveryStep (step F) (Faithful F) d events := by
  intro hall
  have hrun := hall CaseFolding.umlaut newDirectory
    ([.create ⟨some "Doctors", some "Ärzte", some "doctors", ""⟩] ++
      [.create ⟨some "Surgeons", some "ärzte", some "surgeons", ""⟩]) (sound_new _) nofun
  refine not_everyStep_of_observed (fun _ d =>
    d.applications.contains ⟨"doctors", "Doctors", some "Ärzte"⟩ &&
      d.applications.contains ⟨"surgeons", "Surgeons", some "ärzte"⟩) ?_ (by decide +kernel) hrun
  intro _ d hseen hfaithful
  rw [Bool.and_eq_true, List.contains_iff_mem, List.contains_iff_mem] at hseen
  refine hfaithful.1 _ hseen.1 _ hseen.2 (by decide) "Ärzte" "ärzte" ?_ ?_ ?_
  · decide +kernel
  · decide +kernel
  · decide +kernel

end Apim.Groups
