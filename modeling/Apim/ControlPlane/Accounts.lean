import Apim.Shared.Routing
import Mathlib.Data.List.Nodup

/-!
# Changing an account

The `PATCH` of an account (`control-plane/src/api/users.ts:205-277`) checks and writes one field after the
other, with no transaction around them, and asks the two rules that protect an administrator
(`control-plane/src/principals.ts:242-281`) about the row as it was read before its first write.
-/

namespace Apim.ControlPlane.Accounts
open Routing (isSpace trim utf16Length)

/-! ### The directory -/

inductive Provider where
  | local_ | oidc | dev
  deriving DecidableEq

inductive Role where
  | member | admin
  deriving DecidableEq

structure PrincipalRow where
  provider : Provider
  displayName : List Char
  email : Option (List Char)
  role : Role
  idpAdmin : Bool
  disabledAt : Option Nat
  failedCount : Nat
  lockedUntil : Option Nat
  deriving DecidableEq

structure SessionRow where
  id : Nat
  userId : Nat
  revokedAt : Option Nat
  deriving DecidableEq

structure Directory where
  principals : List (Nat × PrincipalRow)
  keys : (principals.map Prod.fst).Nodup
  sessions : List SessionRow

def Directory.row (d : Directory) (id : Nat) : Option PrincipalRow := d.principals.lookup id

def Directory.update (d : Directory) (id : Nat) (f : PrincipalRow → PrincipalRow) : Directory where
  principals := d.principals.map fun (key, row) => (key, if key = id then f row else row)
  keys := by
    rw [List.map_map]
    exact d.keys
  sessions := d.sessions

def PrincipalRow.isAdmin (row : PrincipalRow) : Bool := row.role == .admin || row.idpAdmin

def PrincipalRow.enabledAdmin (row : PrincipalRow) : Bool := row.disabledAt.isNone && row.isAdmin

def Directory.enabledAdminCount (d : Directory) : Nat := d.principals.countP (·.2.enabledAdmin)

def revokeSessionsOf (now id : Nat) (d : Directory) : Directory :=
  { d with sessions := d.sessions.map fun s =>
      if s.userId = id ∧ s.revokedAt = none then { s with revokedAt := some now } else s }

/-! ### The request -/

/-- The body. A name or an address that is no text is `some none`; of a role only its text matters, and of
`disabled` whether it is truthy. -/
structure Body where
  displayName : Option (Option (List Char)) := none
  email : Option (Option (List Char)) := none
  role : Option String := none
  disabled : Option Bool := none

inductive Change where
  | disable | demote
  deriving DecidableEq

inductive Refusal where
  | forbidden
  | notFound
  | notLocal
  | notText
  | displayNameLength
  | emailForm
  | roleUnknown
  | lastAdmin (change : Change)
  | ownAccount (change : Change)
  | nothing
  deriving DecidableEq

def assertStillReachable (d : Directory) (id : Nat) (row : PrincipalRow) (actor : Nat) (change : Change) :
    Except Refusal Unit :=
  if row.isAdmin ∧ d.enabledAdminCount ≤ 1 then .error (.lastAdmin change)
  else if id = actor then .error (.ownAccount change)
  else .ok ()

def isAddress (value : List Char) : Bool :=
  let (name, rest) := value.span (fun c => c != '@' && !isSpace c)
  match rest with
  | '@' :: host => !name.isEmpty && !host.isEmpty && host.all fun c => c != '@' && !isSpace c
  | _ => false

def roleFrom : String → Except Refusal Role
  | "member" => .ok .member
  | "admin" => .ok .admin
  | _ => .error .roleUnknown

def newName : Option (List Char) → Except Refusal (List Char)
  | none => .error .notText
  | some text =>
    if utf16Length (trim text) < 1 ∨ 120 < utf16Length (trim text) then .error .displayNameLength
    else .ok (trim text)

def newEmail : Option (List Char) → Except Refusal (Option (List Char))
  | none => .error .notText
  | some text =>
    if trim text = [] then .ok none
    else if isAddress (trim text) then .ok (some (trim text))
    else .error .emailForm

/-- A field that is not given is neither checked nor written; a check that fails writes nothing. -/
def given {α : Type*} (field : Option α) (d : Directory) (write : α → Except Refusal Directory) :
    Except Refusal Directory :=
  match field with
  | none => .ok d
  | some value => write value

def patchName (id : Nat) (body : Body) (d : Directory) : Except Refusal Directory :=
  given body.displayName d fun raw => (newName raw).map fun name =>
    d.update id fun row => { row with displayName := name }

def patchEmail (id : Nat) (body : Body) (d : Directory) : Except Refusal Directory :=
  given body.email d fun raw => (newEmail raw).map fun email =>
    d.update id fun row => { row with email }

def patchRole (id actor : Nat) (row : PrincipalRow) (body : Body) (d : Directory) :
    Except Refusal Directory :=
  given body.role d fun raw => (roleFrom raw).bind fun role =>
    (if role = .member ∧ row.role = .admin then assertStillReachable d id row actor .demote
      else .ok ()).map fun _ => d.update id fun row => { row with role }

def patchDisabled (now id actor : Nat) (row : PrincipalRow) (body : Body) (d : Directory) :
    Except Refusal Directory :=
  given body.disabled d fun disabled =>
    if disabled then (assertStillReachable d id row actor .disable).map fun _ =>
      revokeSessionsOf now id (d.update id fun row => { row with disabledAt := some now })
    else .ok (d.update id fun row => { row with disabledAt := none, failedCount := 0, lockedUntil := none })

def andThen (x : Directory × Option Refusal) (f : Directory → Except Refusal Directory) :
    Directory × Option Refusal :=
  match x.2, f x.1 with
  | some why, _ => (x.1, some why)
  | none, .ok d => (d, none)
  | none, .error why => (x.1, some why)

def Body.isEmpty (body : Body) : Bool :=
  body.displayName.isNone && body.email.isNone && body.role.isNone && body.disabled.isNone

def admitted (d : Directory) (actor id : Nat) (body : Body) : Except Refusal PrincipalRow :=
  if (d.row actor).any (·.enabledAdmin) = false then .error .forbidden
  else match d.row id with
    | none => .error .notFound
    | some row =>
      if (body.displayName.isSome ∨ body.email.isSome) ∧ row.provider ≠ .local_ then .error .notLocal
      else .ok row

/-- `PATCH /api/users/:id`: the directory that is left, and why the request was refused if it was. -/
def patchUser (now actor id : Nat) (body : Body) (d : Directory) : Directory × Option Refusal :=
  match admitted d actor id body with
  | .error why => (d, some why)
  | .ok row =>
    andThen (andThen (andThen (andThen (andThen (d, none)
      (patchName id body)) (patchEmail id body)) (patchRole id actor row body))
      (patchDisabled now id actor row body))
      fun d => if body.isEmpty then .error .nothing else .ok d

/-! ### The law and its condition -/

def Body.outcome (now : Nat) (body : Body) (row : PrincipalRow) : PrincipalRow :=
  let row := match body.role.map roleFrom with
    | some (.ok role) => { row with role }
    | _ => row
  match body.disabled with
  | some true => { row with disabledAt := some now }
  | some false => { row with disabledAt := none }
  | none => row

/-- A refused request leaves everything as it was; an accepted one leaves the administrator who made it one;
and it is refused for lack of another administrator only if none would be left. -/
structure AllOrNothing (now actor id : Nat) (body : Body) (d : Directory) : Prop where
  refused : ∀ why, (patchUser now actor id body d).2 = some why → (patchUser now actor id body d).1 = d
  accepted : (patchUser now actor id body d).2 = none →
    0 < (patchUser now actor id body d).1.enabledAdminCount ∧
      ((patchUser now actor id body d).1.row actor).any (·.enabledAdmin) = true
  needed : ∀ change, (patchUser now actor id body d).2 = some (.lastAdmin change) →
    (d.update id (body.outcome now)).enabledAdminCount = 0

def refusalOf {α : Type*} : Except Refusal α → Option Refusal
  | .ok _ => none
  | .error why => some why

/-- The account with the name of the body, with its address, and with its role. -/
def Body.named (body : Body) (row : PrincipalRow) : PrincipalRow :=
  match body.displayName.map newName with
  | some (.ok displayName) => { row with displayName }
  | _ => row

def Body.addressed (body : Body) (row : PrincipalRow) : PrincipalRow :=
  match body.email.map newEmail with
  | some (.ok email) => { row with email }
  | _ => row

def Body.ranked (body : Body) (row : PrincipalRow) : PrincipalRow :=
  match body.role.map roleFrom with
  | some (.ok role) => { row with role }
  | _ => row

def Body.switched (now : Nat) (body : Body) (row : PrincipalRow) : PrincipalRow :=
  match body.disabled with
  | some true => { row with disabledAt := some now }
  | some false => { row with disabledAt := none, failedCount := 0, lockedUntil := none }
  | none => row

def Body.nameFits (body : Body) : Bool := body.displayName.all fun raw => (refusalOf (newName raw)).isNone

def Body.emailFits (body : Body) : Bool := body.email.all fun raw => (refusalOf (newEmail raw)).isNone

def Body.demotes (body : Body) (row : PrincipalRow) : Bool :=
  body.role = some "member" && row.role = .admin

def roleRefusal (d : Directory) (id actor : Nat) (row : PrincipalRow) (body : Body) : Option Refusal :=
  match body.role.map roleFrom with
  | some (.error why) => some why
  | _ => if body.demotes row then refusalOf (assertStillReachable d id row actor .demote) else none

/-- Why the account cannot be disabled, where it cannot: the administrators are counted after its role
was written. -/
def disableRefusal (d : Directory) (id actor : Nat) (row : PrincipalRow) (body : Body) : Option Refusal :=
  if body.disabled = some true then
    refusalOf (assertStillReachable (d.update id body.ranked) id row actor .disable)
  else none

/-- What is refused is refused before a field was given a new value, and for lack of another administrator
only to an administrator about the own account, which is being disabled or is one by the portal alone. -/
structure InTime (actor id : Nat) (body : Body) (d : Directory) (row : PrincipalRow) : Prop where
  email : body.nameFits = true → body.emailFits = false → body.named row = row
  role : body.nameFits = true → body.emailFits = true → roleRefusal d id actor row body ≠ none →
    body.named row = row ∧ body.addressed row = row ∧
      (roleRefusal d id actor row body = some (.lastAdmin .demote) →
        id = actor ∧ (body.disabled = some true ∨ row.idpAdmin = false))
  disabled : body.nameFits = true → body.emailFits = true → roleRefusal d id actor row body = none →
    disableRefusal d id actor row body ≠ none →
    body.named row = row ∧ body.addressed row = row ∧ body.ranked row = row ∧
      (disableRefusal d id actor row body = some (.lastAdmin .disable) → id = actor)

/-! ### Writing one account -/

theorem lookup_map (rows : List (Nat × PrincipalRow)) (id key : Nat) (f : PrincipalRow → PrincipalRow) :
    (rows.map fun (k, row) => (k, if k = id then f row else row)).lookup key =
      (rows.lookup key).map fun row => if key = id then f row else row := by
  induction rows with
  | nil => rfl
  | cons r rows ih =>
    rw [List.map_cons, List.lookup_cons, List.lookup_cons]
    cases hkey : key == r.1 with
    | true => simp [eq_of_beq hkey]
    | false => exact ih

theorem row_update (d : Directory) (id key : Nat) (f : PrincipalRow → PrincipalRow) :
    (d.update id f).row key = (d.row key).map fun row => if key = id then f row else row :=
  lookup_map d.principals id key f

variable {id : Nat} {row : PrincipalRow}

theorem mem_of_lookup {rows : List (Nat × PrincipalRow)} (h : rows.lookup id = some row) :
    (id, row) ∈ rows := by
  induction rows with
  | nil => cases h
  | cons r rows ih =>
    rw [List.lookup_cons] at h
    cases hkey : id == r.1 with
    | true =>
      rw [hkey] at h
      obtain rfl : r.2 = row := Option.some.inj h
      rw [eq_of_beq hkey]
      exact List.mem_cons_self
    | false =>
      rw [hkey] at h
      exact List.mem_cons_of_mem _ (ih h)

variable {d : Directory}

theorem row_of_mem {row' : PrincipalRow} (hrow : d.row id = some row)
    (hmem : (id, row') ∈ d.principals) : row' = row := by
  have hsame := List.inj_on_of_nodup_map d.keys hmem (mem_of_lookup hrow) rfl
  exact congrArg Prod.snd hsame

theorem update_update (d : Directory) (id : Nat) (f g : PrincipalRow → PrincipalRow) :
    (d.update id f).update id g = d.update id (g ∘ f) := by
  simp only [Directory.update, List.map_map, Directory.mk.injEq, and_true]
  refine List.map_congr_left fun r _ => ?_
  by_cases hkey : r.1 = id <;> simp [hkey]

theorem update_eq_self_iff (hrow : d.row id = some row) (f : PrincipalRow → PrincipalRow) :
    d.update id f = d ↔ f row = row := by
  constructor
  · intro h
    have hnext := row_update d id id f
    rw [h, hrow] at hnext
    exact (Option.some.inj (hnext.trans (congrArg some (if_pos rfl)))).symm
  · intro h
    have hrows : d.principals.map (fun (k, r) => (k, if k = id then f r else r)) = d.principals := by
      refine (List.map_congr_left fun r hr => ?_).trans (List.map_id _)
      by_cases hkey : r.1 = id
      · obtain ⟨key, r⟩ := r
        obtain rfl : key = id := hkey
        obtain rfl := row_of_mem hrow hr
        simp [h]
      · simp [hkey]
    cases d
    simpa [Directory.update] using hrows

theorem enabledAdminCount_congr (d : Directory) (id : Nat) {f g : PrincipalRow → PrincipalRow}
    (h : ∀ row, (f row).enabledAdmin = (g row).enabledAdmin) :
    (d.update id f).enabledAdminCount = (d.update id g).enabledAdminCount := by
  simp only [Directory.enabledAdminCount, Directory.update, List.countP_map]
  refine List.countP_congr fun r _ => ?_
  by_cases hkey : r.1 = id <;> simp [hkey, h]

theorem enabledAdminCount_pos (hrow : d.row id = some row) (hadmin : row.enabledAdmin = true) :
    0 < d.enabledAdminCount :=
  List.countP_pos_iff.mpr ⟨(id, row), mem_of_lookup hrow, hadmin⟩

/-- Where one account is the only enabled administrator, what it becomes decides whether there is one. -/
theorem count_update_eq_zero_iff (hrow : d.row id = some row) (hadmin : row.enabledAdmin = true)
    (hfew : d.enabledAdminCount ≤ 1) (f : PrincipalRow → PrincipalRow) :
    (d.update id f).enabledAdminCount = 0 ↔ (f row).enabledAdmin = false := by
  constructor
  · intro h
    have hnext : (d.update id f).row id = some (f row) := by
      rw [row_update, hrow, Option.map_some, if_pos rfl]
    by_contra hne
    exact absurd (enabledAdminCount_pos hnext (eq_true_of_ne_false hne)) (by omega)
  · intro h
    have hone : ∀ r ∈ d.principals, r.2.enabledAdmin = true → r.1 = id := by
      intro r hr henabled
      rw [Directory.enabledAdminCount, List.countP_eq_length_filter] at hfew
      have hmem : (id, row) ∈ d.principals.filter (·.2.enabledAdmin) :=
        List.mem_filter.mpr ⟨mem_of_lookup hrow, hadmin⟩
      have hmem' : r ∈ d.principals.filter (·.2.enabledAdmin) := List.mem_filter.mpr ⟨hr, henabled⟩
      generalize d.principals.filter (·.2.enabledAdmin) = admins at hfew hmem hmem'
      rcases admins with _ | ⟨x, _ | ⟨y, rest⟩⟩
      · cases hmem
      · rw [List.mem_singleton.mp hmem', ← List.mem_singleton.mp hmem]
      · rw [List.length_cons, List.length_cons] at hfew
        omega
    simp only [Directory.enabledAdminCount, Directory.update, List.countP_map, List.countP_eq_zero]
    intro r hr
    by_cases hkey : r.1 = id
    · obtain ⟨key, r⟩ := r
      obtain rfl : key = id := hkey
      obtain rfl := row_of_mem hrow hr
      simp [h]
    · simpa [hkey] using fun henabled => hkey (hone r hr henabled)

/-! ### The steps -/

theorem update_id (d : Directory) (id : Nat) {f : PrincipalRow → PrincipalRow} (h : ∀ row, f row = row) :
    d.update id f = d := by
  have hrows : d.principals.map (fun (k, r) => (k, if k = id then f r else r)) = d.principals := by
    refine (List.map_congr_left fun r _ => ?_).trans (List.map_id _)
    simp [h]
  cases d
  simpa [Directory.update] using hrows

theorem patchName_eq (id : Nat) (body : Body) (d : Directory) :
    if body.nameFits then patchName id body d = .ok (d.update id body.named)
    else ∃ why, patchName id body d = .error why ∧ ∀ change, why ≠ .lastAdmin change := by
  cases hname : body.displayName with
  | none =>
    have hsame := update_id d id (f := body.named) fun row => by rw [Body.named, hname]; rfl
    simp [Body.nameFits, patchName, given, hname, hsame]
  | some raw =>
    cases hnew : newName raw with
    | error why =>
      refine (if_neg ?_).mpr ⟨why, ?_, ?_⟩
      · simp [Body.nameFits, hname, hnew, refusalOf]
      · rw [patchName, hname, given, hnew]
        rfl
      · rintro change rfl
        cases raw with
        | none => cases hnew
        | some text =>
          rw [newName] at hnew
          split at hnew <;> cases hnew
    | ok name =>
      have hnamed : body.named = fun row => { row with displayName := name } := by
        funext row
        rw [Body.named, hname, Option.map_some, hnew]
      simp [Body.nameFits, patchName, given, hname, hnew, refusalOf, hnamed, Except.map]

theorem patchEmail_eq (id : Nat) (body : Body) (d : Directory) :
    if body.emailFits then patchEmail id body d = .ok (d.update id body.addressed)
    else ∃ why, patchEmail id body d = .error why ∧ ∀ change, why ≠ .lastAdmin change := by
  cases hemail : body.email with
  | none =>
    have hsame := update_id d id (f := body.addressed) fun row => by rw [Body.addressed, hemail]; rfl
    simp [Body.emailFits, patchEmail, given, hemail, hsame]
  | some raw =>
    cases hnew : newEmail raw with
    | error why =>
      refine (if_neg ?_).mpr ⟨why, ?_, ?_⟩
      · simp [Body.emailFits, hemail, hnew, refusalOf]
      · rw [patchEmail, hemail, given, hnew]
        rfl
      · rintro change rfl
        cases raw with
        | none => cases hnew
        | some text =>
          rw [newEmail] at hnew
          split at hnew
          · cases hnew
          · split at hnew <;> cases hnew
    | ok email =>
      have haddressed : body.addressed = fun row => { row with email } := by
        funext row
        rw [Body.addressed, hemail, Option.map_some, hnew]
      simp [Body.emailFits, patchEmail, given, hemail, hnew, refusalOf, haddressed, Except.map]

variable {body : Body}

theorem demotes_eq {raw : String} (hbody : body.role = some raw) (row : PrincipalRow) {role : Role}
    (hrole : roleFrom raw = .ok role) :
    body.demotes row = true ↔ role = .member ∧ row.role = .admin := by
  unfold roleFrom at hrole
  split at hrole <;> cases hrole <;> simp [Body.demotes, hbody]

/-- The role is refused for the same reason whatever was written of name and address. -/
theorem patchRole_eq {d' : Directory} (hcount : d'.enabledAdminCount = d.enabledAdminCount)
    (id actor : Nat) (row : PrincipalRow) (body : Body) :
    patchRole id actor row body d' = match roleRefusal d id actor row body with
      | some why => .error why
      | none => .ok (d'.update id body.ranked) := by
  have hreach : assertStillReachable d' id row actor .demote =
      assertStillReachable d id row actor .demote := by
    unfold assertStillReachable
    rw [hcount]
  cases hbody : body.role with
  | none =>
    have hsame := update_id d' id (f := body.ranked) fun row => by rw [Body.ranked, hbody]; rfl
    simp [patchRole, given, roleRefusal, Body.demotes, hbody, hsame]
  | some raw =>
    cases hrole : roleFrom raw with
    | error why => simp [patchRole, given, roleRefusal, hbody, hrole, Except.bind]
    | ok role =>
      have hranked : body.ranked = fun row => { row with role } := by
        funext row
        rw [Body.ranked, hbody, Option.map_some, hrole]
      have hdemotes := demotes_eq hbody row hrole
      by_cases hmember : role = .member ∧ row.role = .admin
      · cases hresult : assertStillReachable d id row actor .demote <;>
          simp [patchRole, given, roleRefusal, hbody, hrole, Except.bind, Except.map, hdemotes.mpr hmember,
            hmember, hreach, hresult, refusalOf, hranked]
      · have hno : body.demotes row = false := eq_false_of_ne_true fun h => hmember (hdemotes.mp h)
        simp [patchRole, given, roleRefusal, hbody, hrole, Except.bind, Except.map, hno, hmember, hranked]

theorem patchDisabled_eq {d' : Directory}
    (hcount : d'.enabledAdminCount = (d.update id body.ranked).enabledAdminCount) (now actor : Nat)
    (row : PrincipalRow) :
    (∀ why, disableRefusal d id actor row body = some why →
      patchDisabled now id actor row body d' = .error why) ∧
    (disableRefusal d id actor row body = none → ∃ next,
      patchDisabled now id actor row body d' = .ok next ∧
      (body.disabled = none → next = d') ∧ (id = actor → body.disabled ≠ some true) ∧
      ∀ key, next.row key = (d'.row key).map fun row =>
        if key = id then body.switched now row else row) := by
  have hreach : assertStillReachable d' id row actor .disable =
      assertStillReachable (d.update id body.ranked) id row actor .disable := by
    unfold assertStillReachable
    rw [hcount]
  cases hbody : body.disabled with
  | none => simp [disableRefusal, patchDisabled, given, hbody, Body.switched]
  | some disabled =>
    cases disabled with
    | false =>
      have hswitched : body.switched now = fun row =>
          { row with disabledAt := none, failedCount := 0, lockedUntil := none } := by
        funext row
        rw [Body.switched, hbody]
      refine ⟨by simp [disableRefusal, hbody], fun _ => ⟨d'.update id (body.switched now), ?_, nofun,
        fun _ => by decide, fun key => row_update d' id key _⟩⟩
      rw [patchDisabled, hbody, hswitched]
      rfl
    | true =>
      have hswitched : body.switched now = fun row => { row with disabledAt := some now } := by
        funext row
        rw [Body.switched, hbody]
      cases hresult : assertStillReachable (d.update id body.ranked) id row actor .disable with
      | error why => simp [disableRefusal, patchDisabled, given, hbody, hreach, hresult, refusalOf, Except.map]
      | ok _ =>
        refine ⟨by simp [disableRefusal, hbody, hresult, refusalOf], fun _ =>
          ⟨revokeSessionsOf now id (d'.update id (body.switched now)), ?_, nofun, ?_,
            fun key => row_update d' id key _⟩⟩
        · rw [patchDisabled, hbody, hswitched]
          simp only [given, if_true, hreach, hresult]
          rfl
        · rintro rfl
          unfold assertStillReachable at hresult
          split at hresult
          · cases hresult
          · rw [if_pos rfl] at hresult
            cases hresult

/-! ### What the request leaves -/

variable {actor : Nat} {why : Refusal}

/-- The reason for the account's own administrator, and for a lack of others. -/
theorem assertStillReachable_cases {change : Change}
    (h : refusalOf (assertStillReachable d id row actor change) = some why) :
    (why = .lastAdmin change ∧ row.isAdmin = true ∧ d.enabledAdminCount ≤ 1) ∨
      (why = .ownAccount change ∧ id = actor) := by
  unfold assertStillReachable at h
  split at h
  · rename_i hfew
    cases h
    exact .inl ⟨rfl, hfew⟩
  · split at h
    · rename_i hown
      cases h
      exact .inr ⟨rfl, hown⟩
    · cases h

theorem written_eq_iff (body : Body) (row : PrincipalRow) :
    (body.addressed (body.named row) = row ↔ body.named row = row ∧ body.addressed row = row) ∧
    (body.ranked (body.addressed (body.named row)) = row ↔
      body.named row = row ∧ body.addressed row = row ∧ body.ranked row = row) := by
  unfold Body.named Body.addressed Body.ranked
  cases row
  constructor <;> split <;> split <;> (try split) <;> simp_all

theorem admitted_ok (h : admitted d actor id body = .ok row) :
    d.row id = some row ∧ ∃ own, d.row actor = some own ∧ own.enabledAdmin = true := by
  unfold admitted at h
  split at h
  · cases h
  · rename_i hadmin
    split at h
    · cases h
    · rename_i found hrow
      split at h <;> cases h
      cases hown : d.row actor with
      | none => simp [hown] at hadmin
      | some own => exact ⟨hrow, own, rfl, by simpa [hown] using hadmin⟩

theorem lawful_of_refused {now : Nat} {d' : Directory}
    (h : patchUser now actor id body d = (d', some why)) :
    AllOrNothing now actor id body d ↔ d' = d ∧ ∀ change, why = .lastAdmin change →
      (d.update id (body.outcome now)).enabledAdminCount = 0 := by
  constructor
  · intro hlaw
    exact ⟨by simpa [h] using hlaw.refused why (by rw [h]), fun change hwhy =>
      hlaw.needed change (by rw [h, hwhy])⟩
  · rintro ⟨rfl, hneeded⟩
    refine ⟨fun _ _ => by rw [h], ?_, fun change hlack => hneeded change ?_⟩
    · rw [h]
      exact fun hnone => absurd hnone (Option.some_ne_none _)
    · rw [h] at hlack
      exact Option.some.inj hlack

/-- The access that the request leaves an administrator who is the only one. -/
theorem outcome_enabledAdmin {now : Nat} (h : row.enabledAdmin = true)
    (hdemotes : body.demotes row = true) :
    (body.outcome now row).enabledAdmin = false ↔ body.disabled = some true ∨ row.idpAdmin = false := by
  obtain ⟨hrole, -⟩ : body.role = some "member" ∧ row.role = .admin := by simpa [Body.demotes] using hdemotes
  have hmember : roleFrom "member" = .ok .member := rfl
  have henabled : row.disabledAt = none := by
    simp only [PrincipalRow.enabledAdmin, Bool.and_eq_true, Option.isNone_iff_eq_none] at h
    exact h.1
  unfold Body.outcome
  rw [hrole, Option.map_some, hmember]
  rcases body.disabled with _ | _ | _ <;> simp [PrincipalRow.enabledAdmin, PrincipalRow.isAdmin, henabled]

theorem written_access (body : Body) (row : PrincipalRow) :
    (body.addressed (body.named row)).role = row.role ∧
      (body.addressed (body.named row)).idpAdmin = row.idpAdmin ∧
      (body.addressed (body.named row)).disabledAt = row.disabledAt := by
  unfold Body.addressed Body.named
  split <;> split <;> exact ⟨rfl, rfl, rfl⟩

/-- An administrator who is not demoted stays one under the role of the body. -/
theorem ranked_enabledAdmin {row' : PrincipalRow} (h : body.demotes row = false)
    (hadmin : row.enabledAdmin = true)
    (hsame : row'.role = row.role ∧ row'.idpAdmin = row.idpAdmin ∧ row'.disabledAt = row.disabledAt) :
    (body.ranked row').enabledAdmin = true := by
  obtain ⟨hrole, hidp, hdisabled⟩ := hsame
  unfold Body.ranked
  split
  · rename_i role hgiven
    obtain ⟨raw, hraw, hfrom⟩ := Option.map_eq_some_iff.mp hgiven
    have hdemotes := demotes_eq hraw row hfrom
    simp only [PrincipalRow.enabledAdmin, PrincipalRow.isAdmin, hidp, hdisabled] at hadmin ⊢
    cases role <;> cases hown : row.role <;> simp_all
  · simpa only [PrincipalRow.enabledAdmin, PrincipalRow.isAdmin, hrole, hidp, hdisabled] using hadmin

theorem demotes_own (h : roleRefusal d actor actor row body = none) : body.demotes row = false := by
  by_contra hdemotes
  have hdemotes := eq_true_of_ne_false hdemotes
  have hmember : body.role = some "member" := by
    simp only [Body.demotes, Bool.and_eq_true, decide_eq_true_eq] at hdemotes
    exact hdemotes.1
  have hrefused : assertStillReachable d actor row actor .demote ≠ .ok () := by
    unfold assertStillReachable
    rw [if_pos rfl]
    split <;> nofun
  rw [roleRefusal, hmember, Option.map_some] at h
  simp only [roleFrom, hdemotes, if_true] at h
  cases hresult : assertStillReachable d actor row actor .demote with
  | ok u => exact hrefused hresult
  | error why =>
    rw [hresult] at h
    cases h

theorem kept_of_unrefused {own : PrincipalRow} (now : Nat) (hrow : d.row id = some row)
    (hown : d.row actor = some own) (hadmin : own.enabledAdmin = true)
    (hrole : roleRefusal d id actor row body = none)
    (hdisabled : id = actor → body.disabled ≠ some true) :
    (if actor = id then body.switched now (body.ranked (body.addressed (body.named own))) else own).enabledAdmin
      = true := by
  split
  · rename_i hsame
    subst hsame
    obtain rfl : own = row := Option.some.inj (hown.symm.trans hrow)
    have hranked := ranked_enabledAdmin (demotes_own hrole) hadmin (written_access body own)
    unfold Body.switched
    rcases hbody : body.disabled with _ | _ | _
    · exact hranked
    · simp only [PrincipalRow.enabledAdmin, PrincipalRow.isAdmin, Bool.and_eq_true] at hranked ⊢
      exact ⟨rfl, hranked.2⟩
    · exact absurd hbody (hdisabled rfl)
  · exact hadmin

theorem others_remain {own : PrincipalRow} (hown : d.row actor = some own)
    (hadmin : own.enabledAdmin = true) (hother : id ≠ actor) (f : PrincipalRow → PrincipalRow) :
    (d.update id f).enabledAdminCount ≠ 0 := by
  have hkept : (d.update id f).row actor = some own := by
    rw [row_update, hown, Option.map_some, if_neg (Ne.symm hother)]
  exact Nat.ne_of_gt (enabledAdminCount_pos hkept hadmin)

theorem role_needed_iff {own : PrincipalRow} (now : Nat) (hrow : d.row id = some row)
    (hown : d.row actor = some own) (hadmin : own.enabledAdmin = true)
    (hrole : roleRefusal d id actor row body = some why) :
    (∀ change, why = .lastAdmin change → (d.update id (body.outcome now)).enabledAdminCount = 0) ↔
      (some why = some (.lastAdmin .demote) →
        id = actor ∧ (body.disabled = some true ∨ row.idpAdmin = false)) := by
  have hdemoted : ∀ change, why = .lastAdmin change →
      change = .demote ∧ body.demotes row = true ∧ d.enabledAdminCount ≤ 1 := by
    rintro change rfl
    unfold roleRefusal at hrole
    split at hrole
    · rename_i why' hgiven
      obtain ⟨raw, -, hfrom⟩ := Option.map_eq_some_iff.mp hgiven
      cases hrole
      unfold roleFrom at hfrom
      split at hfrom <;> cases hfrom
    · split at hrole
      · rename_i hdemotes
        obtain ⟨hsame, -, hfew⟩ | ⟨hsame, -⟩ := assertStillReachable_cases hrole
        · cases hsame
          exact ⟨rfl, hdemotes, hfew⟩
        · cases hsame
      · cases hrole
  constructor
  · intro h hwhy
    obtain ⟨-, hdemotes, hfew⟩ := hdemoted _ (Option.some.inj hwhy)
    by_cases hother : id = actor
    · subst hother
      obtain rfl : own = row := Option.some.inj (hown.symm.trans hrow)
      have hnone := (count_update_eq_zero_iff hrow hadmin hfew _).mp (h _ (Option.some.inj hwhy))
      exact ⟨rfl, (outcome_enabledAdmin hadmin hdemotes).mp hnone⟩
    · exact absurd (h _ (Option.some.inj hwhy)) (others_remain hown hadmin hother _)
  · intro h change hwhy
    obtain ⟨rfl, hdemotes, hfew⟩ := hdemoted _ hwhy
    obtain ⟨rfl, hlost⟩ := h (congrArg some hwhy)
    obtain rfl : own = row := Option.some.inj (hown.symm.trans hrow)
    exact (count_update_eq_zero_iff hrow hadmin hfew _).mpr ((outcome_enabledAdmin hadmin hdemotes).mpr hlost)

theorem disable_needed_iff {own : PrincipalRow} (now : Nat) (hrow : d.row id = some row)
    (hown : d.row actor = some own) (hadmin : own.enabledAdmin = true)
    (hrole : roleRefusal d id actor row body = none)
    (hdisable : disableRefusal d id actor row body = some why) :
    (∀ change, why = .lastAdmin change → (d.update id (body.outcome now)).enabledAdminCount = 0) ↔
      (some why = some (.lastAdmin .disable) → id = actor) := by
  unfold disableRefusal at hdisable
  split at hdisable
  · rename_i hdisabled
    have hlack : ∀ change, why = .lastAdmin change →
        change = .disable ∧ (d.update id body.ranked).enabledAdminCount ≤ 1 := by
      rintro change rfl
      obtain ⟨hsame, -, hfew⟩ | ⟨hsame, -⟩ := assertStillReachable_cases hdisable
      · cases hsame
        exact ⟨rfl, hfew⟩
      · cases hsame
    have houtcome : body.outcome now = (fun row => { row with disabledAt := some now }) ∘ body.ranked := by
      funext row
      rw [Body.outcome, hdisabled]
      rfl
    constructor
    · intro h hwhy
      by_contra hother
      exact others_remain hown hadmin hother _ (h _ (Option.some.inj hwhy))
    · intro h change hwhy
      obtain ⟨rfl, hfew⟩ := hlack _ hwhy
      obtain rfl := h (congrArg some hwhy)
      obtain rfl : own = row := Option.some.inj (hown.symm.trans hrow)
      have hranked : (d.update id body.ranked).row id = some (body.ranked own) := by
        rw [row_update, hrow, Option.map_some, if_pos rfl]
      rw [houtcome, ← update_update, count_update_eq_zero_iff hranked
        (ranked_enabledAdmin (demotes_own hrole) hadmin ⟨rfl, rfl, rfl⟩) hfew]
      rfl
  · cases hdisable

/-! ### Main results -/

/-- A request changes all or nothing, keeps an administrator and is refused for lack of another only where
none would be left, if and only if what is refused is refused in time. -/
theorem patch_lawful_iff (now actor id : Nat) (body : Body) (d : Directory) :
    AllOrNothing now actor id body d ↔
      ∀ row, admitted d actor id body = .ok row → InTime actor id body d row := by
  cases hadmitted : admitted d actor id body with
  | error why =>
    have hpatch : patchUser now actor id body d = (d, some why) := by rw [patchUser, hadmitted]
    rw [lawful_of_refused hpatch]
    refine ⟨fun _ row hrow => (by cases hrow), fun _ => ⟨rfl, fun change hlack => ?_⟩⟩
    subst hlack
    unfold admitted at hadmitted
    split at hadmitted
    · cases hadmitted
    · split at hadmitted
      · cases hadmitted
      · split at hadmitted <;> cases hadmitted
  | ok row =>
    obtain ⟨hrow, own, hown, hadmin⟩ := admitted_ok hadmitted
    have hname := patchName_eq id body d
    have hforall : (∀ found, (Except.ok row : Except Refusal PrincipalRow) = .ok found →
        InTime actor id body d found) ↔ InTime actor id body d row :=
      ⟨fun h => h row rfl, fun h found hfound => Except.ok.inj hfound ▸ h⟩
    rw [hforall]
    cases hnameFits : body.nameFits with
    | false =>
      rw [hnameFits] at hname
      obtain ⟨why, hpatched, hother⟩ := hname
      have hpatch : patchUser now actor id body d = (d, some why) := by
        simp only [patchUser, hadmitted, andThen, hpatched]
      rw [lawful_of_refused hpatch]
      refine ⟨fun _ => ⟨?_, ?_, ?_⟩, fun _ => ⟨rfl, fun change hlack => absurd hlack (hother change)⟩⟩ <;>
        simp [hnameFits]
    | true =>
      rw [hnameFits, if_pos rfl] at hname
      have hemail := patchEmail_eq id body (d.update id body.named)
      cases hemailFits : body.emailFits with
      | false =>
        rw [hemailFits] at hemail
        obtain ⟨why, hpatched, hother⟩ := hemail
        have hpatch : patchUser now actor id body d = (d.update id body.named, some why) := by
          simp only [patchUser, hadmitted, andThen, hname, hpatched]
        rw [lawful_of_refused hpatch, update_eq_self_iff hrow]
        refine ⟨fun h => ⟨fun _ _ => h.1, ?_, ?_⟩, fun h => ⟨h.email hnameFits hemailFits,
          fun change hlack => absurd hlack (hother change)⟩⟩ <;> simp [hemailFits]
      | true =>
        rw [hemailFits, if_pos rfl, update_update] at hemail
        have hcount : (d.update id (body.addressed ∘ body.named)).enabledAdminCount =
            d.enabledAdminCount := by
          rw [← congrArg Directory.enabledAdminCount (update_id d id (f := fun row => row) fun _ => rfl)]
          refine enabledAdminCount_congr d id fun row => ?_
          obtain ⟨hrole, hidp, hdisabled⟩ := written_access body row
          simp only [PrincipalRow.enabledAdmin, PrincipalRow.isAdmin, Function.comp, hrole, hidp, hdisabled]
        have hrole := patchRole_eq hcount id actor row body
        cases hroleRefusal : roleRefusal d id actor row body with
        | some why =>
          rw [hroleRefusal] at hrole
          have hpatch : patchUser now actor id body d =
              (d.update id (body.addressed ∘ body.named), some why) := by
            simp only [patchUser, hadmitted, andThen, hname, hemail, hrole]
          rw [lawful_of_refused hpatch, update_eq_self_iff hrow, Function.comp, (written_eq_iff body row).1,
            role_needed_iff now hrow hown hadmin hroleRefusal]
          constructor
          · rintro ⟨⟨hnamed, haddressed⟩, hneeded⟩
            refine ⟨by simp [hemailFits], fun _ _ _ => ⟨hnamed, haddressed, ?_⟩, by simp [hroleRefusal]⟩
            rwa [hroleRefusal]
          · intro h
            have hrefused := h.role hnameFits hemailFits (by simp [hroleRefusal])
            rw [hroleRefusal] at hrefused
            exact ⟨⟨hrefused.1, hrefused.2.1⟩, hrefused.2.2⟩
        | none =>
          rw [hroleRefusal] at hrole
          dsimp only at hrole
          rw [update_update] at hrole
          have hcount' : (d.update id (body.ranked ∘ body.addressed ∘ body.named)).enabledAdminCount =
              (d.update id body.ranked).enabledAdminCount := by
            refine enabledAdminCount_congr d id fun row => ?_
            obtain ⟨hrole, hidp, hdisabled⟩ := written_access body row
            simp only [Function.comp, Body.ranked, PrincipalRow.enabledAdmin, PrincipalRow.isAdmin]
            split <;> simp only [hrole, hidp, hdisabled]
          have hswitch := patchDisabled_eq hcount' now actor row
          cases hdisable : disableRefusal d id actor row body with
          | some why =>
            have hpatch : patchUser now actor id body d =
                (d.update id (body.ranked ∘ body.addressed ∘ body.named), some why) := by
              simp only [patchUser, hadmitted, andThen, hname, hemail, hrole, hswitch.1 why hdisable]
            rw [lawful_of_refused hpatch, update_eq_self_iff hrow, Function.comp, Function.comp,
              (written_eq_iff body row).2, disable_needed_iff now hrow hown hadmin hroleRefusal hdisable]
            constructor
            · rintro ⟨⟨hnamed, haddressed, hranked⟩, hneeded⟩
              refine ⟨by simp [hemailFits], by simp [hroleRefusal], fun _ _ _ _ =>
                ⟨hnamed, haddressed, hranked, ?_⟩⟩
              rwa [hdisable]
            · intro h
              have hrefused := h.disabled hnameFits hemailFits hroleRefusal (by simp [hdisable])
              rw [hdisable] at hrefused
              exact ⟨⟨hrefused.1, hrefused.2.1, hrefused.2.2.1⟩, hrefused.2.2.2⟩
          | none =>
            obtain ⟨next, hpatched, hsame, hown', hrows⟩ := hswitch.2 hdisable
            by_cases hempty : body.isEmpty = true
            · have hnone : body.displayName = none ∧ body.email = none ∧ body.role = none ∧
                  body.disabled = none := by
                simpa [Body.isEmpty, and_assoc] using hempty
              have hpatch : patchUser now actor id body d = (next, some .nothing) := by
                simp only [patchUser, hadmitted, andThen, hname, hemail, hrole, hpatched, hempty, if_true]
              rw [lawful_of_refused hpatch, hsame hnone.2.2.2, update_eq_self_iff hrow]
              refine ⟨fun _ => ⟨?_, ?_, ?_⟩, fun _ => ⟨?_, by rintro change ⟨⟩⟩⟩
              · simp [hemailFits]
              · simp [hroleRefusal]
              · simp [hdisable]
              · simp [Body.ranked, Body.addressed, Body.named, hnone]
            · have hpatch : patchUser now actor id body d = (next, none) := by
                simp only [patchUser, hadmitted, andThen, hname, hemail, hrole, hpatched,
                  eq_false_of_ne_true hempty, Bool.false_eq_true, if_false]
              have hkept := kept_of_unrefused now hrow hown hadmin hroleRefusal hown'
              have hactor : next.row actor = some (if actor = id
                  then body.switched now (body.ranked (body.addressed (body.named own))) else own) := by
                rw [hrows, row_update, hown, Option.map_some, Option.map_some]
                split <;> rfl
              refine ⟨fun _ => ⟨?_, ?_, ?_⟩, fun _ => ⟨?_, fun _ => ?_, ?_⟩⟩
              · simp [hemailFits]
              · simp [hroleRefusal]
              · simp [hdisable]
              · simp [hpatch]
              · rw [hpatch]
                exact ⟨enabledAdminCount_pos hactor hkept, by simpa [hactor] using hkept⟩
              · simp [hpatch]

/-- The name is written though the address is refused, and an administrator who is disabled cannot be demoted
where there is one other. -/
theorem patch_partly_written :
    ∃ d : Directory, ¬ AllOrNothing 7 1 2 { displayName := some (some ['B']), email := some (some ['x']) } d ∧
      ¬ AllOrNothing 7 1 2 { role := some "member" } d := by
  refine ⟨⟨[(1, ⟨.local_, ['a'], none, .admin, false, none, 0, none⟩),
    (2, ⟨.local_, ['b'], none, .admin, false, some 3, 0, none⟩)], by decide, []⟩, fun h => ?_, fun h => ?_⟩
  · have hsame := congrArg Directory.principals (h.refused .emailForm (by decide))
    exact absurd hsame (by decide)
  · exact absurd (h.needed .demote (by decide)) (by decide)

end Apim.ControlPlane.Accounts
