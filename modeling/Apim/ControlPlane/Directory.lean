import Apim.Lib.Guard
import Apim.Lib.Overlay
import Apim.Shared.Opmatch
import Apim.Shared.Routing

/-!
# The directory

Applications, the groups of the identity provider they are bound to, and who is a member of them
(`control-plane/src/auth-oidc.ts:428-590`, `control-plane/src/principals.ts:283-341`,
`control-plane/src/api/users.ts:311-541`). A sign-in and a claim re-read both end in `applyClaims`;
what is before them is not here. A handler reads its body before it reads a row it decides by, so
each of them is one step.

SQLite's `lower` folds the letters of ASCII, and JavaScript's `toLowerCase` those of Unicode.
-/

namespace Apim.Groups
open Overlay Opmatch Guard

/-- SQLite's `lower`. -/
def lower (text : String) : String := String.ofList (text.toList.map Char.toLower)

structure CaseFolding where
  toLowerCase : String → String
  fold_ascii : ∀ s, toLowerCase (lower s) = toLowerCase s
  fold_segments : ∀ s, segmentsOf (toLowerCase s) = (segmentsOf s).map toLowerCase

def PLATFORM_APPLICATION_ID : String := "platform"

/-! ### Rows -/

structure Application where
  id : String
  name : String
  sourceGroup : Option String
  deriving DecidableEq, Repr

inductive Source where
  | idp
  | locally
  deriving DecidableEq, Repr

structure Membership where
  source : Source
  grantedBy : Option String
  grantedAt : Option Nat
  deriving DecidableEq, Repr

structure Principal where
  username : String
  email : Option String
  displayName : String
  idpAdmin : Bool
  deriving DecidableEq, Repr

abbrev Memberships := String → String → Option Membership

structure Directory where
  applications : List Application
  memberships : Memberships
  principals : String → Option Principal

def trimmed (text : String) : String := String.ofList (Routing.trim text.toList)

def boundTo (sourceGroup : Option String) : Option String :=
  sourceGroup.filter fun group => trimmed group ≠ ""

/-! ### Groups -/

def isIdChar (c : Char) : Bool := c.isLower || c.isDigit || c == '_' || c == '-'

def isIdStart (c : Char) : Bool := c.isLower || c.isDigit

def hyphened : List Char → List Char
  | [] => []
  | c :: rest =>
    let kept := if isIdChar c then c else '-'
    match kept, hyphened rest with
    | '-', '-' :: more => '-' :: more
    | kept, more => kept :: more

def isApplicationId (id : List Char) : Bool :=
  match id with
  | [] => false
  | first :: rest =>
    isIdStart first && rest.all isIdChar && 1 ≤ rest.length && rest.length ≤ 47

def leafOf (group : String) : Option String := (segmentsOf group).getLast?

def idOfLeaf (leaf : String) : Option String :=
  let id := (((hyphened leaf.toList).dropWhile (!isIdStart ·)).reverse.dropWhile
    (!isIdStart ·)).reverse.take 48
  if isApplicationId id then some (String.ofList id) else none

section
variable (F : CaseFolding)

/-- `applicationIdForGroup` (`control-plane/src/auth-oidc.ts:436-446`). -/
def applicationIdForGroup (group : String) : Option String :=
  idOfLeaf (F.toLowerCase ((leafOf (trimmed group)).getD ""))

structure Mapping where
  applications : List Application
  bySourceGroup : Dict String String
  byId : Dict String (Option String)
  applicationIds : List String
  unmapped : List String

def keyOf (group : String) : String := F.toLowerCase (trimmed group)

def mapRow (m : Mapping) (row : Application) : Mapping :=
  { m with
    byId := m.byId.insert row.id row.sourceGroup
    bySourceGroup :=
      match boundTo row.sourceGroup with
      | some group => m.bySourceGroup.insert (keyOf F group) row.id
      | none => m.bySourceGroup }

def Mapping.start (applications : List Application) : Mapping :=
  (applications.filter (·.id ≠ PLATFORM_APPLICATION_ID)).foldl (mapRow F) ⟨applications, ∅, ∅, [], []⟩

def added (values : List String) (value : String) : List String :=
  if values.contains value then values else values ++ [value]

def lastPart (value : String) : String := (leafOf value).getD value

def Mapping.hit (m : Mapping) (value : String) : Option String :=
  (m.bySourceGroup.lookup (F.toLowerCase value)).or
    (m.bySourceGroup.lookup (F.toLowerCase (lastPart value)))

def Mapping.bind (m : Mapping) (id value : String) (applications : List Application) : Mapping :=
  { m with
    applications := applications
    bySourceGroup := m.bySourceGroup.insert (F.toLowerCase value) id
    byId := m.byId.insert id (some value)
    applicationIds := added m.applicationIds id }

def rebound (applications : List Application) (id : String) (sourceGroup : Option String) :
    List Application :=
  applications.map fun row => if row.id = id then { row with sourceGroup := sourceGroup } else row

/-- One turn of the loop (`control-plane/src/auth-oidc.ts:494-528`). -/
def mapGroup (m : Mapping) (raw : String) : Except String Mapping :=
  let value := trimmed raw
  if value = "" then .ok m
  else
    match m.hit F value with
    | some id => .ok { m with applicationIds := added m.applicationIds id }
    | none =>
      let refused := { m with unmapped := added m.unmapped value }
      match applicationIdForGroup F value with
      | none => .ok refused
      | some id =>
        if id = PLATFORM_APPLICATION_ID then .ok refused
        else
          match m.byId.lookup id with
          | some held =>
            if (boundTo held).isSome then .ok refused
            else .ok (m.bind F id value (rebound m.applications id (some value)))
          | none =>
            -- the name of an application is unique
            if m.applications.any (·.name == lastPart value) then
              .error "UNIQUE constraint failed: application.name"
            else .ok (m.bind F id value (m.applications ++ [⟨id, lastPart value, some value⟩]))

/-- `mapGroupsToApplications`, up to the group it throws at. Nothing takes back what was written
before that. -/
def mapGroups : Mapping → List String → Mapping × Option String
  | m, [] => (m, none)
  | m, raw :: groups =>
    match mapGroup F m raw with
    | .ok m => mapGroups m groups
    | .error error => (m, some error)

end

/-! ### Memberships -/

/-- `ON CONFLICT (application_id, user_id) DO UPDATE`: a local grant outranks one of the provider, and
what is known of an earlier grant stays. -/
def regranted (old : Option Membership) (source : Source) (grantedBy : String) (now : Nat) :
    Membership :=
  match old with
  | none => ⟨source, some grantedBy, some now⟩
  | some old =>
    { source := if old.source = .locally ∨ source = .locally then .locally else .idp
      grantedBy := old.grantedBy.or (some grantedBy)
      grantedAt := old.grantedAt.or (some now) }

/-- `grantMembership` (`control-plane/src/principals.ts:285-310`). -/
def grantMembership (now : Nat) (userId applicationId : String) (source : Source)
    (grantedBy : String) (memberships : Memberships) : Except String Memberships := do
  ensure (applicationId ≠ PLATFORM_APPLICATION_ID)
    s!"\"{PLATFORM_APPLICATION_ID}\" is the portal's own application and has no members"
  return fun application user =>
    if application = applicationId ∧ user = userId then
      some (regranted (memberships application user) source grantedBy now)
    else memberships application user

def dropStale (userId : String) (wanted : List String) (memberships : Memberships) : Memberships :=
  fun application user =>
    (memberships application user).filter fun row =>
      !(user == userId && row.source == .idp && !wanted.contains application)

/-- `syncIdpMemberships` (`control-plane/src/principals.ts:324-340`). -/
def syncIdpMemberships (now : Nat) (userId : String) (wanted : List String)
    (memberships : Memberships) : Except String Memberships :=
  wanted.foldlM (fun memberships applicationId =>
    grantMembership now userId applicationId .idp "idp-sync" memberships)
      (dropStale userId wanted memberships)

structure ClaimIdentity where
  username : String
  email : Option String
  displayName : String
  isAdmin : Bool
  groups : List String
  deriving DecidableEq, Repr

def Principal.claimed (row : Principal) (identity : ClaimIdentity) : Principal where
  username := if identity.username = "" then row.username else identity.username
  email := identity.email
  displayName := if identity.displayName = "" then row.displayName else identity.displayName
  idpAdmin := identity.isAdmin

section
variable (F : CaseFolding)

/-- `applyClaims` (`control-plane/src/auth-oidc.ts:562-593`). What is written before a throw stays. -/
def applyClaims (now : Nat) (d : Directory) (userId : String) (row : Principal)
    (identity : ClaimIdentity) : Directory :=
  match mapGroups F (Mapping.start F d.applications) identity.groups with
  | (m, some _) => { d with applications := m.applications }
  | (m, none) =>
    let d := { d with
      applications := m.applications
      principals := Function.update d.principals userId (some (row.claimed identity)) }
    match syncIdpMemberships now userId m.applicationIds d.memberships with
    | .ok memberships => { d with memberships := memberships }
    | .error _ => d

end

/-! ### What administrators write -/

def nameFits (name : String) : Bool :=
  2 ≤ Routing.utf16Length name.toList && Routing.utf16Length name.toList ≤ 80

def sameName (name : String) (row : Application) : Bool := lower row.name == lower name

def givenGroup (sourceGroup : Option String) : Option String :=
  (sourceGroup.map trimmed).filter (· ≠ "")

/-- `assertSourceGroupFree` (`control-plane/src/api/users.ts:568-580`): the first row that has the
group is looked at. -/
def assertSourceGroupFree (applications : List Application) (sourceGroup : String)
    (exceptId : Option String) : Except String Unit :=
  match applications.find? fun row => row.sourceGroup.any (lower · == lower sourceGroup) with
  | some clash =>
    ensure (some clash.id = exceptId)
      (s!"the group \"{sourceGroup}\" already maps to the application \"{clash.name}\". One group " ++
        "maps to one application, or a user's applications would depend on which row was read first.")
  | none => return ()

def assertGivenFree (applications : List Application) (sourceGroup : Option String)
    (exceptId : Option String) : Except String Unit :=
  match sourceGroup with
  | some group => assertSourceGroupFree applications group exceptId
  | none => return ()

/-- What `POST /api/applications` reads; `generated` is the id it makes where none is given. -/
structure CreateBody where
  name : Option String
  sourceGroup : Option String
  id : Option String
  generated : String

def CreateBody.newId (body : CreateBody) : String :=
  match (body.id.map trimmed).filter (· ≠ "") with
  | some id => id
  | none => body.generated

/-- `POST /api/applications` (`control-plane/src/api/users.ts:436-474`). -/
def createApplication (applications : List Application) (body : CreateBody) :
    Except String (List Application) := do
  let name := trimmed (body.name.getD "")
  ensure (nameFits name) "name: 2–80 characters"
  ensure (!applications.any (sameName name)) s!"an application called \"{name}\" already exists"
  let sourceGroup := givenGroup body.sourceGroup
  assertGivenFree applications sourceGroup none
  ensure (isApplicationId body.newId.toList)
    "id: lower-case letters, digits, hyphens and underscores, 2–48 characters"
  ensure (!applications.any (·.id == body.newId))
    s!"an application with id \"{body.newId}\" already exists"
  return applications ++ [⟨body.newId, name, sourceGroup⟩]

def renameApplication (applications : List Application) (id : String) (name : Option String) :
    Except String (List Application) :=
  match name with
  | none => return applications
  | some name => do
    let name := trimmed name
    ensure (nameFits name) "name: 2–80 characters"
    ensure (!applications.any fun row => sameName name row && row.id != id)
      s!"another application is called \"{name}\""
    return applications.map fun row => if row.id = id then { row with name := name } else row

/-- The group of `PATCH /api/applications/:id`, with `null` as an inner `none`. -/
def regroupApplication (applications : List Application) (id : String)
    (sourceGroup : Option (Option String)) : Except String (List Application) :=
  match sourceGroup with
  | none => return applications
  | some sourceGroup => do
    let value := givenGroup sourceGroup
    assertGivenFree applications value (some id)
    return rebound applications id value

/-- `PATCH /api/applications/:id` (`control-plane/src/api/users.ts:476-505`). A group that is refused
leaves the new name written. -/
def updateApplication (applications : List Application) (id : String) (name : Option String)
    (sourceGroup : Option (Option String)) : List Application :=
  match renameApplication applications id name with
  | .error _ => applications
  | .ok renamed =>
    match regroupApplication renamed id sourceGroup with
    | .error _ => renamed
    | .ok regrouped => regrouped

/-! ### Steps -/

inductive Event where
  | register (userId : String) (row : Principal)
  | claims (now : Nat) (userId : String) (identity : ClaimIdentity)
  | create (body : CreateBody)
  | update (id : String) (name : Option String) (sourceGroup : Option (Option String))
  | remove (id : String) (owned : Nat)
  | grant (now : Nat) (userId applicationId actor : String)
  | revoke (userId applicationId : String)

section
variable (F : CaseFolding)

def step (d : Directory) : Event → Option Directory
  | .register userId row =>
    match d.principals userId with
    | some _ => none
    | none => some { d with principals := Function.update d.principals userId (some row) }
  | .claims now userId identity =>
    (d.principals userId).map fun row => applyClaims F now d userId row identity
  | .create body =>
    match createApplication d.applications body with
    | .ok applications => some { d with applications := applications }
    | .error _ => some d
  | .update id name sourceGroup =>
    some { d with applications := updateApplication d.applications id name sourceGroup }
  | .remove id owned =>
    if 0 < owned then some d
    else some { d with
      applications := d.applications.filter (·.id ≠ id)
      memberships := fun application user =>
        if application = id then none else d.memberships application user }
  | .grant now userId applicationId actor =>
    match grantMembership now userId applicationId .locally actor d.memberships with
    | .ok memberships => some { d with memberships := memberships }
    | .error _ => some d
  | .revoke userId applicationId =>
    some { d with memberships := fun application user =>
      if application = applicationId ∧ user = userId then none else d.memberships application user }

end

end Apim.Groups
