import Noxara.MembershipEffects

/-! Users of the identity provider. Each is an identity row under the provider's own id, next to the
membership of the user that it names. -/
namespace Noxara.Workspace

open Authz Transaction
open Finance (Uuid Timestamp Formats)

/-- Lower case, as Unicode has it. -/
class Casing where
  toLowercase : String → String

@[reducible] def canonicalCasing : Casing where
  toLowercase := String.toLower

structure ScimEmail where
  value : String
  primary : Bool

structure ScimUserBody where
  userName : Option String
  displayName : Option String
  externalId : Option String
  active : Option Bool
  emails : Option (List ScimEmail)

structure ScimError where
  status : Nat
  detail : String
  deriving DecidableEq

structure UserResource where
  externalId : String
  userPublic : String
  userName : String
  email : String
  displayName : String
  active : Bool
  deriving DecidableEq

inductive ScimResponse
  | user (status : Nat) (resource : UserResource)
  | error (e : ScimError)
  | noContent
  deriving DecidableEq

def userNotFound : ScimResponse := .error ⟨404, "User not found"⟩

abbrev ScimTx (α : Type) := Prog Store Lock ScimError α

def internalError (message : String) : ScimError := ⟨500, message⟩

def Store.setUsers (s : Store) (f : Table Uuid UserRow → Table Uuid UserRow) : Store :=
  { s with users := f s.users }

def Store.setScimIdentities (s : Store) (f : Table String ScimIdentityRow → Table String ScimIdentityRow) :
    Store := { s with scimIdentities := f s.scimIdentities }

def ScimUserBody.address [Casing] (body : ScimUserBody) : Option String :=
  let email := body.emails.bind fun es => (es.find? (·.primary)).or es.head?
  ((email.map fun e => Casing.toLowercase e.value).or (body.userName.map Casing.toLowercase))

section
variable [Formats]

def provisionedUser (ctx : RequestCtx) (email display : String) : ScimTx Uuid := do
  let uid := ctx.fresh 0
  .execute (fun _ => [.user email])
    (fun v => if ¬(v.users.rows.any fun r => r.2.emailNormalized = email) ∧ uid ∈ v.users.keys then
        .error (internalError
          "error returned from database: duplicate key value violates unique constraint \"user_identity_pkey\"")
      else .ok ())
    fun v s =>
      if v.users.rows.any fun r => r.2.emailNormalized = email then s
      else s.setUsers (·.insert uid ⟨publicIdStr .user uid, email, display⟩)
  let found ← .query fun s => s.users.rows.find? fun r => r.2.emailNormalized = email
  return (found.map Prod.fst).getD uid

/-- A membership as `member`, or the one that is there, active again with the role it has. -/
def provisionMembership (membershipId userId : Uuid) (roleId : Option Uuid) (s : Store) : Store :=
  s.setMemberships fun t =>
    match t.find? userId with
    | some _ => t.modify userId fun m => { m with status := .active, revokedAt := none }
    | none => t.insert userId
        ⟨membershipId, publicIdStr .membership membershipId, .member, roleId, none, none, 1, .active, none,
          none⟩

/-- The provider's id of a new user; one is made up where the request has none. -/
def ScimUserBody.identityId (body : ScimUserBody) (ctx : RequestCtx) : String :=
  body.externalId.getD s!"scim-user-{Formats.uuidDisplay (ctx.fresh 2)}"

def createUser [Casing] (ctx : RequestCtx) (body : ScimUserBody) : ScimTx ScimResponse := do
  let email ← .okOr body.address ⟨400, "userName or emails required"⟩
  let externalId := body.identityId ctx
  let display := body.displayName.getD email
  let active := body.active.getD true
  let userId ← provisionedUser ctx email display
  let roleId ← .query fun s =>
    (s.roles.rows.find? fun r => r.2.systemKey = some "member").map Prod.fst
  .execute (fun _ => [.membership userId])
    (fun v => if userId ∉ v.memberships.keys ∧ (v.membershipById (ctx.fresh 1)).isSome then
        .error (internalError
          "error returned from database: duplicate key value violates unique constraint \"membership_pkey\"")
      else .ok ())
    fun _ => provisionMembership (ctx.fresh 1) userId roleId
  .execute (fun _ => [.scimIdentity externalId]) (fun _ => .ok ()) fun _ s =>
    s.setScimIdentities (·.upsert externalId ⟨some userId, active⟩)
  return .user 201 ⟨externalId, publicIdStr .user userId, email, email, display, active⟩

end

def getUser (externalId : String) : ScimTx ScimResponse := do
  let row ← .query fun s =>
    (s.scimIdentities.find? externalId).bind fun i => i.userId.map fun u => (u, i.active)
  match row with
  | none => return userNotFound
  | some (userId, active) =>
    let info ← .query (·.users.find? userId)
    match info with
    | none => return userNotFound
    | some u => return .user 200 ⟨externalId, u.publicId, u.emailNormalized, u.emailNormalized, u.displayName,
        active⟩

def openSessionsOf (userId : Uuid) (s : Store) : List Uuid :=
  (s.sessions.rows.filter fun r => r.2.userId = userId ∧ r.2.revokedAt = none).map Prod.fst

/-- Take the access of a user away. -/
def deprovision (now : Timestamp) (userId : Uuid) : ScimTx Unit := do
  .execute (fun v => (v.liveMembership userId).toList.map fun _ => .membership userId) (fun _ => .ok ())
    fun v s =>
      if (v.liveMembership userId).isSome then
        s.setMemberships (·.modify userId fun m => { m with revokedAt := some now, status := .revoked })
      else s
  .updateRows (openSessionsOf userId) .session (fun v id => id ∈ openSessionsOf userId v)
    (closeSession now "scim_deprovision")

def reprovision (userId : Uuid) : ScimTx Unit :=
  .execute (fun v => (v.memberships.find? userId).toList.map fun _ => .membership userId)
    (fun _ => .ok ()) fun _ s =>
      s.setMemberships (·.modify userId fun m => { m with revokedAt := none, status := .active })

/-- What a request without `active` leaves as it was. -/
def patchUserInner (ctx : RequestCtx) (id : String) (bodyActive : Option Bool) : ScimTx ScimResponse := do
  let row ← .query fun s => (s.scimIdentities.find? id).bind fun i => i.userId.map fun u => (u, i.active)
  match row with
  | none => return userNotFound
  | some (userId, prevActive) =>
    let active := bodyActive.getD prevActive
    .execute (fun _ => [.scimIdentity id]) (fun _ => .ok ()) fun _ s =>
      s.setScimIdentities (·.modify id fun i => { i with active })
    if active then reprovision userId else deprovision ctx.now userId
    getUser id

def replaceUser (ctx : RequestCtx) (id : String) (body : ScimUserBody) : ScimTx ScimResponse :=
  patchUserInner ctx id body.active

def asBool : Json → Option Bool
  | .bool b => some b
  | _ => none

/-- `active` at the top level, or the first operation on `active` that has a truth value. -/
def patchActive (body : Json) : Option Bool :=
  ((body.get "active").bind asBool).or <|
    match body.get "Operations" with
    | some (.array ops) => ops.findSome? fun op =>
      let path := ((op.get "path").bind Json.asStr).getD ""
      if path.toLower = "active" then (op.get "value").bind asBool else none
    | _ => none

def patchUser (ctx : RequestCtx) (id : String) (body : Json) : ScimTx ScimResponse :=
  patchUserInner ctx id (patchActive body)

def deleteUser (ctx : RequestCtx) (id : String) : ScimTx ScimResponse := do
  let _ ← patchUserInner ctx id (some false)
  return .noContent

example : patchActive (.ofFields [("Operations", .array [.ofFields
    [("op", .string "replace"), ("path", .string "Active"), ("value", .bool false)]])]) = some false := by
  decide +kernel

end Noxara.Workspace
