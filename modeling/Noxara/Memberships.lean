import Noxara.Sessions

/-! What administrators do to memberships: change the role of a member, suspend or revoke the
membership, and what an accepted invitation makes of it. -/
namespace Noxara.Workspace

open Authz Transaction
open Finance (Uuid Formats PublicId AppError notFound validation conflict)

def databaseError (message : String) : AppError :=
  ⟨.internal, s!"error returned from database: {message}"⟩

/-- The column takes the roles of the system templates only. -/
def roleColumn (key : String) : Except AppError Role :=
  match roleOfKey key with
  | some r => .ok r
  | none => .error (databaseError
      "new row for relation \"membership\" violates check constraint \"membership_role_check\"")

def MembershipRow.ActiveOwner (m : MembershipRow) : Prop :=
  m.role = .owner ∧ m.status = .active ∧ m.revokedAt = none

instance (m : MembershipRow) : Decidable m.ActiveOwner := inferInstanceAs (Decidable (_ ∧ _))

def activeOwnerCount (s : Store) : Nat := s.memberships.values.countP (·.ActiveOwner)

/-- Can the target's membership be revoked, suspended or demoted without leaving no active owner? -/
def ensureNotLastOwner (targetUserId : Uuid) : Tx Unit := do
  let row ← .query (·.liveMembership targetUserId)
  match row with
  | none => return ()
  | some m =>
    if m.role ≠ .owner ∨ m.status ≠ .active then return ()
    else do
      let count ← .query activeOwnerCount
      .require (¬count ≤ 1) (conflict "cannot remove, suspend, or demote the last active Owner")

section
variable [Formats]

def roleByKey (roleRef : String) : Tx (Uuid × String × String) :=
  if (Role.parse roleRef).isSome then do
    let row ← .query fun s => s.roles.rows.find? fun r => r.2.systemKey = some roleRef
    let (id, r) ← .okOr row ⟨.notFound, s!"system role '{roleRef}' not provisioned"⟩
    return (id, roleRef, r.publicId)
  else .fail (validation "role must be rol_… or a system key")

/-- A role by its public id or by its system key, with the key that memberships keep of it. -/
def resolveRole (roleRef : String) : Tx (Uuid × String × String) :=
  match PublicId.fromStr roleRef with
  | .ok pubId =>
    if pubId.kind = .role then do
      let row ← .query (·.roles.find? pubId.uuid)
      let r ← .okOr row (notFound "role")
      return (pubId.uuid, r.systemKey.getD "member", r.publicId)
    else roleByKey roleRef
  | .error _ => roleByKey roleRef

def userEvent (name : String) (target : Uuid) (more : List (String × String)) : Event :=
  ⟨"workspace", name, ("user_id", publicIdStr .user target) :: more⟩

def changeMemberRole (ctx : RequestCtx) (targetUser roleRef : String) : Tx String := do
  .ofExcept (ctx.authorize "workspace.role.assign")
  let target ← .ofExcept (parseUserRef targetUser)
  let (roleId, roleKey, _) ← resolveRole roleRef
  let current ← .query (·.liveMembership target)
  let m ← .okOr current (notFound "membership")
  if m.role = .owner ∧ roleKey ≠ "owner" then ensureNotLastOwner target
  let role ← .ofExcept (roleColumn roleKey)
  .execute (fun _ => [.membership target]) (fun _ => .ok ()) fun _ s =>
    s.setMemberships (·.modify target fun m =>
      { m with role, roleId := some roleId, policyVersion := m.policyVersion + 1 })
  insertEvent (userEvent "role.revoked" target [("role", m.role.asStr)])
  insertEvent (userEvent "role.assigned" target [("role", roleKey)])
  return "role updated"

def suspendMember (ctx : RequestCtx) (targetUser : String) : Tx String := do
  .ofExcept (ctx.authorize "workspace.member.suspend")
  let target ← .ofExcept (parseUserRef targetUser)
  ensureNotLastOwner target
  .execute (fun v => ((v.liveMembership target).filter (·.status = .active)).toList.map fun _ =>
      .membership target)
    (fun v => if ((v.liveMembership target).filter (·.status = .active)).isSome then .ok ()
      else .error (notFound "active membership"))
    fun _ s => s.setMemberships (·.modify target fun m =>
      { m with status := .suspended, suspendedAt := some ctx.now, policyVersion := m.policyVersion + 1 })
  let _ ← revokeOrgUserSessions ctx.now target
  insertEvent (userEvent "membership.suspended" target [])
  return "membership suspended"

def revokeMember (ctx : RequestCtx) (targetUser : String) : Tx String := do
  .ofExcept (ctx.authorize "workspace.member.revoke")
  let target ← .ofExcept (parseUserRef targetUser)
  ensureNotLastOwner target
  .execute (fun v => (v.liveMembership target).toList.map fun _ => .membership target)
    (fun v => if (v.liveMembership target).isSome then .ok () else .error (notFound "membership"))
    fun _ s => s.setMemberships (·.modify target fun m =>
      { m with status := .revoked, revokedAt := some ctx.now, policyVersion := m.policyVersion + 1 })
  let _ ← revokeOrgUserSessions ctx.now target
  insertEvent (userEvent "membership.revoked" target [])
  insertEvent (userEvent "user.deactivated" target [])
  return "membership revoked"

/-- The membership of a user is there with the role and active, whatever it was before. -/
def upsertMembership (userId membershipId : Uuid) (role : Role) (roleId : Uuid) (s : Store) : Store :=
  s.setMemberships fun t =>
    match t.find? userId with
    | some _ => t.modify userId fun m =>
        { m with role, roleId := some roleId, status := .active, revokedAt := none,
                 policyVersion := m.policyVersion + 1 }
    | none => t.insert userId
        ⟨membershipId, publicIdStr .membership membershipId, role, some roleId, none, none, 1, .active,
          none, none⟩

def validateStrength (password : String) : Except AppError Unit :=
  if password.utf8ByteSize < 10 then
    .error (validation "password too weak: password must be at least 10 characters")
  else if 128 < password.length then
    .error (validation "password too weak: password must be at most 128 characters")
  else .ok ()

structure AcceptInviteRequest where
  token : String
  password : Option String
  displayName : Option String

/-- The user who is invited: known by the address, or new with a password. The source commits a new
user on its own. -/
def invitedUser (ctx : RequestCtx) (email : String) (body : AcceptInviteRequest) : Tx Uuid := do
  let existing ← .query fun s => s.users.rows.find? fun r => r.2.emailNormalized = email
  match existing with
  | some (id, _) => return id
  | none =>
    let password ← .okOr body.password (validation "password required for new users")
    .ofExcept (validateStrength password)
    let uid := ctx.fresh 0
    .execute (fun _ => [.user email])
      (fun v => if v.users.rows.any fun r => r.2.emailNormalized = email then
          .error (databaseError
            "duplicate key value violates unique constraint \"user_identity_email_normalized_key\"")
        else if uid ∈ v.users.keys then
          .error (databaseError "duplicate key value violates unique constraint \"user_identity_pkey\"")
        else .ok ())
      fun _ s =>
        let user := ⟨publicIdStr .user uid, email, body.displayName.getD email⟩
        { s with users := s.users.insert uid user }
    return uid

def joinOrganization (ctx : RequestCtx) (tokenHash : String) (inv : InvitationRow) (userId : Uuid) :
    Tx Unit := do
  let role ← .query fun s => s.roles.find? inv.roleId
  let roleKey := ((role.map fun r => r.systemKey.getD "member").getD "member")
  let role ← .ofExcept (roleColumn roleKey)
  .execute (fun _ => [.membership userId])
    (fun v => if userId ∉ v.memberships.keys ∧ (v.membershipById (ctx.fresh 1)).isSome then
        .error (databaseError "duplicate key value violates unique constraint \"membership_pkey\"")
      else .ok ())
    fun _ => upsertMembership userId (ctx.fresh 1) role inv.roleId
  .execute (fun _ => [.invitation tokenHash]) (fun _ => .ok ()) fun _ s =>
    { s with invitations := s.invitations.modify tokenHash fun i =>
        { i with status := .accepted, acceptedUserId := some userId } }
  insertEvent (userEvent "membership.created" userId
    [("membership_id", publicIdStr .membership (ctx.fresh 1)), ("role", roleKey), ("via", "invitation")])
  insertEvent (userEvent "role.assigned" userId [("role", roleKey)])

def acceptInvitation [TokenHash] (ctx : RequestCtx) (body : AcceptInviteRequest) : Tx String := do
  let tokenHash := TokenHash.hashToken body.token
  let found ← .query (·.invitations.find? tokenHash)
  let inv ← .okOr found (notFound "invitation")
  .require (inv.status = .pending) (conflict "invitation not pending")
  .require (¬inv.expiresAt < ctx.now) (validation "invitation expired")
  let userId ← invitedUser ctx inv.emailNormalized body
  joinOrganization ctx tokenHash inv userId
  return "invitation accepted"

end

end Noxara.Workspace
