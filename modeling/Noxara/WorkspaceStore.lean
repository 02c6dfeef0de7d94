import Noxara.AuthzDecisions
import Noxara.FinanceSchema
import Noxara.TransactionProgram

/-! The members of one organisation: their memberships and roles, what they are granted, their
sessions, and the identities an identity provider keeps of them. Columns that no modelled handler
reads are left out. -/
namespace Noxara.Workspace

open Authz Transaction
open Finance (Uuid Timestamp Formats PublicId IdKind AppError)

inductive MembershipStatus
  | active | suspended | revoked
  deriving DecidableEq

structure UserRow where
  publicId : String
  emailNormalized : String
  displayName : String

structure MembershipRow where
  id : Uuid
  publicId : String
  role : Role
  roleId : Option Uuid
  teamId : Option Uuid
  departmentId : Option Uuid
  policyVersion : Int
  status : MembershipStatus
  suspendedAt : Option Timestamp
  revokedAt : Option Timestamp

def MembershipRow.Active (m : MembershipRow) : Prop := m.status = .active ∧ m.revokedAt = none

instance (m : MembershipRow) : Decidable m.Active := inferInstanceAs (Decidable (_ ∧ _))

structure RoleRow where
  publicId : String
  systemKey : Option String

structure RolePermissionRow where
  roleId : Uuid
  permissionId : PermissionId
  effect : Effect
  scope : Scope
  conditions : Json

structure TeamRow where
  publicId : String
  parentTeamId : Option Uuid

structure InheritGrantRow where
  teamId : Uuid
  permissionId : PermissionId
  effect : Effect
  scope : String

structure DelegationRow where
  publicId : String
  fromMembershipId : Uuid
  toMembershipId : Uuid
  permissionId : PermissionId
  scope : String
  expiresAt : Timestamp
  createdBy : Uuid
  revokedAt : Option Timestamp

inductive InvitationStatus
  | pending | accepted | revoked | expired
  deriving DecidableEq

structure InvitationRow where
  emailNormalized : String
  roleId : Uuid
  status : InvitationStatus
  expiresAt : Timestamp
  acceptedUserId : Option Uuid

structure ScimIdentityRow where
  userId : Option Uuid
  active : Bool

structure SessionRow where
  familyId : Uuid
  userId : Uuid
  membershipId : Uuid
  lastSeenAt : Timestamp
  revokedAt : Option Timestamp
  revokeReason : Option String

structure RefreshTokenRow where
  sessionId : Uuid
  familyId : Uuid
  tokenHash : String
  expiresAt : Timestamp
  rotatedAt : Option Timestamp
  replacedBy : Option Uuid
  revokedAt : Option Timestamp

structure Event where
  aggregate : String
  name : String
  payload : List (String × String)
  deriving DecidableEq

/-- Memberships are kept by user, of whom there is one each; invitations by the hash of their token,
and identities of users by their external id. -/
structure Store where
  users : Table Uuid UserRow
  memberships : Table Uuid MembershipRow
  roles : Table Uuid RoleRow
  rolePermissions : Table Uuid RolePermissionRow
  teams : Table Uuid TeamRow
  inheritGrants : Table Uuid InheritGrantRow
  delegations : Table Uuid DelegationRow
  invitations : Table String InvitationRow
  scimIdentities : Table String ScimIdentityRow
  sessions : Table Uuid SessionRow
  refreshTokens : Table Uuid RefreshTokenRow
  outbox : List Event

def Store.empty : Store :=
  ⟨.empty, .empty, .empty, .empty, .empty, .empty, .empty, .empty, .empty, .empty, .empty, []⟩

/-- The rows a statement can lock, and a unique key that an insert takes. -/
inductive Lock
  | user (email : String)
  | membership (userId : Uuid)
  | delegation (id : Uuid)
  | invitation (tokenHash : String)
  | scimIdentity (externalId : String)
  | session (id : Uuid)
  | refreshToken (id : Uuid)
  | refreshTokenHash (hash : String)
  deriving DecidableEq

abbrev Tx (α : Type) := Prog Store Lock AppError α

/-- The caller and the request: who is signed in, what authorization answers, the clock, and
identifiers made up along the way. -/
structure RequestCtx extends Finance.Caller where
  membershipId : Uuid
  authorize : PermissionId → Except AppError Unit

def RequestCtx.nth (n : Nat) : RequestCtx where
  actorUserId := 1
  membershipId := 101
  authorize _ := .ok ()
  now := 0
  fresh k := 100 * n + k

def unauthorized (detail : String) : AppError := ⟨.unauthorized, detail⟩

def roleOfKey (key : String) : Option Role :=
  [.owner, .admin, .finance, .sales, .manager, .member, .readOnly].find? (·.asStr = key)

def Store.membershipById (s : Store) (id : Uuid) : Option (Uuid × MembershipRow) :=
  s.memberships.rows.find? (·.2.id = id)

def Store.liveMembership (s : Store) (userId : Uuid) : Option MembershipRow :=
  (s.memberships.find? userId).filter (·.revokedAt.isNone)

section
variable {s : Store} {u : Uuid} {m : MembershipRow}

theorem find?_of_membershipById {id : Uuid} (h : s.membershipById id = some (u, m)) :
    s.memberships.find? u = some m ∧ m.id = id := by
  constructor
  · exact Table.find?_eq_some.mpr (List.mem_of_find?_eq_some h)
  · simpa using List.find?_some h

theorem liveMembership_eq_some : s.liveMembership u = some m ↔
    s.memberships.find? u = some m ∧ m.revokedAt = none := by
  simp [Store.liveMembership, Option.filter_eq_some_iff]

end

def Store.setMemberships (s : Store) (f : Table Uuid MembershipRow → Table Uuid MembershipRow) :
    Store := { s with memberships := f s.memberships }

def insertEvent (e : Event) : Tx Unit :=
  .execute (fun _ => []) (fun _ => .ok ()) fun _ s => { s with outbox := s.outbox ++ [e] }

section
variable [Formats]

def publicIdStr (kind : IdKind) (id : Uuid) : String := (PublicId.mk kind id).asStr

def parseUserRef (s : String) : Except AppError Uuid :=
  match Formats.uuidParseStr s with
  | some u => .ok u
  | none =>
    match PublicId.fromStr s with
    | .ok pid => .ok pid.uuid
    | .error _ => .error (Finance.validation "bad user id")

end

end Noxara.Workspace
