import Noxara.IntervalHistory
import Noxara.MembershipEffects
import Noxara.OrgProvisioning

/-! The access review: who could see something in a period is read off the history of entitlements. It is compared
with what the memberships and the statements of their roles granted: the history says who could see what, as long as
every request that changes what somebody is granted is one that records it. Only provisioning does. -/
namespace Noxara.Workspace

open Authz Transaction History
open Finance (Uuid Timestamp Formats AppError)

/-- A period of time, which ends no earlier than it starts. -/
structure Period where
  start : Timestamp
  stop : Timestamp
  ordered : start ≤ stop

/-- The entitlements to a permission that reach into the period, oldest first; the addresses of the users
are left out. -/
def fetchCouldSee (o : Organization) (permissionId : PermissionId) (period : Period) : List EntitlementRow :=
  (o.entitlements.filter fun h => (o.store.users.find? h.userId).isSome ∧ h.permissionId = permissionId ∧
    h.effect = .allow ∧ h.effectiveFrom ≤ period.stop ∧ h.effectiveTo.all (period.start ≤ ·)).mergeSort
      fun a b => a.effectiveFrom ≤ b.effectiveFrom

def whoCouldSee (permissionId : PermissionId) (period : Period) : OrganizationTx (List EntitlementRow) :=
  .query fun o => fetchCouldSee o permissionId period

def CouldSee (o : Organization) (userId : Uuid) (permissionId : PermissionId) (period : Period) : Prop :=
  ∃ found p, (whoCouldSee permissionId period).run o = .ok (found, p) ∧ ∃ h ∈ found, h.userId = userId

theorem couldSee_iff_fetched {o : Organization} {userId : Uuid} {permissionId : PermissionId} {period : Period} :
    CouldSee o userId permissionId period ↔ ∃ h ∈ fetchCouldSee o permissionId period, h.userId = userId := by
  have hrun : (whoCouldSee permissionId period).run o = .ok (fetchCouldSee o permissionId period, o) := rfl
  constructor
  · rintro ⟨found, p, hfound, h⟩
    cases hrun.symm.trans hfound
    exact h
  · exact fun h => ⟨_, o, hrun, h⟩

/-- The active membership of the user grants the permission, through the statements of its role. -/
def Granted (s : Store) (k : Uuid × PermissionId) : Prop :=
  ∃ m, s.memberships.find? k.1 = some m ∧ m.Active ∧ GrantsByRole s m.roleId k.2

inductive ReviewOp
  | enqueueProvisioning (ctx : RequestCtx) (ownerUserId : Option Uuid)
  | processPending (ctx : RequestCtx)
  | acceptInvitation (ctx : RequestCtx) (body : AcceptInviteRequest)
  | changeMemberRole (ctx : RequestCtx) (targetUser roleRef : String)
  | suspendMember (ctx : RequestCtx) (targetUser : String)
  | revokeMember (ctx : RequestCtx) (targetUser : String)
  | updateRole (ctx : RequestCtx) (roleId : String) (body : UpsertRoleRequest)

def ReviewOp.ctx : ReviewOp → RequestCtx
  | enqueueProvisioning ctx _ | processPending ctx | acceptInvitation ctx _ | changeMemberRole ctx _ _
  | suspendMember ctx _ | revokeMember ctx _ | updateRole ctx _ _ => ctx

def discard {α : Type} (p : OrganizationTx α) : OrganizationTx Unit := p >>= fun _ => return ()

section
variable [Formats] [TokenHash]

def ReviewOp.body : ReviewOp → OrganizationTx Unit
  | enqueueProvisioning _ ownerUserId => Workspace.enqueueProvisioning ownerUserId
  | processPending ctx => discard (Workspace.processPending ctx)
  | acceptInvitation ctx body => discard (onMembers (Workspace.acceptInvitation ctx body))
  | changeMemberRole ctx targetUser roleRef =>
    discard (onMembers (Workspace.changeMemberRole ctx targetUser roleRef))
  | suspendMember ctx targetUser => discard (onMembers (Workspace.suspendMember ctx targetUser))
  | revokeMember ctx targetUser => discard (onMembers (Workspace.revokeMember ctx targetUser))
  | updateRole ctx roleId body => discard (Workspace.updateRole ctx roleId body)

/-- The user whom an invitation is for, known by the address or new. -/
def invitee (s : Store) (ctx : RequestCtx) (inv : InvitationRow) : Uuid :=
  ((s.users.rows.find? fun r => r.2.emailNormalized = inv.emailNormalized).map Prod.fst).getD (ctx.fresh 0)

/-- The request changes nobody's permissions but those that provisioning records: the new role of a
member grants what the old one did, no member is suspended or revoked who has a permission, an edited
role without active members may change. -/
def ReviewOp.Kept (o : Organization) : ReviewOp → Prop
  | enqueueProvisioning _ _ => True
  | processPending _ => ∀ cmd owner, o.command = some cmd → cmd.status ≠ .completed →
      cmd.ownerUserId = some owner →
      (∀ m, o.store.memberships.find? owner = some m → m.revokedAt = none) ∧
      ∀ u m rid, u ≠ owner → o.store.memberships.find? u = some m → m.Active → m.roleId = some rid →
        KeepsGrants o allSystem rid
  | acceptInvitation ctx body => ∀ inv, o.store.invitations.find? (TokenHash.hashToken body.token) = some inv →
      ∀ q, Granted o.store (invitee o.store ctx inv, q) ↔ GrantsByRole o.store (some inv.roleId) q
  | changeMemberRole _ targetUser roleRef => ∀ target m role, parseUserRef targetUser = .ok target →
      o.store.memberships.find? target = some m → m.Active →
      (resolveRole roleRef).run o.store = .ok (role, o.store) →
      ∀ q, GrantsByRole o.store m.roleId q ↔ GrantsByRole o.store (some role.1) q
  | suspendMember _ targetUser => ∀ target q, parseUserRef targetUser = .ok target →
      ¬Granted o.store (target, q)
  | revokeMember _ targetUser => ∀ target q, parseUserRef targetUser = .ok target →
      ¬Granted o.store (target, q)
  | updateRole _ roleId body => ∀ rid role u m, parseRoleId roleId = .ok rid →
      o.store.roles.find? rid = some role → role.systemKey ≠ some "owner" →
      o.store.memberships.find? u = some m → m.Active → m.roleId = some rid →
      ∀ q, GrantsByRole o.store (some rid) q ↔
        (lastScope q .allow body.permissions).isSome ∧ lastScope q .deny body.permissions = none

end

/-- The references that the database checks, and no entitlement denies. -/
structure ForeignKeys (o : Organization) : Prop where
  user : ∀ u m, o.store.memberships.find? u = some m → (o.store.users.find? u).isSome
  role : ∀ u m rid, o.store.memberships.find? u = some m → m.roleId = some rid →
    (o.store.roles.find? rid).isSome
  invited : ∀ hash inv, o.store.invitations.find? hash = some inv → (o.store.roles.find? inv.roleId).isSome
  entitled : ∀ h ∈ o.entitlements, (o.store.users.find? h.userId).isSome ∧ h.effect = .allow

structure NewOrganization (o : Organization) : Prop extends ForeignKeys o where
  noHistory : o.entitlements = []
  nothingGranted : ∀ k, ¬Granted o.store k

def EntitlementRow.span (h : EntitlementRow) : Span Timestamp (Uuid × PermissionId) :=
  ⟨(h.userId, h.permissionId), h.effectiveFrom, h.effectiveTo⟩

/-- The history of entitlements as spans of time, by user and permission. -/
def Organization.spans (o : Organization) : List (Span Timestamp (Uuid × PermissionId)) :=
  o.entitlements.map (·.span)

/-- A request keeps the references, and records what changes. -/
def Accounted (o p : Organization) (now : Timestamp) : Prop :=
  ForeignKeys p ∧ ∀ k, Continues o.spans p.spans (Granted o.store) (Granted p.store) k ∨
    Recorded o.spans p.spans (Granted p.store) now k

section
variable {o p : Organization}

theorem accounted_of_same {now : Timestamp} (hfk : ForeignKeys p) (hentitlements : p.entitlements = o.entitlements)
    (hgranted : ∀ k, Granted p.store k ↔ Granted o.store k) : Accounted o p now := by
  refine ⟨hfk, fun k => .inl ⟨hgranted k, fun s _ => ?_⟩⟩
  rw [Organization.spans, Organization.spans, hentitlements]

theorem grantsByRole_congr {s t : Store} (h : t.rolePermissions = s.rolePermissions) (rid : Option Uuid)
    (q : PermissionId) : GrantsByRole t rid q ↔ GrantsByRole s rid q := by
  cases rid <;> simp only [GrantsByRole, rolePermissionsOf, h]

theorem granted_modify {s t : Store} {u : Uuid} {f : MembershipRow → MembershipRow}
    (hpermissions : t.rolePermissions = s.rolePermissions) (hmembers : t.memberships = s.memberships.modify u f)
    (hsame : ∀ m q, s.memberships.find? u = some m →
      ((f m).Active ∧ GrantsByRole s (f m).roleId q ↔ m.Active ∧ GrantsByRole s m.roleId q))
    (k : Uuid × PermissionId) : Granted t k ↔ Granted s k := by
  simp only [Granted, grantsByRole_congr hpermissions, hmembers]
  by_cases hk : k.1 = u
  · rw [hk, Table.find?_modify_self]
    cases hm : s.memberships.find? u with
    | none => simp
    | some m => simpa using hsame m k.2 hm
  · rw [Table.find?_modify_ne _ _ hk]

theorem foreignKeys_modify {s : Store} {u : Uuid} {f : MembershipRow → MembershipRow}
    (hfk : ForeignKeys o) (hs : s.users = o.store.users) (hroles : s.roles = o.store.roles)
    (hinvitations : s.invitations = o.store.invitations) (hmembers : s.memberships = o.store.memberships.modify u f)
    (hf : ∀ m rid, o.store.memberships.find? u = some m → (f m).roleId = some rid →
      (o.store.roles.find? rid).isSome) : ForeignKeys { o with store := s } := by
  refine ⟨fun v m hm => ?_, fun v m rid hm hrid => ?_, ?_, ?_⟩
  · change (s.users.find? v).isSome
    change s.memberships.find? v = some m at hm
    have hthere := congrArg Option.isSome hm
    rw [hmembers, Table.isSome_find?_modify, Option.isSome_some, Option.isSome_iff_exists] at hthere
    obtain ⟨m', hm'⟩ := hthere
    rw [hs]
    exact hfk.user v m' hm'
  · change (s.roles.find? rid).isSome
    change s.memberships.find? v = some m at hm
    rw [hroles]
    rw [hmembers] at hm
    by_cases hv : v = u
    · rw [hv, Table.find?_modify_self, Option.map_eq_some_iff] at hm
      obtain ⟨m', hm', rfl⟩ := hm
      exact hf m' rid hm' hrid
    · rw [Table.find?_modify_ne _ _ hv] at hm
      exact hfk.role v m rid hm hrid
  · simpa only [hinvitations, hroles] using hfk.invited
  · simpa only [hs] using hfk.entitled

theorem onMembers_ok {α : Type} {q : Tx α} {a : α} (h : (onMembers q).run o = .ok (a, p)) :
    ∃ s, q.run o.store = .ok (a, s) ∧ p = { o with store := s } := by
  have hget : ∀ f (t : Organization), (t.setStore f).store = f t.store := fun _ _ => rfl
  have hself : ∀ t : Organization, t.setStore (fun _ => t.store) = t := fun _ => rfl
  have hput : ∀ f s (t : Organization), (t.setStore f).setStore (fun _ => s) = t.setStore fun _ => s :=
    fun _ _ _ => rfl
  rw [onMembers, Prog.run_zoom hget hself hput] at h
  cases hq : q.run o.store with
  | error e =>
    rw [hq] at h
    cases h
  | ok r =>
    rw [hq] at h
    cases h
    exact ⟨r.2, rfl, rfl⟩

theorem discard_ok {α : Type} {q : OrganizationTx α} {u : Unit} (h : (discard q).run o = .ok (u, p)) :
    ∃ a, q.run o = .ok (a, p) := by
  obtain ⟨a, v, hq, hu⟩ := Prog.run_bind_ok.mp h
  cases hu
  exact ⟨a, hq⟩

/-- A membership ends that granted nothing; sessions and events are left aside. -/
theorem accounted_ended {u : Store} {target : Uuid} {f : MembershipRow → MembershipRow} {events : List Event}
    {now : Timestamp} (hfk : ForeignKeys o)
    (hu : u.members = (o.store.setMemberships (·.modify target f)).members) (hended : ∀ m, ¬(f m).Active)
    (hrole : ∀ m, (f m).roleId = m.roleId) (hkept : ∀ q, ¬Granted o.store (target, q)) :
    Accounted o { o with store := { u with outbox := events } } now := by
  have husers : u.users = o.store.users := by
    have h := congrArg Store.users hu
    exact h
  have hroles : u.roles = o.store.roles := by
    have h := congrArg Store.roles hu
    exact h
  have hpermissions : u.rolePermissions = o.store.rolePermissions := by
    have h := congrArg Store.rolePermissions hu
    exact h
  have hinvitations : u.invitations = o.store.invitations := by
    have h := congrArg Store.invitations hu
    exact h
  have hmembers := memberships_of_members hu
  refine accounted_of_same ?_ rfl fun k => granted_modify hpermissions hmembers (fun m q hm => ?_) k
  · refine foreignKeys_modify hfk husers hroles hinvitations hmembers fun m rid hm hrid => ?_
    rw [hrole] at hrid
    exact hfk.role target m rid hm hrid
  · constructor
    · exact fun h => absurd h.1 (hended m)
    · exact fun h => absurd ⟨m, hm, h.1, h.2⟩ (hkept q)

section
variable [Formats]

theorem resolveRole_found {roleRef : String} {s t : Store} {r : Uuid × String × String}
    (h : (resolveRole roleRef).run s = .ok (r, t)) : (s.roles.find? r.1).isSome := by
  have hkey : ∀ r t, (roleByKey roleRef).run s = .ok (r, t) → (s.roles.find? r.1).isSome := by
    intro r t h
    unfold roleByKey at h
    split_ifs at h with hparse
    · simp only [Prog.run_query_bind, Prog.run_okOr_bind_ok] at h
      obtain ⟨⟨id, row⟩, hrow, hr⟩ := h
      cases hr
      rw [Table.find?_eq_some.mpr (List.mem_of_find?_eq_some hrow), Option.isSome_some]
    · cases h
  unfold resolveRole at h
  cases hparse : Finance.PublicId.fromStr roleRef with
  | error e =>
    rw [hparse] at h
    exact hkey r t h
  | ok pubId =>
    simp only [hparse] at h
    split_ifs at h with hkind
    · simp only [Prog.run_query_bind, Prog.run_okOr_bind_ok] at h
      obtain ⟨row, hrow, hr⟩ := h
      cases hr
      rw [hrow, Option.isSome_some]
    · exact hkey r t h

theorem accounted_changeMemberRole {ctx : RequestCtx} {targetUser roleRef a : String} {t : Store}
    (hfk : ForeignKeys o) (hrun : (changeMemberRole ctx targetUser roleRef).run o.store = .ok (a, t))
    (hkept : ∀ target m role, parseUserRef targetUser = .ok target →
      o.store.memberships.find? target = some m → m.Active →
      (resolveRole roleRef).run o.store = .ok (role, o.store) →
      ∀ q, GrantsByRole o.store m.roleId q ↔ GrantsByRole o.store (some role.1) q) :
    Accounted o { o with store := t } ctx.now := by
  obtain ⟨target, roleId, key, pub, m, role, events, htarget, hresolve, hm, -, ht⟩ := changeMemberRole_ok hrun
  have hpermissions : t.rolePermissions = o.store.rolePermissions := by rw [ht]; rfl
  have hmembers : t.memberships = o.store.memberships.modify target (withRole role roleId) := by rw [ht]; rfl
  refine accounted_of_same ?_ rfl fun k => granted_modify hpermissions hmembers (fun m' q hm' => ?_) k
  · refine foreignKeys_modify hfk (by rw [ht]; rfl) (by rw [ht]; rfl) (by rw [ht]; rfl) hmembers
      fun m' rid hm' hrid => ?_
    have hid : roleId = rid := Option.some.inj hrid
    rw [← hid]
    exact resolveRole_found hresolve
  · refine and_congr_right fun hcurrent => ?_
    exact (hkept target m' _ htarget hm' hcurrent hresolve q).symm

theorem accounted_suspendMember {ctx : RequestCtx} {targetUser a : String} {t : Store} (hfk : ForeignKeys o)
    (hrun : (suspendMember ctx targetUser).run o.store = .ok (a, t))
    (hkept : ∀ target q, parseUserRef targetUser = .ok target → ¬Granted o.store (target, q)) :
    Accounted o { o with store := t } ctx.now := by
  obtain ⟨target, m, n, u, events, htarget, hm, -, hrevoke, rfl⟩ := suspendMember_ok hrun
  have hrest := members_revokeOrgUserSessions hrevoke
  exact accounted_ended hfk hrest (fun m => by simp [suspended, MembershipRow.Active]) (fun _ => rfl)
    fun q => hkept target q htarget

theorem accounted_revokeMember {ctx : RequestCtx} {targetUser a : String} {t : Store} (hfk : ForeignKeys o)
    (hrun : (revokeMember ctx targetUser).run o.store = .ok (a, t))
    (hkept : ∀ target q, parseUserRef targetUser = .ok target → ¬Granted o.store (target, q)) :
    Accounted o { o with store := t } ctx.now := by
  obtain ⟨target, m, n, u, events, htarget, hm, hrevoke, rfl⟩ := revokeMember_ok hrun
  have hrest := members_revokeOrgUserSessions hrevoke
  exact accounted_ended hfk hrest (fun m => by simp [revoked, MembershipRow.Active]) (fun _ => rfl)
    fun q => hkept target q htarget

theorem invitedUser_ok {ctx : RequestCtx} {inv : InvitationRow} {body : AcceptInviteRequest} {s t : Store}
    {u : Uuid} (h : (invitedUser ctx inv.emailNormalized body).run s = .ok (u, t)) :
    u = invitee s ctx inv ∧ (∃ users, t = { s with users }) ∧
      (∀ k, (s.users.find? k).isSome → (t.users.find? k).isSome) ∧ (t.users.find? u).isSome := by
  simp only [invitedUser, Prog.run_query_bind] at h
  unfold invitee
  cases hfound : s.users.rows.find? fun r => r.2.emailNormalized = inv.emailNormalized with
  | some r =>
    rw [hfound] at h
    cases h
    refine ⟨rfl, ⟨s.users, rfl⟩, fun _ hk => hk, ?_⟩
    rw [Table.find?_eq_some.mpr (List.mem_of_find?_eq_some hfound), Option.isSome_some]
  | none =>
    simp only [hfound, Prog.run_okOr_bind_ok, Prog.run_ofExcept_bind_ok, Prog.run_execute_bind_ok] at h
    obtain ⟨password, -, _, -, hcheck, h⟩ := h
    cases h
    have hfree : s.users.find? (ctx.fresh 0) = none := by
      rw [Table.find?_eq_none]
      split_ifs at hcheck with _ htaken
      exact htaken
    refine ⟨rfl, ⟨_, rfl⟩, fun k hk => ?_, ?_⟩
    · obtain ⟨r, hr⟩ := Option.isSome_iff_exists.mp hk
      change ((s.users.insert _ _).find? k).isSome
      rw [Table.find?_insert_of_some hr, Option.isSome_some]
    · change ((s.users.insert _ _).find? (ctx.fresh 0)).isSome
      rw [Table.find?_insert_self hfree, Option.isSome_some]

structure Joins (ctx : RequestCtx) (inv : InvitationRow) (s t : Store) : Prop where
  users : ∀ k, (s.users.find? k).isSome → (t.users.find? k).isSome
  invitee : (t.users.find? (invitee s ctx inv)).isSome
  roles : t.roles = s.roles
  permissions : t.rolePermissions = s.rolePermissions
  invitations : ∀ hash x, t.invitations.find? hash = some x →
    ∃ y, s.invitations.find? hash = some y ∧ x.roleId = y.roleId
  member : ∃ m, t.memberships.find? (Workspace.invitee s ctx inv) = some m ∧ m.Active ∧
    m.roleId = some inv.roleId
  others : ∀ u, u ≠ Workspace.invitee s ctx inv → t.memberships.find? u = s.memberships.find? u

theorem upsertMembership_find? (u membershipId : Uuid) (role : Role) (roleId : Uuid) (s : Store) :
    (∃ m, (upsertMembership u membershipId role roleId s).memberships.find? u = some m ∧ m.Active ∧
      m.roleId = some roleId) ∧
    ∀ v, v ≠ u → (upsertMembership u membershipId role roleId s).memberships.find? v = s.memberships.find? v := by
  cases hm : s.memberships.find? u with
  | some m =>
    simp only [upsertMembership, Store.setMemberships, hm]
    refine ⟨?_, fun v hv => Table.find?_modify_ne _ _ hv⟩
    rw [Table.find?_modify_self, hm, Option.map_some]
    exact ⟨_, rfl, ⟨rfl, rfl⟩, rfl⟩
  | none =>
    simp only [upsertMembership, Store.setMemberships, hm]
    exact ⟨⟨_, Table.find?_insert_self hm _, ⟨rfl, rfl⟩, rfl⟩, fun v hv => Table.find?_insert_ne _ _ hv⟩

theorem acceptInvitation_ok [TokenHash] {ctx : RequestCtx} {body : AcceptInviteRequest} {s t : Store} {a : String}
    (h : (acceptInvitation ctx body).run s = .ok (a, t)) :
    ∃ inv, s.invitations.find? (TokenHash.hashToken body.token) = some inv ∧ Joins ctx inv s t := by
  simp only [acceptInvitation, Prog.run_query_bind, Prog.run_okOr_bind_ok, Prog.run_require_bind_ok] at h
  obtain ⟨inv, hinv, -, -, h⟩ := h
  obtain ⟨u, v, huser, h⟩ := Prog.run_bind_ok.mp h
  obtain ⟨rfl, ⟨users, rfl⟩, hkeeps, hthere⟩ := invitedUser_ok huser
  obtain ⟨_, w, hjoin, h⟩ := Prog.run_bind_ok.mp h
  cases h
  simp only [joinOrganization, Prog.run_query_bind, Prog.run_ofExcept_bind_ok, Prog.run_execute_bind_ok] at hjoin
  obtain ⟨role, -, -, -, hjoin⟩ := hjoin
  obtain ⟨_, w', hevent, hjoin⟩ := Prog.run_bind_ok.mp hjoin
  cases hevent
  cases hjoin
  obtain ⟨hmember, hothers⟩ := upsertMembership_find? (invitee s ctx inv) (ctx.fresh 1) role inv.roleId
    { s with users }
  refine ⟨inv, hinv, hkeeps, hthere, rfl, rfl, fun hash x hx => ?_, hmember, hothers⟩
  change (s.invitations.modify _ _).find? hash = some x at hx
  rw [Table.modify, Table.find?_mapRows, Option.map_eq_some_iff] at hx
  obtain ⟨y, hy, rfl⟩ := hx
  refine ⟨y, hy, ?_⟩
  split_ifs <;> rfl

theorem accounted_acceptInvitation [TokenHash] {ctx : RequestCtx} {body : AcceptInviteRequest} {a : String}
    {t : Store} (hfk : ForeignKeys o) (hrun : (acceptInvitation ctx body).run o.store = .ok (a, t))
    (hkept : ∀ inv, o.store.invitations.find? (TokenHash.hashToken body.token) = some inv →
      ∀ q, Granted o.store (invitee o.store ctx inv, q) ↔ GrantsByRole o.store (some inv.roleId) q) :
    Accounted o { o with store := t } ctx.now := by
  obtain ⟨inv, hinv, hjoins⟩ := acceptInvitation_ok hrun
  obtain ⟨m, hm, hcurrent, hrole⟩ := hjoins.member
  refine accounted_of_same ⟨fun u x hx => ?_, fun u x rid hx hrid => ?_, fun hash x hx => ?_, fun h hh => ?_⟩ rfl
    fun k => ?_
  · by_cases hu : u = invitee o.store ctx inv
    · rw [hu]
      exact hjoins.invitee
    · exact hjoins.users u (hfk.user u x (by rw [← hx]; exact (hjoins.others u hu).symm))
  · change (t.roles.find? rid).isSome
    rw [hjoins.roles]
    by_cases hu : u = invitee o.store ctx inv
    · have hxm : x = m := by
        rw [hu] at hx
        exact Option.some.inj (hx.symm.trans hm)
      rw [hxm, hrole, Option.some.injEq] at hrid
      rw [← hrid]
      exact hfk.invited _ inv hinv
    · exact hfk.role u x rid (by rw [← hx]; exact (hjoins.others u hu).symm) hrid
  · obtain ⟨y, hy, hid⟩ := hjoins.invitations hash x hx
    change (t.roles.find? x.roleId).isSome
    rw [hjoins.roles, hid]
    exact hfk.invited hash y hy
  · exact ⟨hjoins.users _ (hfk.entitled h hh).1, (hfk.entitled h hh).2⟩
  · obtain ⟨u, q⟩ := k
    by_cases hu : u = invitee o.store ctx inv
    · rw [hu, hkept inv hinv q]
      simp only [Granted, hm, Option.some.injEq, exists_eq_left', hcurrent, true_and, hrole,
        grantsByRole_congr hjoins.permissions]
    · simp only [Granted, hjoins.others u hu, grantsByRole_congr hjoins.permissions]

theorem accounted_updateRole {ctx : RequestCtx} {roleId : String} {body : UpsertRoleRequest} {view : RoleView}
    (hfk : ForeignKeys o) (hrun : (updateRole ctx roleId body).run o = .ok (view, p))
    (hkept : ∀ rid role u m, parseRoleId roleId = .ok rid → o.store.roles.find? rid = some role →
      role.systemKey ≠ some "owner" → o.store.memberships.find? u = some m → m.Active → m.roleId = some rid →
      ∀ q, GrantsByRole o.store (some rid) q ↔
        (lastScope q .allow body.permissions).isSome ∧ lastScope q .deny body.permissions = none) :
    Accounted o p ctx.now := by
  obtain ⟨rid, role, v, hrid, hrole, hv, rfl, -⟩ := updateRole_ok hrun
  have hedits : EditsOnly rid o v := by
    split_ifs at hv
    · rw [hv]
      exact .refl rid o
    · exact hv.2
  have hgrants : ∀ m q u, o.store.memberships.find? u = some m → m.Active →
      (GrantsByRole v.store m.roleId q ↔ GrantsByRole o.store m.roleId q) := by
    intro m q u hm hcurrent
    cases hr : m.roleId with
    | none => simp [GrantsByRole, rolePermissionsOf]
    | some rid' =>
      by_cases hsame : rid' = rid
      · rw [hsame] at hr ⊢
        split_ifs at hv with howner
        · rw [hv]
        · rw [hv.1.grants_iff, hkept rid role u m hrid hrole howner hm hcurrent hr q]
      · exact hedits.grants_iff hsame
  obtain ⟨t, rfl, -⟩ := hedits
  have hversion : ∀ m, (withNewVersion rid m).roleId = m.roleId ∧ (withNewVersion rid m).status = m.status ∧
      (withNewVersion rid m).revokedAt = m.revokedAt := by
    intro m
    unfold withNewVersion
    split_ifs <;> exact ⟨rfl, rfl, rfl⟩
  have hfind : ∀ u x, (o.store.memberships.mapRows fun _ => withNewVersion rid).find? u = some x →
      ∃ m, o.store.memberships.find? u = some m ∧ x = withNewVersion rid m := by
    intro u x hx
    rw [Table.find?_mapRows, Option.map_eq_some_iff] at hx
    obtain ⟨m, hm, rfl⟩ := hx
    exact ⟨m, hm, rfl⟩
  refine accounted_of_same ⟨fun u x hx => ?_, fun u x rid' hx hrid' => ?_, hfk.invited, hfk.entitled⟩ rfl
    fun k => ?_
  · obtain ⟨m, hm, -⟩ := hfind u x hx
    exact hfk.user u m hm
  · obtain ⟨m, hm, rfl⟩ := hfind u x hx
    rw [(hversion m).1] at hrid'
    exact hfk.role u m rid' hm hrid'
  · constructor
    · rintro ⟨x, hx, hcurrent, hgrant⟩
      obtain ⟨m, hm, rfl⟩ := hfind k.1 x hx
      obtain ⟨hid, hstatus, hrevoked⟩ := hversion m
      have hm' : m.Active := by rwa [MembershipRow.Active, hstatus, hrevoked] at hcurrent
      rw [hid] at hgrant
      exact ⟨m, hm, hm', (hgrants m k.2 k.1 hm hm').mp hgrant⟩
    · rintro ⟨m, hm, hcurrent, hgrant⟩
      obtain ⟨hid, hstatus, hrevoked⟩ := hversion m
      refine ⟨withNewVersion rid m, ?_, ?_, ?_⟩
      · change (o.store.memberships.mapRows fun _ => withNewVersion rid).find? k.1 = _
        rw [Table.find?_mapRows, hm, Option.map_some]
      · rwa [MembershipRow.Active, hstatus, hrevoked]
      · rw [hid]
        exact (hgrants m k.2 k.1 hm hcurrent).mpr hgrant

omit [Formats] in
theorem setCommand_ok {f : CommandRow → CommandRow} {u : Unit} (h : (setCommand f).run o = .ok (u, p)) :
    p = { o with command := o.command.map f } := by
  simp only [setCommand, Prog.run_execute_ok, Prod.mk.injEq] at h
  exact h.2.2

/-- A command that is done, or has no owner, changes nobody; otherwise the workspace is seeded. -/
theorem processPending_ok {ctx : RequestCtx} {a : Except AppError Unit}
    (h : (processPending ctx).run o = .ok (a, p)) :
    (p.store = o.store ∧ p.entitlements = o.entitlements) ∨
    ∃ cmd owner rid v events, o.command = some cmd ∧ cmd.status ≠ .completed ∧ cmd.ownerUserId = some owner ∧
      SeedsWorkspace ctx owner o v rid ∧ p.store = { v.store with outbox := events } ∧
      p.entitlements = v.entitlements := by
  simp only [processPending, Prog.run_queryForUpdate_bind] at h
  cases hcmd : o.command.filter (·.status ≠ .completed) with
  | none =>
    rw [hcmd] at h
    cases h
    exact .inl ⟨rfl, rfl⟩
  | some cmd =>
    obtain ⟨hcommand, hstatus⟩ := Option.filter_eq_some_iff.mp hcmd
    rw [hcmd] at h
    obtain ⟨_, o₁, hset, h⟩ := Prog.run_bind_ok.mp h
    obtain rfl := setCommand_ok hset
    cases howner : cmd.ownerUserId with
    | none =>
      simp only [howner] at h
      obtain ⟨_, o₂, hset', h⟩ := Prog.run_bind_ok.mp h
      obtain rfl := setCommand_ok hset'
      cases h
      exact .inl ⟨rfl, rfl⟩
    | some owner =>
      simp only [howner] at h
      obtain ⟨_, v, hseed, h⟩ := Prog.run_bind_ok.mp h
      obtain ⟨rid, hseeds⟩ := seedWorkspace_ok hseed
      have hseeds' : SeedsWorkspace ctx owner o v rid := ⟨hseeds.users, hseeds.invitations, hseeds.memberships,
        hseeds.entitlements, hseeds.roles, hseeds.owner, hseeds.grants⟩
      simp only [Prog.run_query_bind] at h
      right
      split_ifs at h
      · obtain ⟨_, o₂, hset', h⟩ := Prog.run_bind_ok.mp h
        obtain rfl := setCommand_ok hset'
        cases h
        exact ⟨cmd, owner, rid, v, v.store.outbox, hcommand, by simpa using hstatus, howner, hseeds', rfl, rfl⟩
      · obtain ⟨_, o₂, hevent, h⟩ := Prog.run_bind_ok.mp h
        obtain ⟨s, hs, rfl⟩ := onMembers_ok hevent
        cases hs
        obtain ⟨_, o₃, hset', h⟩ := Prog.run_bind_ok.mp h
        obtain rfl := setCommand_ok hset'
        cases h
        exact ⟨cmd, owner, rid, v, _, hcommand, by simpa using hstatus, howner, hseeds', rfl, rfl⟩

omit [Formats] in
theorem span_closed (owner : Uuid) (now : Timestamp) (h : EntitlementRow) :
    (if h.userId = owner ∧ h.effectiveTo = none then { h with effectiveTo := some now } else h).span =
      if h.span.key.1 = owner then h.span.close now else h.span := by
  change _ = if h.userId = owner then h.span.close now else h.span
  by_cases howner : h.userId = owner
  · cases hto : h.effectiveTo with
    | none => simp [howner, hto, EntitlementRow.span, Span.close]
    | some b => simp [howner, hto, EntitlementRow.span, Span.close]
  · rw [if_neg howner, if_neg fun hboth => howner hboth.1]

omit [Formats] in
theorem spans_ownerEntitlements {owner : Uuid} {now : Timestamp} {m : MembershipRow}
    (hm : o.store.memberships.find? owner = some m) (hp : p.entitlements = ownerEntitlements o owner now)
    (s : Span Timestamp (Uuid × PermissionId)) :
    s ∈ p.spans ↔ if s.key.1 = owner then
        (∃ r ∈ o.spans, r.key = s.key ∧ s = r.close now) ∨
          (s.key.2 ∈ Role.owner.defaultAllows ∧ s = ⟨s.key, now, none⟩)
      else s ∈ o.spans := by
  have hspans : p.spans = o.spans.map (fun r => if r.key.1 = owner then r.close now else r) ++
      Role.owner.defaultAllows.map fun q => ⟨(owner, q), now, none⟩ := by
    simp only [Organization.spans, hp, ownerEntitlements, hm, recordEntitlements, List.map_append, List.map_map]
    congr 1
    exact List.map_congr_left fun h _ => span_closed owner now h
  rw [hspans, List.mem_append, List.mem_map, List.mem_map]
  constructor
  · rintro (⟨r, hr, rfl⟩ | ⟨q, hq, rfl⟩)
    · by_cases howner : r.key.1 = owner
      · rw [if_pos howner]
        change if r.key.1 = owner then _ else _
        rw [if_pos howner]
        exact .inl ⟨r, hr, rfl, rfl⟩
      · rw [if_neg howner, if_neg howner]
        exact hr
    · rw [if_pos rfl]
      exact .inr ⟨hq, rfl⟩
  · split_ifs with howner
    · rintro (⟨r, hr, hkey, hs⟩ | ⟨hq, hs⟩)
      · refine .inl ⟨r, hr, ?_⟩
        rw [if_pos (by rw [hkey, howner]), hs]
      · refine .inr ⟨s.key.2, hq, ?_⟩
        rw [hs, ← howner]
    · intro hs
      exact .inl ⟨s, hs, if_neg howner⟩

theorem accounted_processPending {ctx : RequestCtx} {a : Except AppError Unit} (hfk : ForeignKeys o)
    (hrun : (processPending ctx).run o = .ok (a, p))
    (hkept : ∀ cmd owner, o.command = some cmd → cmd.status ≠ .completed → cmd.ownerUserId = some owner →
      (∀ m, o.store.memberships.find? owner = some m → m.revokedAt = none) ∧
      ∀ u m rid, u ≠ owner → o.store.memberships.find? u = some m → m.Active → m.roleId = some rid →
        KeepsGrants o allSystem rid) :
    Accounted o p ctx.now := by
  rcases processPending_ok hrun with ⟨hstore, hentitlements⟩ |
    ⟨cmd, owner, rid, v, events, hcmd, hstatus, howner, hseeds, hstore, hentitlements⟩
  · refine accounted_of_same ?_ hentitlements fun k => by rw [hstore]
    obtain ⟨huser, hrole, hinvited, hentitled⟩ := hfk
    constructor <;> simp only [hstore, hentitlements] <;> assumption
  · obtain ⟨hlive, hothers⟩ := hkept cmd owner hcmd hstatus howner
    have hmembers : p.store.memberships = o.store.memberships.modify owner (ownerMembership rid) := by
      rw [hstore]
      exact hseeds.memberships
    have hpermissions : p.store.rolePermissions = v.store.rolePermissions := by rw [hstore]
    have hroles : p.store.roles = v.store.roles := by rw [hstore]
    have hkeys : ∀ k, (o.store.roles.find? k).isSome → (p.store.roles.find? k).isSome := by
      intro k hk
      obtain ⟨r, hr⟩ := Option.isSome_iff_exists.mp hk
      rw [hroles, hseeds.roles k r hr, Option.isSome_some]
    have husers : p.store.users = o.store.users := by
      rw [hstore]
      exact hseeds.users
    have hinvitations : p.store.invitations = o.store.invitations := by
      rw [hstore]
      exact hseeds.invitations
    -- members other than the owner are granted what they were
    have hsame : ∀ k : Uuid × PermissionId, k.1 ≠ owner → (Granted p.store k ↔ Granted o.store k) := by
      intro k hk
      simp only [Granted, hmembers, Table.find?_modify_ne _ _ hk, grantsByRole_congr hpermissions]
      refine exists_congr fun m => and_congr_right fun hm => and_congr_right fun hcurrent => ?_
      cases hr : m.roleId with
      | none => simp [GrantsByRole, rolePermissionsOf]
      | some rid' => exact hseeds.grants rid' (hothers k.1 m rid' hk hm hcurrent hr) k.2
    have hfk' : ForeignKeys p := by
      refine ⟨fun u x hx => ?_, fun u x rid' hx hrid' => ?_, fun hash inv hinv => ?_, fun h hh => ?_⟩
      · have hthere := congrArg Option.isSome hx
        rw [hmembers, Table.isSome_find?_modify, Option.isSome_some, Option.isSome_iff_exists] at hthere
        obtain ⟨m, hm⟩ := hthere
        rw [husers]
        exact hfk.user u m hm
      · rw [hmembers] at hx
        by_cases hu : u = owner
        · rw [hu, Table.find?_modify_self, Option.map_eq_some_iff] at hx
          obtain ⟨m, -, rfl⟩ := hx
          have hid : rid = rid' := Option.some.inj hrid'
          rw [← hid, hroles]
          exact hseeds.owner.1
        · rw [Table.find?_modify_ne _ _ hu] at hx
          exact hkeys rid' (hfk.role u x rid' hx hrid')
      · rw [hinvitations] at hinv
        exact hkeys _ (hfk.invited hash inv hinv)
      · rw [hentitlements, hseeds.entitlements] at hh
        rw [husers]
        unfold ownerEntitlements at hh
        cases hm : o.store.memberships.find? owner with
        | none =>
          rw [hm] at hh
          exact hfk.entitled h hh
        | some m =>
          simp only [hm, recordEntitlements, List.mem_append, List.mem_map] at hh
          rcases hh with ⟨x, hx, rfl⟩ | ⟨_, ⟨q, -, rfl⟩, rfl⟩
          · have hx' := hfk.entitled x hx
            split_ifs <;> exact hx'
          · exact ⟨hfk.user owner m hm, rfl⟩
    refine ⟨hfk', fun k => ?_⟩
    cases hm : o.store.memberships.find? owner with
    | none =>
      -- nobody to grant anything, and nothing is recorded
      left
      have hrows : p.entitlements = o.entitlements := by rw [hentitlements, hseeds.entitlements, ownerEntitlements, hm]
      refine ⟨?_, fun s _ => by rw [Organization.spans, Organization.spans, hrows]⟩
      by_cases hk : k.1 = owner
      · have hno : p.store.memberships.find? owner = none := by
          rw [hmembers, Table.find?_modify_self, hm, Option.map_none]
        simp [Granted, hk, hm, hno]
      · exact hsame k hk
    | some m =>
      have hspans := spans_ownerEntitlements hm (hentitlements.trans hseeds.entitlements)
      by_cases hk : k.1 = owner
      · right
        intro s hs
        have hseeded : k.2 ∈ seededPermissions .owner ↔ k.2 ∈ Role.owner.defaultAllows := by
          simp only [seededPermissions, List.mem_filter, decide_eq_true_eq]
          exact ⟨fun h => h.2, fun h => ⟨h, h⟩⟩
        have hgrant : Granted p.store k ↔ k.2 ∈ Role.owner.defaultAllows := by
          simp only [Granted, hk, hmembers, Table.find?_modify_self, hm, Option.map_some, Option.some.injEq,
            exists_eq_left', MembershipRow.Active, ownerMembership, hlive m hm, true_and,
            grantsByRole_congr hpermissions, hseeds.owner.2, hseeded]
        rw [hspans, hs, if_pos hk, hgrant]
      · left
        refine ⟨hsame k hk, fun s hs => ?_⟩
        rw [hspans, hs, if_neg hk]

omit [Formats] in
theorem enqueueProvisioning_ok {owner : Option Uuid} {u : Unit}
    (h : (enqueueProvisioning owner).run o = .ok (u, p)) : ∃ command, p = { o with command } := by
  simp only [enqueueProvisioning, Prog.run_execute_ok, Prod.mk.injEq] at h
  obtain ⟨-, -, rfl⟩ := h
  split_ifs
  · exact ⟨o.command, rfl⟩
  · exact ⟨_, rfl⟩

theorem ReviewOp.accounted [TokenHash] {op : ReviewOp} {u : Unit} (hkept : op.Kept o) (hfk : ForeignKeys o)
    (hrun : op.body.run o = .ok (u, p)) : Accounted o p op.ctx.now := by
  cases op with
  | enqueueProvisioning ctx ownerUserId =>
    obtain ⟨command, rfl⟩ := enqueueProvisioning_ok hrun
    exact accounted_of_same ⟨hfk.user, hfk.role, hfk.invited, hfk.entitled⟩ rfl fun _ => Iff.rfl
  | processPending ctx =>
    obtain ⟨a, h⟩ := discard_ok hrun
    exact accounted_processPending hfk h hkept
  | acceptInvitation ctx body =>
    obtain ⟨a, hone⟩ := discard_ok hrun
    obtain ⟨t, hmembers, rfl⟩ := onMembers_ok hone
    exact accounted_acceptInvitation hfk hmembers hkept
  | changeMemberRole ctx targetUser roleRef =>
    obtain ⟨a, hone⟩ := discard_ok hrun
    obtain ⟨t, hmembers, rfl⟩ := onMembers_ok hone
    exact accounted_changeMemberRole hfk hmembers hkept
  | suspendMember ctx targetUser =>
    obtain ⟨a, hone⟩ := discard_ok hrun
    obtain ⟨t, hmembers, rfl⟩ := onMembers_ok hone
    exact accounted_suspendMember hfk hmembers hkept
  | revokeMember ctx targetUser =>
    obtain ⟨a, hone⟩ := discard_ok hrun
    obtain ⟨t, hmembers, rfl⟩ := onMembers_ok hone
    exact accounted_revokeMember hfk hmembers hkept
  | updateRole ctx roleId body =>
    obtain ⟨view, h⟩ := discard_ok hrun
    exact accounted_updateRole hfk h hkept

/-- What the members were granted before each request, with the instant of the request. -/
def timeline (steps : List (Organization × ReviewOp)) : List ((Uuid × PermissionId → Prop) × Timestamp) :=
  steps.map fun x => (Granted x.1.store, x.2.ctx.now)

/-- At this instant of the run the user's active membership granted the permission. -/
def GrantedAt (since : Timestamp) (steps : List (Organization × ReviewOp)) (o : Organization) (u : Uuid)
    (q : PermissionId) (τ : Timestamp) : Prop :=
  HeldAt since (timeline steps) (Granted o.store) (u, q) τ

omit [Formats] in
theorem couldSee_iff (hfk : ForeignKeys o) {u : Uuid} {q : PermissionId} {period : Period} :
    CouldSee o u q period ↔ ∃ s ∈ o.spans, s.key = (u, q) ∧ s.Overlaps period.start period.stop := by
  simp only [couldSee_iff_fetched, fetchCouldSee, List.mem_mergeSort, List.mem_filter, decide_eq_true_eq,
    Organization.spans, List.mem_map]
  constructor
  · rintro ⟨h, ⟨hh, -, rfl, -, hstart, hstop⟩, rfl⟩
    refine ⟨h.span, ⟨h, hh, rfl⟩, rfl, hstart, fun c hc => ?_⟩
    change h.effectiveTo = some c at hc
    simpa [hc] using hstop
  · rintro ⟨_, ⟨h, hh, rfl⟩, hkey, hstart, hstop⟩
    obtain ⟨hu, hq⟩ := Prod.mk.inj hkey
    refine ⟨h, ⟨hh, (hfk.entitled h hh).1, hq, (hfk.entitled h hh).2, hstart, ?_⟩, hu⟩
    cases hto : h.effectiveTo with
    | none => rfl
    | some c =>
      have hc : period.start ≤ c := hstop c hto
      simpa using hc

theorem tracks_run [TokenHash] {since : Timestamp} {steps : List (Organization × ReviewOp)}
    (hnew : NewOrganization o) (hrun : Runs ReviewOp.body o steps p) (hclock : InOrder since (timeline steps))
    (hkept : ∀ x ∈ steps, x.2.Kept x.1) :
    ForeignKeys p ∧ Tracks p.spans since (timeline steps) (Granted p.store) := by
  induction hrun with
  | nil =>
    refine ⟨hnew.toForeignKeys, ?_⟩
    have hspans : o.spans = [] := by rw [Organization.spans, hnew.noHistory, List.map_nil]
    rw [hspans]
    exact tracks_nil since hnew.nothingGranted
  | @step t p' steps op _ prior hstep ih =>
    have htimeline : timeline (steps ++ [(t, op)]) = timeline steps ++ [(Granted t.store, op.ctx.now)] := by
      simp [timeline]
    rw [htimeline, inOrder_append] at hclock
    obtain ⟨hfk, htracks⟩ := ih hclock.1 fun x hx => hkept x (List.mem_append_left _ hx)
    obtain ⟨hfk', hchange⟩ := ReviewOp.accounted (hkept (t, op) (by simp)) hfk hstep
    rw [htimeline]
    exact ⟨hfk', htracks.step hclock.2 hchange⟩

/-- Where no request but provisioning changes what a member is granted, the review lists just those users
whose active membership granted the permission at some instant of the period. -/
theorem access_review_complete [TokenHash] {since : Timestamp} {steps : List (Organization × ReviewOp)}
    (hnew : NewOrganization o) (hrun : Runs ReviewOp.body o steps p) (hclock : InOrder since (timeline steps))
    (hkept : ∀ x ∈ steps, x.2.Kept x.1) (u : Uuid) (q : PermissionId) (period : Period) :
    CouldSee p u q period ↔ ∃ τ, period.start ≤ τ ∧ τ ≤ period.stop ∧
      GrantedAt since steps p u q τ := by
  obtain ⟨hfk, htracks⟩ := tracks_run hnew hrun hclock hkept
  rw [couldSee_iff hfk]
  exact htracks.overlaps_iff period.ordered

end

end

instance (s : Store) (rid : Option Uuid) (q : PermissionId) : Decidable (GrantsByRole s rid q) :=
  inferInstanceAs (Decidable ((∃ r ∈ rolePermissionsOf s rid, _) ∧ ¬∃ r ∈ rolePermissionsOf s rid, _))

instance (s : Store) (k : Uuid × PermissionId) : Decidable (Granted s k) :=
  decidable_of_iff ((s.memberships.find? k.1).any fun m =>
    Decidable.decide (m.Active ∧ GrantsByRole s m.roleId k.2)) (by simp [Granted, Option.any_eq_true])

/-- A role without permissions, and its one member. -/
def newOrganization [Formats] (status : MembershipStatus) : Organization where
  store := { Store.empty with
    users := Table.empty.insert 1 ⟨"usr_1", "a@b.c", "A"⟩
    memberships := Table.empty.insert 1 ⟨101, "mem_1", .member, some 7, none, none, 1, status, none, none⟩
    roles := Table.empty.insert 7 ⟨publicIdStr .role 7, none⟩ }
  roleTexts := Table.empty.insert 7 ⟨"Guests", "", false, none, none⟩
  permissionDefinitions := ["finance.invoice.read"]
  command := none
  entitlements := []

theorem newOrganization_new [Formats] (status : MembershipStatus) : NewOrganization (newOrganization status) := by
  have hmember : ∀ u m, (newOrganization status).store.memberships.find? u = some m →
      u = 1 ∧ m.roleId = some 7 := by
    intro u m hm
    have hrow := Table.find?_eq_some.mp hm
    have hrows : (newOrganization status).store.memberships.rows =
        [(1, ⟨101, "mem_1", .member, some 7, none, none, 1, status, none, none⟩)] := rfl
    rw [hrows, List.mem_singleton, Prod.mk.injEq] at hrow
    obtain ⟨rfl, rfl⟩ := hrow
    exact ⟨rfl, rfl⟩
  refine ⟨⟨fun u m hm => ?_, fun u m rid hm hrid => ?_, fun hash inv hinv => ?_, fun h hh => ?_⟩, rfl, ?_⟩
  · rw [(hmember u m hm).1]
    rfl
  · rw [(hmember u m hm).2, Option.some.injEq] at hrid
    rw [← hrid]
    rfl
  · cases hinv
  · cases hh
  · rintro k ⟨m, hm, -, ⟨r, hr, -⟩, -⟩
    rw [(hmember k.1 m hm).2] at hr
    cases hr

def grantInvoices [Formats] : ReviewOp :=
  .updateRole { RequestCtx.nth 1 with now := 5 } (publicIdStr .role 7)
    ⟨"Guests", none, none, none, [⟨"finance.invoice.read", "allow", "organization"⟩]⟩

/-- An edit of a role gives its member a permission, which the review does not know of. -/
theorem access_review_misses :
    letI := Finance.canonicalFormats
    letI := canonicalTokenHash
    ∃ (o p : Organization) (since : Timestamp) (steps : List (Organization × ReviewOp)) (u : Uuid)
      (q : PermissionId) (period : Period), NewOrganization o ∧ Runs ReviewOp.body o steps p ∧
      InOrder since (timeline steps) ∧
        (∃ τ, period.start ≤ τ ∧ τ ≤ period.stop ∧ GrantedAt since steps p u q τ) ∧
      ¬CouldSee p u q period := by
  let := Finance.canonicalFormats
  let := canonicalTokenHash
  have hcheck : ∃ (u : Unit) (p : Organization), grantInvoices.body.run (newOrganization .active) = .ok (u, p) ∧
      (Decidable.decide (Granted p.store (1, "finance.invoice.read")) && p.entitlements.isEmpty) = true :=
    Prog.run_of_check (by decide +kernel)
  obtain ⟨_, p, hrun, hchecked⟩ := hcheck
  simp only [Bool.and_eq_true, decide_eq_true_eq, List.isEmpty_iff] at hchecked
  refine ⟨_, p, 0, [(newOrganization .active, grantInvoices)], 1, "finance.invoice.read", ⟨6, 7, by decide⟩,
    newOrganization_new .active, .step (.nil _) hrun, ⟨by decide, trivial⟩,
    ⟨6, by decide, by decide, .inr ⟨by decide, hchecked.1⟩⟩, ?_⟩
  rw [couldSee_iff_fetched]
  rintro ⟨h, hh, -⟩
  simp [fetchCouldSee, hchecked.2] at hh

/-- A member without a role yet, who is to own the organisation. -/
def unprovisioned : Organization where
  store := { Store.empty with
    users := Table.empty.insert 1 ⟨"usr_1", "a@b.c", "A"⟩
    memberships := Table.empty.insert 1 ⟨101, "mem_1", .member, none, none, none, 1, .active, none, none⟩ }
  roleTexts := .empty
  permissionDefinitions := permissionCatalogue
  command := none
  entitlements := []

theorem only_member {u : Uuid} {m : MembershipRow} (h : unprovisioned.store.memberships.find? u = some m) :
    u = 1 ∧ m.roleId = none ∧ m.revokedAt = none := by
  have hrows : unprovisioned.store.memberships.rows =
      [(1, ⟨101, "mem_1", .member, none, none, none, 1, .active, none, none⟩)] := rfl
  have hrow := Table.find?_eq_some.mp h
  rw [hrows, List.mem_singleton, Prod.mk.injEq] at hrow
  obtain ⟨rfl, rfl⟩ := hrow
  exact ⟨rfl, rfl, rfl⟩

theorem unprovisioned_new : NewOrganization unprovisioned := by
  refine ⟨⟨fun u m hm => ?_, fun u m rid hm hrid => ?_, fun hash inv hinv => ?_, fun h hh => ?_⟩, rfl, ?_⟩
  · rw [(only_member hm).1]
    rfl
  · rw [(only_member hm).2.1] at hrid
    cases hrid
  · cases hinv
  · cases hh
  · rintro k ⟨m, hm, -, ⟨r, hr, -⟩, -⟩
    rw [(only_member hm).2.1] at hr
    cases hr

/-- With the command that a request to provision it leaves. -/
def toProvision : Organization := { unprovisioned with command := some ⟨some 1, .pending, 0, none⟩ }

theorem seedable_toProvision (ctx : RequestCtx) : Seedable ctx toProvision allSystem.zipIdx := by
  refine ⟨fun _ h => h, ?_, ?_, ?_, ?_, by decide⟩
  all_goals
    intros
    simp_all [toProvision, unprovisioned, Store.empty, Table.empty, Table.keys]

/-- Provisioning at 5 makes the member the owner: the review lists it for the days after, and not for those before. -/
theorem access_review_complete_owner :
    letI := Finance.canonicalFormats
    letI := canonicalTokenHash
    ∃ steps p, Runs ReviewOp.body unprovisioned steps p ∧
      CouldSee p 1 "finance.invoice.read" ⟨6, 7, by decide⟩ ∧
      (∃ τ, 6 ≤ τ ∧ τ ≤ 7 ∧ GrantedAt 0 steps p 1 "finance.invoice.read" τ) ∧
      ¬CouldSee p 1 "finance.invoice.read" ⟨1, 2, by decide⟩ ∧
      ¬∃ τ, 1 ≤ τ ∧ τ ≤ 2 ∧ GrantedAt 0 steps p 1 "finance.invoice.read" τ := by
  let := Finance.canonicalFormats
  let := canonicalTokenHash
  let asked : ReviewOp := .enqueueProvisioning { RequestCtx.nth 1 with now := 4 } (some 1)
  let provisioned : ReviewOp := .processPending { RequestCtx.nth 2 with now := 5 }
  have hfresh : Function.Injective ({ RequestCtx.nth 2 with now := 5 } : RequestCtx).fresh :=
    fun _ _ h => Nat.add_left_cancel h
  obtain ⟨a, p, rid, v, events, hrun, hseeds, hstore⟩ :=
    processPending_run hfresh (o := toProvision) rfl (by decide) rfl (seedable_toProvision _)
  have hasked : asked.body.run unprovisioned = .ok ((), toProvision) := rfl
  have hprovisioned : provisioned.body.run toProvision = .ok ((), p) :=
    Prog.run_bind_ok.mpr ⟨a, p, hrun, rfl⟩
  have hruns : Runs ReviewOp.body unprovisioned [(unprovisioned, asked), (toProvision, provisioned)] p :=
    .step (.step (.nil _) hasked) hprovisioned
  have hgranted : Granted p.store (1, "finance.invoice.read") := by
    have hmember : v.store.memberships.find? 1 = some (ownerMembership rid
        ⟨101, "mem_1", .member, none, none, none, 1, .active, none, none⟩) := by
      rw [hseeds.memberships, Table.find?_modify_self]
      rfl
    rw [hstore]
    exact ⟨_, hmember, ⟨rfl, rfl⟩, (hseeds.owner.2 _).mpr (by decide +kernel)⟩
  have hnothing : ∀ k, ¬Granted unprovisioned.store k := unprovisioned_new.nothingGranted
  have hclock : InOrder 0 (timeline [(unprovisioned, asked), (toProvision, provisioned)]) :=
    ⟨by decide, by decide, trivial⟩
  have hreview := access_review_complete unprovisioned_new hruns hclock (fun x hx => ?_) 1 "finance.invoice.read"
  · have hafter : ∃ τ, 6 ≤ τ ∧ τ ≤ 7 ∧
      GrantedAt 0 [(unprovisioned, asked), (toProvision, provisioned)] p 1
        "finance.invoice.read" τ := ⟨6, by decide, by decide, .inr ⟨by decide, hgranted⟩⟩
    have hbefore : ¬∃ τ, 1 ≤ τ ∧ τ ≤ 2 ∧
      GrantedAt 0 [(unprovisioned, asked), (toProvision, provisioned)] p 1
        "finance.invoice.read" τ := by
      rintro ⟨τ, -, hτ, (⟨-, -, h⟩ | ⟨-, -, h⟩ | h) | ⟨hlast, -⟩⟩
      · exact hnothing _ h
      · exact hnothing _ h
      · exact h
      · exact absurd (hlast.trans hτ) (by decide)
    exact ⟨_, p, hruns, (hreview ⟨6, 7, by decide⟩).mpr hafter, hafter,
      fun h => hbefore ((hreview ⟨1, 2, by decide⟩).mp h), hbefore⟩
  · rcases List.mem_pair.mp hx with rfl | rfl
    · trivial
    · intro cmd owner _ _ _
      refine ⟨fun m hm => (only_member hm).2.2, fun u m rid _ hm _ hrid => ?_⟩
      rw [(only_member hm).2.1] at hrid
      cases hrid

end Noxara.Workspace
