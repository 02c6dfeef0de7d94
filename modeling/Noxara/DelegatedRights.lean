import Noxara.MembershipEffects
import Noxara.PrincipalAgreement

/-! Delegations of a permission from one member to another, held against what their delegators are allowed. A
delegation is grounded while its delegator is an active member with the permission at every scope that the delegation
covers. The requests that keep delegations grounded keep every member within what the delegators are allowed. -/
namespace Noxara.Workspace

open Authz Transaction
open Finance (Uuid Timestamp Formats PublicId IdKind AppError notFound validation)

structure CreateDelegateRequest where
  toMembershipId : String
  permissionId : PermissionId
  scope : String
  expiresAt : Timestamp

structure DelegationDto where
  id : String
  fromMembershipId : String
  toMembershipId : String
  permissionId : PermissionId
  scope : String
  expiresAt : Timestamp
  revokedAt : Option Timestamp

def Store.setDelegations (s : Store) (f : Table Uuid DelegationRow → Table Uuid DelegationRow) : Store :=
  { s with delegations := f s.delegations }

def bumped (m : MembershipRow) : MembershipRow := { m with policyVersion := m.policyVersion + 1 }

/-- The users whose membership is not revoked. -/
def liveMembers (s : Store) : List Uuid :=
  (s.memberships.rows.filter fun r => r.2.revokedAt = none).map Prod.fst

/-- Every membership that is not revoked is due for a fresh look at its permissions. -/
def bumpPolicy : Tx Unit :=
  .updateRows liveMembers .membership (fun v userId => userId ∈ liveMembers v) fun userId s =>
    s.setMemberships (·.modify userId bumped)

section
variable [Formats]

/-- An id of the kind `kind`; `unreadable` and `other` are the errors for one that is not. -/
def idOfKind (kind : IdKind) (text : String) (unreadable other : AppError) : Except AppError Uuid :=
  match PublicId.fromStr text with
  | .ok pid => if pid.kind = kind then .ok pid.uuid else .error other
  | .error _ => .error unreadable

def CreateDelegateRequest.row (body : CreateDelegateRequest) (ctx : RequestCtx) (toId : Uuid) :
    DelegationRow where
  publicId := publicIdStr .permissionDelegation (ctx.fresh 0)
  fromMembershipId := ctx.membershipId
  toMembershipId := toId
  permissionId := body.permissionId
  scope := body.scope
  expiresAt := body.expiresAt
  createdBy := ctx.actorUserId
  revokedAt := none

def createDelegate (ctx : RequestCtx) (body : CreateDelegateRequest) : Tx DelegationDto := do
  .ofExcept (ctx.authorize "workspace.grant.delegate")
  .require (validatePermissionId body.permissionId = true) (validation "invalid permission_id")
  .require (ctx.now < body.expiresAt) (validation "expires_at must be in the future")
  let toId ← .ofExcept (idOfKind .membership body.toMembershipId
    (validation "invalid to_membership_id") (validation "to_membership_id must be mem_…"))
  let toRow ← .query fun s => (s.membershipById toId).filter (·.2.revokedAt.isNone)
  let (_, recipient) ← .okOr toRow (notFound "target membership")
  -- the delegator is the caller's own membership; nothing is asked about what it is allowed
  let fromRow ← .query fun s => s.membershipById ctx.membershipId
  let (_, delegator) ← .okOr fromRow ⟨.internal, rowNotFound⟩
  .execute (fun _ => [])
    (fun v => if ctx.fresh 0 ∈ v.delegations.keys then
        .error (databaseError "duplicate key value violates unique constraint \"permission_delegation_pkey\"")
      else .ok ())
    fun _ s => s.setDelegations (·.insert (ctx.fresh 0) (body.row ctx toId))
  bumpPolicy
  return ⟨publicIdStr .permissionDelegation (ctx.fresh 0), delegator.publicId, recipient.publicId,
    body.permissionId, body.scope, body.expiresAt, none⟩

def Store.openDelegation (s : Store) (id : Uuid) : Option DelegationRow :=
  (s.delegations.find? id).filter (·.revokedAt.isNone)

def revokeDelegate (ctx : RequestCtx) (id : String) : Tx String := do
  .ofExcept (ctx.authorize "workspace.grant.delegate")
  let delegationId ← .ofExcept (idOfKind .permissionDelegation id (validation "invalid id")
    (validation "id must be pdg_…"))
  .execute (fun v => (v.openDelegation delegationId).toList.map fun _ => .delegation delegationId)
    (fun v => if (v.openDelegation delegationId).isSome then .ok () else .error (notFound "delegation"))
    fun _ s => s.setDelegations (·.modify delegationId fun d => { d with revokedAt := some ctx.now })
  bumpPolicy
  return publicIdStr .permissionDelegation delegationId

end

/-- The change gives memberships new versions, and does nothing else. -/
def OnlyVersions (f : Store → Store) : Prop :=
  ∃ g : Uuid → MembershipRow → MembershipRow, (∀ u m, ∃ v, g u m = { m with policyVersion := v }) ∧
    ∀ s, f s = s.setMemberships (·.mapRows g)

theorem OnlyVersions.id : OnlyVersions id := by
  refine ⟨fun _ m => m, fun _ m => ⟨m.policyVersion, rfl⟩, fun s => ?_⟩
  simp [Store.setMemberships]

theorem OnlyVersions.comp (f g : Store → Store) (hf : OnlyVersions f) (hg : OnlyVersions g) :
    OnlyVersions (f ∘ g) := by
  obtain ⟨a, ha, hf⟩ := hf
  obtain ⟨b, hb, hg⟩ := hg
  refine ⟨fun u m => a u (b u m), fun u m => ?_, fun s => ?_⟩
  · obtain ⟨v, hv⟩ := hb u m
    obtain ⟨w, hw⟩ := ha u (b u m)
    rw [hv] at hw
    exact ⟨w, by simpa only [hv] using hw⟩
  · simp [hf, hg, Store.setMemberships, Table.mapRows_mapRows]

theorem bumpPolicy_ok {s t : Store} {a : Unit} (h : bumpPolicy.run s = .ok (a, t)) :
    ∃ f, OnlyVersions f ∧ t = f s := by
  have hw : bumpPolicy.Writes OnlyVersions := by
    refine Prog.writes_updateRows .id fun userId => ?_
    refine ⟨fun u m => if u = userId then bumped m else m, fun u m => ?_, fun s => rfl⟩
    by_cases hu : u = userId
    · exact ⟨m.policyVersion + 1, by simp [hu, bumped]⟩
    · exact ⟨m.policyVersion, by simp [hu]⟩
  exact hw.run_ok .id OnlyVersions.comp h

section
variable [Formats]

theorem createDelegate_ok {ctx : RequestCtx} {body : CreateDelegateRequest} {a : DelegationDto}
    {s t : Store} (h : (createDelegate ctx body).run s = .ok (a, t)) :
    ∃ toId f, idOfKind .membership body.toMembershipId (validation "invalid to_membership_id")
        (validation "to_membership_id must be mem_…") = .ok toId ∧
      ctx.fresh 0 ∉ s.delegations.keys ∧ OnlyVersions f ∧
      t = f (s.setDelegations (·.insert (ctx.fresh 0) (body.row ctx toId))) := by
  simp only [createDelegate, Prog.run_ofExcept_bind_ok, Prog.run_require_bind_ok] at h
  obtain ⟨_, _, _, _, toId, hto, h⟩ := h
  simp only [Prog.run_query_bind, Prog.run_okOr_bind_ok, Prog.run_execute_bind_ok] at h
  obtain ⟨_, _, _, _, hfresh, h⟩ := h
  obtain ⟨_, u, hb, hu⟩ := Prog.run_bind_ok.mp h
  obtain ⟨f, hf, ht⟩ := bumpPolicy_ok hb
  cases hu
  have hnew : ctx.fresh 0 ∉ s.delegations.keys := by
    intro hin
    rw [if_pos hin] at hfresh
    cases hfresh
  exact ⟨toId, f, hto, hnew, hf, ht⟩

theorem revokeDelegate_ok {ctx : RequestCtx} {id a : String} {s t : Store}
    (h : (revokeDelegate ctx id).run s = .ok (a, t)) :
    ∃ k f, idOfKind .permissionDelegation id (validation "invalid id")
        (validation "id must be pdg_…") = .ok k ∧ OnlyVersions f ∧
      t = f (s.setDelegations (·.modify k fun d => { d with revokedAt := some ctx.now })) := by
  simp only [revokeDelegate, Prog.run_ofExcept_bind_ok] at h
  obtain ⟨_, _, k, hk, h⟩ := h
  simp only [Prog.run_execute_bind_ok] at h
  obtain ⟨_, h⟩ := h
  obtain ⟨_, u, hb, hu⟩ := Prog.run_bind_ok.mp h
  obtain ⟨f, hf, ht⟩ := bumpPolicy_ok hb
  cases hu
  exact ⟨k, f, hk, hf, ht⟩

end

inductive DelegationOp
  | createDelegate (ctx : RequestCtx) (body : CreateDelegateRequest)
  | revokeDelegate (ctx : RequestCtx) (id : String)
  | changeMemberRole (ctx : RequestCtx) (targetUser roleRef : String)
  | suspendMember (ctx : RequestCtx) (targetUser : String)
  | revokeMember (ctx : RequestCtx) (targetUser : String)

namespace DelegationOp

def ctx : DelegationOp → RequestCtx
  | createDelegate ctx _ | revokeDelegate ctx _ | changeMemberRole ctx _ _ | suspendMember ctx _
  | revokeMember ctx _ => ctx

def body [Formats] : DelegationOp → Tx String
  | createDelegate ctx body => (·.id) <$> Workspace.createDelegate ctx body
  | revokeDelegate ctx id => Workspace.revokeDelegate ctx id
  | changeMemberRole ctx targetUser roleRef => Workspace.changeMemberRole ctx targetUser roleRef
  | suspendMember ctx targetUser => Workspace.suspendMember ctx targetUser
  | revokeMember ctx targetUser => Workspace.revokeMember ctx targetUser

end DelegationOp

/-- The store as if the delegation had never been made. -/
def Store.without (s : Store) (id : Uuid) : Store := s.setDelegations (·.filter fun k _ => k ≠ id)

section
variable [ConditionFormats] [TimeFormats]

/-- The member is allowed the permission, and would not be but for this delegation. -/
def OnlyByDelegation (s : Store) (now : Timestamp) (m : MembershipRow) (id : Uuid) (p : PermissionId)
    (required : Scope) (ctx : EvaluationContext) : Prop :=
  (principalOf s now m).Allows p required ctx ∧ ¬(principalOf (s.without id) now m).Allows p required ctx

/-- Whatever a member is allowed only by a delegation, the delegator is allowed as an active member. -/
def Confined (s : Store) (now : Timestamp) : Prop :=
  ∀ userId m id d p required ctx, activeMembership s userId = .ok m → s.delegations.find? id = some d →
    OnlyByDelegation s now m id p required ctx →
    ∃ delegator mf, s.membershipById d.fromMembershipId = some (delegator, mf) ∧
      activeMembership s delegator = .ok mf ∧ (principalOf s now mf).Allows p required ctx

/-- The member allows the permission at every scope that `scope` covers, in every context. -/
def AllowsWithin (s : Store) (now : Timestamp) (m : MembershipRow) (p : PermissionId) (scope : Scope) :
    Prop :=
  ∀ required, scope.covers required = true → ∀ ctx, (principalOf s now m).Allows p required ctx

def Store.Covers (s : Store) (now : Timestamp) (membershipId : Uuid) (p : PermissionId) (scope : Scope) :
    Prop :=
  ∃ userId m, s.membershipById membershipId = some (userId, m) ∧ m.status = .active ∧
    m.revokedAt = none ∧ AllowsWithin s now m p scope

/-- The delegation is live and reaches an active member other than `except`. -/
def DelegationRow.Effective (d : DelegationRow) (s : Store) (now : Timestamp) (except : Option Uuid) :
    Prop :=
  d.Live now ∧ ∃ userId m, activeMembership s userId = .ok m ∧ m.id = d.toMembershipId ∧
    some userId ≠ except

/-- Every effective delegation is within what its delegator is allowed. -/
def Grounded (s : Store) (now : Timestamp) : Prop :=
  ∀ id d, s.delegations.find? id = some d → d.Effective s now none →
    s.Covers now d.fromMembershipId d.permissionId (scopeOf d.scope)

/-- What a request has to meet for delegations to stay grounded. -/
def DelegationOp.Keeps [Formats] (s : Store) : DelegationOp → Prop
  /- The delegator allows until the expiry what it delegates to an active member. -/
  | createDelegate ctx body => ∀ toId userId m,
      idOfKind .membership body.toMembershipId (validation "invalid to_membership_id")
        (validation "to_membership_id must be mem_…") = .ok toId →
      activeMembership s userId = .ok m → m.id = toId →
      ∀ now, ctx.now ≤ now → now < body.expiresAt →
        s.Covers now ctx.membershipId body.permissionId (scopeOf body.scope)
  /- What is delegated further does not rest on the delegation. -/
  | revokeDelegate ctx id => ∀ k, idOfKind .permissionDelegation id (validation "invalid id")
        (validation "id must be pdg_…") = .ok k →
      ∀ j d, j ≠ k → s.delegations.find? j = some d → ∀ now, ctx.now ≤ now → d.Effective s now none →
        (s.without k).Covers now d.fromMembershipId d.permissionId (scopeOf d.scope)
  /- The new role still allows what the member delegated. -/
  | changeMemberRole ctx targetUser roleRef => ∀ target roleId key pub role m,
      parseUserRef targetUser = .ok target → (resolveRole roleRef).run s = .ok ((roleId, key, pub), s) →
      roleColumn key = .ok role → s.liveMembership target = some m →
      ∀ id d, s.delegations.find? id = some d → d.fromMembershipId = m.id →
        ∀ now, ctx.now ≤ now → d.Effective s now none →
          AllowsWithin s now (withRole role roleId m) d.permissionId (scopeOf d.scope)
  /- The member has no effective delegation to another one. -/
  | suspendMember ctx targetUser => ∀ target m, parseUserRef targetUser = .ok target →
      s.liveMembership target = some m → ∀ id d, s.delegations.find? id = some d →
        d.fromMembershipId = m.id → ∀ now, ctx.now ≤ now → ¬d.Effective s now (some target)
  | revokeMember ctx targetUser => ∀ target m, parseUserRef targetUser = .ok target →
      s.liveMembership target = some m → ∀ id d, s.delegations.find? id = some d →
        d.fromMembershipId = m.id → ∀ now, ctx.now ≤ now → ¬d.Effective s now (some target)

end

section
variable {s t : Store} {g : Uuid → MembershipRow → MembershipRow}

theorem membershipById_mapRows (hid : ∀ u m, (g u m).id = m.id)
    (hm : t.memberships = s.memberships.mapRows g) (id : Uuid) :
    t.membershipById id = (s.membershipById id).map fun r => (r.1, g r.1 r.2) := by
  unfold Store.membershipById
  rw [hm]
  simp only [Table.mapRows, List.find?_map, Function.comp_def, hid]

end

/-- A change of memberships that activates none, with the rules left as they are. -/
structure Turns (s t : Store) (g : Uuid → MembershipRow → MembershipRow) : Prop where
  memberships : t.memberships = s.memberships.mapRows g
  id : ∀ u m, (g u m).id = m.id
  active : ∀ u m, (g u m).status = .active → (g u m).revokedAt = none →
    m.status = .active ∧ m.revokedAt = none
  rolePermissions : t.rolePermissions = s.rolePermissions
  teams : t.teams = s.teams
  inheritGrants : t.inheritGrants = s.inheritGrants

/-- The two rows stand for the same rights. -/
structure SameRights (m m' : MembershipRow) : Prop where
  role : m'.role = m.role
  roleId : m'.roleId = m.roleId
  teamId : m'.teamId = m.teamId
  status : m'.status = m.status
  revokedAt : m'.revokedAt = m.revokedAt

theorem mem_delegationStatements {s : Store} {now : Timestamp} {membershipId : Uuid} {x : Statement} :
    x ∈ delegationStatements s now membershipId ↔ ∃ k d, s.delegations.find? k = some d ∧
      d.toMembershipId = membershipId ∧ d.Live now ∧ d.statement = x := by
  simp only [delegationStatements, List.mem_map, List.mem_filter, Table.values, Prod.exists,
    decide_eq_true_eq, Table.find?_eq_some]
  constructor
  · rintro ⟨d, ⟨⟨k, d, hk, rfl⟩, hto, hlive⟩, rfl⟩
    exact ⟨k, d, hk, hto, hlive, rfl⟩
  · rintro ⟨k, d, hk, hto, hlive, rfl⟩
    exact ⟨d, ⟨⟨k, d, hk, rfl⟩, hto, hlive⟩, rfl⟩

section
variable [ConditionFormats] [TimeFormats] {s t : Store} {g : Uuid → MembershipRow → MembershipRow}
  {now : Timestamp}

theorem Turns.allowsWithin (h : Turns s t g)
    (hdel : ∀ k d, s.delegations.find? k = some d → t.delegations.find? k = some d)
    {m m' : MembershipRow} (hid : m'.id = m.id) (hrole : m'.role = m.role) (hroleId : m'.roleId = m.roleId)
    (hteam : m'.teamId = m.teamId) {p : PermissionId} {scope : Scope}
    (ha : AllowsWithin s now m p scope) : AllowsWithin t now m' p scope := by
  intro required hcover ctx
  have hrows : rolePermissionsOf t m'.roleId = rolePermissionsOf s m.roleId := by
    unfold rolePermissionsOf
    rw [hroleId, h.rolePermissions]
  have hteams : teamsOf t m' = teamsOf s m := by
    rw [teamsOf, teamsOf, hteam, h.teams]
  have hinherit : inheritStatements t = inheritStatements s := by
    funext tid
    rw [inheritStatements, inheritStatements, h.inheritGrants]
  have hallow := principalOf_allows.mp (ha required hcover ctx)
  rw [principalOf_allows]
  simp only [RoleDenies, TeamDenies, RoleGrants, TeamGrants, RoleReaches, Delegated, hrows, hteams,
    hinherit, hrole, hid] at hallow ⊢
  obtain ⟨hdeny, hteamDeny, hallow⟩ := hallow
  refine ⟨hdeny, hteamDeny, ?_⟩
  rcases hallow with hr | ht | ⟨x, hx, hreach⟩ | hdefault
  · exact .inl hr
  · exact .inr (.inl ht)
  · obtain ⟨k, d, hk, hto, hlive, hd⟩ := mem_delegationStatements.mp hx
    have hx' := mem_delegationStatements.mpr ⟨k, d, hdel k d hk, hto, hlive, hd⟩
    exact .inr (.inr (.inl ⟨x, hx', hreach⟩))
  · exact .inr (.inr (.inr hdefault))

theorem Turns.covers (h : Turns s t g)
    (hdel : ∀ k d, s.delegations.find? k = some d → t.delegations.find? k = some d) {id : Uuid}
    {p : PermissionId} {scope : Scope} (hc : s.Covers now id p scope)
    (hsame : ∀ u m, s.membershipById id = some (u, m) → SameRights m (g u m)) :
    t.Covers now id p scope := by
  obtain ⟨u, m, hm, hactive, hrevoked, hallow⟩ := hc
  have hrights := hsame u m hm
  have hm' : t.membershipById id = some (u, g u m) := by
    rw [membershipById_mapRows h.id h.memberships, hm]
    rfl
  refine ⟨u, g u m, hm', hrights.status.trans hactive, hrights.revokedAt.trans hrevoked, ?_⟩
  exact h.allowsWithin hdel (h.id u m) hrights.role hrights.roleId hrights.teamId hallow

omit [ConditionFormats] [TimeFormats] in
theorem Turns.effective (h : Turns s t g) {d : DelegationRow} {except : Option Uuid}
    (hgone : ∀ u m, some u = except → ¬((g u m).status = .active ∧ (g u m).revokedAt = none))
    (hd : d.Effective t now none) : d.Effective s now except := by
  obtain ⟨hlive, u, m', hm', hto, -⟩ := hd
  obtain ⟨hfind, hrevoked, hactive⟩ := activeMembership_eq_ok.mp hm'
  rw [h.memberships, Table.find?_mapRows, Option.map_eq_some_iff] at hfind
  obtain ⟨m, hm, rfl⟩ := hfind
  obtain ⟨hact, hrev⟩ := h.active u m hactive hrevoked
  refine ⟨hlive, u, m, activeMembership_eq_ok.mpr ⟨hm, hrev, hact⟩, (h.id u m).symm.trans hto, ?_⟩
  exact fun hu => hgone u m hu ⟨hactive, hrevoked⟩

omit [ConditionFormats] [TimeFormats] in
theorem turns_versions {f : Store → Store} (hf : OnlyVersions f) : ∃ g, (∀ u m, SameRights m (g u m)) ∧
    ∀ s t : Store, t.memberships = s.memberships → t.rolePermissions = s.rolePermissions →
      t.teams = s.teams → t.inheritGrants = s.inheritGrants → Turns s (f t) g := by
  obtain ⟨g, hg, hf⟩ := hf
  have hsame : ∀ u m, SameRights m (g u m) ∧ (g u m).id = m.id := by
    intro u m
    obtain ⟨v, hv⟩ := hg u m
    rw [hv]
    exact ⟨⟨rfl, rfl, rfl, rfl, rfl⟩, rfl⟩
  refine ⟨g, fun u m => (hsame u m).1, fun s t hm hp hteams hi => ?_⟩
  rw [hf]
  refine ⟨?_, fun u m => (hsame u m).2, fun u m hact hrev => ?_, hp, hteams, hi⟩
  · rw [← hm]
    rfl
  · have hm := (hsame u m).1
    exact ⟨hm.status.symm.trans hact, hm.revokedAt.symm.trans hrev⟩

omit [ConditionFormats] [TimeFormats] in
theorem delegations_of_versions {f : Store → Store} (hf : OnlyVersions f) (s : Store) :
    (f s).delegations = s.delegations := by
  obtain ⟨g, _, hf⟩ := hf
  rw [hf]
  rfl

theorem grounded_createDelegate [Formats] {ctx : RequestCtx} {body : CreateDelegateRequest}
    {a : DelegationDto} (h : (createDelegate ctx body).run s = .ok (a, t))
    (hk : (DelegationOp.createDelegate ctx body).Keeps s) (hnow : ctx.now ≤ now)
    (hg : Grounded s now) : Grounded t now := by
  obtain ⟨toId, f, hto, hfresh, hf, rfl⟩ := createDelegate_ok h
  obtain ⟨g, hsame, hturns⟩ := turns_versions hf
  have hturn := hturns s (s.setDelegations (·.insert (ctx.fresh 0) (body.row ctx toId))) rfl rfl rfl rfl
  have hdels := delegations_of_versions hf
    (s.setDelegations (·.insert (ctx.fresh 0) (body.row ctx toId)))
  have hnone : s.delegations.find? (ctx.fresh 0) = none := Table.find?_eq_none.mpr hfresh
  have hmore : ∀ k d, s.delegations.find? k = some d →
      (f (s.setDelegations (·.insert (ctx.fresh 0) (body.row ctx toId)))).delegations.find? k =
        some d := by
    intro k d hd
    rw [hdels]
    exact Table.find?_insert_of_some hd _
  intro k d hd heff
  rw [hdels] at hd
  have hbefore : d.Effective s now none := hturn.effective (fun _ _ h => by cases h) heff
  refine hturn.covers hmore ?_ fun u m _ => hsame u m
  by_cases hkey : k = ctx.fresh 0
  · subst hkey
    obtain rfl : body.row ctx toId = d := by
      have hself := Table.find?_insert_self hnone (body.row ctx toId)
      exact Option.some.inj (hself.symm.trans hd)
    obtain ⟨⟨-, hexp⟩, u, m, hm, hid, -⟩ := hbefore
    exact hk toId u m hto hm hid now hnow hexp
  · refine hg k d ?_ hbefore
    rwa [← Table.find?_insert_ne s.delegations (body.row ctx toId) hkey]

theorem grounded_revokeDelegate [Formats] {ctx : RequestCtx} {id a : String}
    (h : (revokeDelegate ctx id).run s = .ok (a, t))
    (hk : (DelegationOp.revokeDelegate ctx id).Keeps s) (hnow : ctx.now ≤ now) : Grounded t now := by
  obtain ⟨k, f, hid, hf, rfl⟩ := revokeDelegate_ok h
  obtain ⟨g, hsame, hturns⟩ := turns_versions hf
  have hturn := hturns (s.without k)
    (s.setDelegations (·.modify k fun d => { d with revokedAt := some ctx.now })) rfl rfl rfl rfl
  have hdels := delegations_of_versions hf
    (s.setDelegations (·.modify k fun d => { d with revokedAt := some ctx.now }))
  have hmore : ∀ j d, (s.without k).delegations.find? j = some d →
      (f (s.setDelegations (·.modify k fun d => { d with revokedAt := some ctx.now }))).delegations.find?
        j = some d := by
    intro j d hd
    obtain ⟨hd, hj⟩ := Table.find?_filter.mp hd
    rw [hdels]
    exact (Table.find?_modify_ne _ _ (by simpa using hj)).trans hd
  intro j d hd heff
  rw [hdels] at hd
  by_cases hjk : j = k
  · -- the revoked one is not effective
    subst hjk
    have hself := Table.find?_modify_self s.delegations j fun d => { d with revokedAt := some ctx.now }
    obtain ⟨d', _, rfl⟩ := Option.map_eq_some_iff.mp (hself.symm.trans hd)
    obtain ⟨⟨hnot, -⟩, -⟩ := heff
    cases hnot
  · have hd' : s.delegations.find? j = some d := by
      rwa [← Table.find?_modify_ne s.delegations (fun d => { d with revokedAt := some ctx.now }) hjk]
    have hbefore : d.Effective s now none := hturn.effective (fun _ _ h => by cases h) heff
    exact hturn.covers hmore (hk k hid j d hjk hd' now hnow hbefore) fun u m _ => hsame u m

omit [ConditionFormats] [TimeFormats] in
theorem turns_modify {target : Uuid} {f : MembershipRow → MembershipRow} (hid : ∀ m, (f m).id = m.id)
    (hactive : ∀ m, (f m).status = .active → (f m).revokedAt = none →
      m.status = .active ∧ m.revokedAt = none) {u : Store} (hm : u.memberships = s.memberships.modify target f)
    (hp : u.rolePermissions = s.rolePermissions) (hteams : u.teams = s.teams)
    (hi : u.inheritGrants = s.inheritGrants) :
    Turns s u fun j m => if j = target then f m else m := by
  refine ⟨hm, fun j m => ?_, fun j m hact hrev => ?_, hp, hteams, hi⟩
  · by_cases hj : j = target <;> simp [hj, hid]
  · by_cases hj : j = target
    · simp only [hj, if_true] at hact hrev
      exact hactive m hact hrev
    · simp only [hj, if_false] at hact hrev
      exact ⟨hact, hrev⟩

theorem grounded_changeMemberRole [Formats] {ctx : RequestCtx} {targetUser roleRef a : String}
    (h : (changeMemberRole ctx targetUser roleRef).run s = .ok (a, t))
    (hk : (DelegationOp.changeMemberRole ctx targetUser roleRef).Keeps s) (hnow : ctx.now ≤ now)
    (hg : Grounded s now) : Grounded t now := by
  obtain ⟨target, roleId, key, pub, m, role, events, htarget, hr, hm, hrole, rfl⟩ := changeMemberRole_ok h
  have hturn := turns_modify (s := s) (f := withRole role roleId)
    (u := { s.setMemberships (·.modify target (withRole role roleId)) with outbox := events })
    (fun _ => rfl) (fun _ hact hrev => ⟨hact, hrev⟩) rfl rfl rfl rfl
  intro k d hd heff
  have hbefore : d.Effective s now none := hturn.effective (fun _ _ h => by cases h) heff
  have hcover := hg k d hd hbefore
  obtain ⟨u, mf, hmf, hactive, hrevoked, hallow⟩ := hcover
  obtain ⟨hfind, hid⟩ := find?_of_membershipById hmf
  by_cases hu : u = target
  · subst hu
    obtain rfl : mf = m := by
      have hlive := (liveMembership_eq_some.mp hm).1
      exact Option.some.inj (hfind.symm.trans hlive)
    have hwithin := hk u roleId key pub role mf htarget hr hrole hm k d hd hid.symm now hnow hbefore
    refine ⟨u, withRole role roleId mf, ?_, hactive, hrevoked, ?_⟩
    · rw [membershipById_mapRows hturn.id hturn.memberships, hmf]
      simp
    · exact hturn.allowsWithin (fun _ _ h => h) rfl rfl rfl rfl hwithin
  · refine hturn.covers (fun _ _ h => h) (hg k d hd hbefore) fun v m' hv => ?_
    obtain ⟨rfl, rfl⟩ : u = v ∧ mf = m' := by
      rw [hmf] at hv
      cases hv
      exact ⟨rfl, rfl⟩
    simp only [hu, if_false]
    exact ⟨rfl, rfl, rfl, rfl, rfl⟩

theorem grounded_of_leaving {target : Uuid} {f : MembershipRow → MembershipRow} {m : MembershipRow}
    (hid : ∀ m, (f m).id = m.id) (hgone : ∀ m, ¬((f m).status = .active ∧ (f m).revokedAt = none))
    (hm : s.liveMembership target = some m)
    (hk : ∀ id d, s.delegations.find? id = some d → d.fromMembershipId = m.id →
      ¬d.Effective s now (some target))
    (ht : t.members = (s.setMemberships (·.modify target f)).members) (hg : Grounded s now) :
    Grounded t now := by
  have hmem : t.memberships = s.memberships.modify target f := congrArg Store.memberships ht
  have hp := congrArg Store.rolePermissions ht
  have hteams := congrArg Store.teams ht
  have hi := congrArg Store.inheritGrants ht
  have hdels := congrArg Store.delegations ht
  change t.delegations = s.delegations at hdels
  have hturn := turns_modify (s := s) hid (fun m hact hrev => absurd ⟨hact, hrev⟩ (hgone m)) hmem hp
    hteams hi
  have hmore : ∀ k d, s.delegations.find? k = some d → t.delegations.find? k = some d := by
    intro k d hd
    rwa [hdels]
  intro k d hd heff
  rw [hdels] at hd
  have hothers : d.Effective s now (some target) := by
    refine hturn.effective (fun u m hu => ?_) heff
    obtain rfl := Option.some.inj hu
    simpa only [if_true] using hgone m
  have hbefore : d.Effective s now none := by
    obtain ⟨hlive, u, m', hm', hto, -⟩ := hothers
    exact ⟨hlive, u, m', hm', hto, by simp⟩
  refine hturn.covers hmore (hg k d hd hbefore) fun u mf hmf => ?_
  obtain ⟨hfind, hfrom⟩ := find?_of_membershipById hmf
  have hu : u ≠ target := by
    rintro rfl
    have hlive := (liveMembership_eq_some.mp hm).1
    obtain rfl := Option.some.inj (hfind.symm.trans hlive)
    exact hk k d hd hfrom.symm hothers
  simp only [hu, if_false]
  exact ⟨rfl, rfl, rfl, rfl, rfl⟩

theorem grounded_suspendMember [Formats] {ctx : RequestCtx} {targetUser a : String}
    (h : (suspendMember ctx targetUser).run s = .ok (a, t))
    (hk : (DelegationOp.suspendMember ctx targetUser).Keeps s) (hnow : ctx.now ≤ now)
    (hg : Grounded s now) : Grounded t now := by
  obtain ⟨target, m, n, u, events, htarget, hm, -, hrev, rfl⟩ := suspendMember_ok h
  have hu := members_revokeOrgUserSessions hrev
  exact grounded_of_leaving (f := suspended ctx.now) (fun _ => rfl) (fun _ h => by cases h.1) hm
    (fun id d hd hfrom => hk target m htarget hm id d hd hfrom now hnow) hu hg

theorem grounded_revokeMember [Formats] {ctx : RequestCtx} {targetUser a : String}
    (h : (revokeMember ctx targetUser).run s = .ok (a, t))
    (hk : (DelegationOp.revokeMember ctx targetUser).Keeps s) (hnow : ctx.now ≤ now)
    (hg : Grounded s now) : Grounded t now := by
  obtain ⟨target, m, n, u, events, htarget, hm, hrev, rfl⟩ := revokeMember_ok h
  have hu := members_revokeOrgUserSessions hrev
  exact grounded_of_leaving (f := revoked ctx.now) (fun _ => rfl) (fun _ h => by cases h.1) hm
    (fun id d hd hfrom => hk target m htarget hm id d hd hfrom now hnow) hu hg

theorem DelegationOp.Keeps.grounded [Formats] {op : DelegationOp} {a : String} (hk : op.Keeps s)
    (hnow : op.ctx.now ≤ now) (h : op.body.run s = .ok (a, t)) (hg : Grounded s now) :
    Grounded t now := by
  cases op with
  | createDelegate ctx body =>
    obtain ⟨b, u, hrun, hu⟩ := Prog.run_bind_ok.mp h
    cases hu
    exact grounded_createDelegate hrun hk hnow hg
  | revokeDelegate ctx id => exact grounded_revokeDelegate h hk hnow
  | changeMemberRole ctx targetUser roleRef => exact grounded_changeMemberRole h hk hnow hg
  | suspendMember ctx targetUser => exact grounded_suspendMember h hk hnow hg
  | revokeMember ctx targetUser => exact grounded_revokeMember h hk hnow hg

theorem OnlyByDelegation.grants {m : MembershipRow} {id : Uuid} {d : DelegationRow} {p : PermissionId}
    {required : Scope} {ctx : EvaluationContext} (h : OnlyByDelegation s now m id p required ctx)
    (hd : s.delegations.find? id = some d) : d.toMembershipId = m.id ∧ d.Live now ∧
      d.permissionId = p ∧ (scopeOf d.scope).covers required = true := by
  obtain ⟨hallow, hnot⟩ := h
  obtain ⟨hdeny, hteam, hallow⟩ := principalOf_allows.mp hallow
  by_contra hgrant
  refine hnot (principalOf_allows.mpr ⟨hdeny, hteam, ?_⟩)
  rcases hallow with hr | ht | ⟨x, hx, hreach⟩ | hdefault
  · exact .inl hr
  · exact .inr (.inl ht)
  · obtain ⟨k, d', hk, hto, hlive, rfl⟩ := mem_delegationStatements.mp hx
    have hne : k ≠ id := by
      rintro rfl
      obtain rfl := Option.some.inj (hk.symm.trans hd)
      exact hgrant ⟨hto, hlive, hreach.2.1, hreach.2.2⟩
    have hk' : (s.without id).delegations.find? k = some d' :=
      Table.find?_filter.mpr ⟨hk, by simpa using hne⟩
    exact .inr (.inr (.inl ⟨_, mem_delegationStatements.mpr ⟨k, d', hk', hto, hlive, rfl⟩, hreach⟩))
  · exact .inr (.inr (.inr hdefault))

theorem Grounded.confined (h : Grounded s now) : Confined s now := by
  intro userId m id d p required ctx hm hd honly
  obtain ⟨hto, hlive, rfl, hcover⟩ := honly.grants hd
  obtain ⟨u, mf, hmf, hactive, hrevoked, hallow⟩ :=
    h id d hd ⟨hlive, userId, m, hm, hto.symm, by simp⟩
  obtain ⟨hfind, _⟩ := find?_of_membershipById hmf
  exact ⟨u, mf, hmf, activeMembership_eq_ok.mpr ⟨hfind, hrevoked, hactive⟩, hallow required hcover ctx⟩

/-- Over every run of requests that keep delegations grounded, what a member is allowed only by a
delegation is allowed to the delegator, who is an active member, from the last request on. -/
theorem delegations_confined [Formats] {s t : Store} {steps : List (Store × DelegationOp)}
    (h : Runs DelegationOp.body s steps t) (h0 : ∀ now, Grounded s now)
    (hsteps : ∀ x ∈ steps, x.2.Keeps x.1) (now : Timestamp) (hnow : ∀ x ∈ steps, x.2.ctx.now ≤ now) :
    Confined t now := by
  refine Grounded.confined ?_
  refine h.invariant (C := fun x => x.2.Keeps x.1 ∧ x.2.ctx.now ≤ now) (I := (Grounded · now)) (h0 now)
    (fun x hx => ⟨hsteps x hx, hnow x hx⟩) ?_
  rintro u op a v ⟨hk, hle⟩ hg hrun
  exact hk.grounded hle hrun hg

end

/-- The organisation of an administrator or owner, and a member. -/
def twoMembers (role : Role) : Store := { Store.empty with
  memberships := (Table.empty.insert 1 ⟨101, "mem_a", role, none, none, none, 1, .active, none, none⟩).insert 2
    ⟨102, "mem_b", .member, none, none, none, 1, .active, none, none⟩ }

/-- The first of the two delegates a permission to the second. -/
def delegating [Formats] (p : PermissionId) : DelegationOp :=
  .createDelegate (.nth 0) ⟨publicIdStr .membership 102, p, "organization", 10⟩

/-- An administrator delegates what administrators are not allowed. -/
theorem delegation_exceeds :
    letI := Finance.canonicalFormats
    letI := canonicalConditionFormats
    letI := canonicalTimeFormats
    ∃ (s t : Store) (steps : List (Store × DelegationOp)) (now : Timestamp),
      s.delegations = .empty ∧ Runs DelegationOp.body s steps t ∧
      (∀ x ∈ steps, x.2.ctx.now ≤ now) ∧ ¬Confined t now := by
  let := Finance.canonicalFormats
  let := canonicalConditionFormats
  let := canonicalTimeFormats
  obtain ⟨steps, t, hrun, hcheck⟩ := Runs.of_play DelegationOp.body [delegating "workspace.org.create"]
    (twoMembers .admin) (fun steps t => steps.all (fun x => x.2.ctx.now ≤ 5) &&
      (t.memberships.find? 2).any fun m => (t.delegations.find? 0).any fun d =>
        (t.membershipById 101).any fun mf =>
          m.status = .active ∧ m.revokedAt = none ∧ d.fromMembershipId = 101 ∧
          (principalOf t 5 m).Allows "workspace.org.create" .organization .default ∧
          ¬(principalOf (t.without 0) 5 m).Allows "workspace.org.create" .organization .default ∧
          ¬(principalOf t 5 mf.2).Allows "workspace.org.create" .organization .default) (by decide +kernel)
  rw [Bool.and_eq_true, List.all_eq_true] at hcheck
  obtain ⟨htimes, hcheck⟩ := hcheck
  refine ⟨_, t, steps, 5, rfl, hrun, fun x hx => by simpa using htimes x hx, fun hconf => ?_⟩
  simp only [Option.any_eq_true, decide_eq_true_eq] at hcheck
  obtain ⟨m, hm, d, hd, mf, hmf, hactive, hrevoked, hfrom, hallow, hnot, hexceeds⟩ := hcheck
  obtain ⟨v, mf', hmf', _, hmust⟩ := hconf 2 m 0 d "workspace.org.create" .organization .default
    (activeMembership_eq_ok.mpr ⟨hm, hrevoked, hactive⟩) hd ⟨hallow, hnot⟩
  rw [hfrom, hmf] at hmf'
  cases hmf'
  exact hexceeds hmust

/-- An owner's delegation confines the member who gets it. -/
theorem delegations_confined_owner :
    letI := Finance.canonicalFormats
    letI := canonicalConditionFormats
    letI := canonicalTimeFormats
    ∃ t, Runs DelegationOp.body (twoMembers .owner)
      [(twoMembers .owner, delegating "sales.deal.update")] t ∧ Confined t 5 := by
  let := Finance.canonicalFormats
  let := canonicalConditionFormats
  let := canonicalTimeFormats
  obtain ⟨a, t, hrun, -⟩ := Prog.run_of_check (p := (delegating "sales.deal.update").body)
    (s := twoMembers .owner) (P := fun _ _ => true) (by decide +kernel)
  have hruns : Runs DelegationOp.body (twoMembers .owner)
      [(twoMembers .owner, delegating "sales.deal.update")] t := .step (.nil _) hrun
  refine ⟨t, hruns, delegations_confined hruns ?_ ?_ 5 ?_⟩
  · intro now id d hd
    simp [twoMembers, Store.empty] at hd
  · intro x hx
    obtain rfl := List.mem_singleton.mp hx
    intro toId userId m _ _ _ now _ _
    refine ⟨1, ⟨101, "mem_a", .owner, none, none, none, 1, .active, none, none⟩, by rfl, rfl, rfl, ?_⟩
    intro required _ ctx
    have hdefault : "sales.deal.update" ∈ Role.owner.defaultAllows := by decide +kernel
    rw [principalOf_allows]
    refine ⟨by simp [RoleDenies, rolePermissionsOf], by simp [TeamDenies, teamsOf, teamChain], ?_⟩
    exact .inr (.inr (.inr ⟨by simp [RoleReaches, rolePermissionsOf], hdefault⟩))
  · intro x hx
    obtain rfl := List.mem_singleton.mp hx
    decide

end Noxara.Workspace
