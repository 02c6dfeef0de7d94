import Noxara.RoleEdits

/-! Provisioning an organisation: the system roles with their permissions, the owner's membership, and the first
entries of the history of entitlements. What the command seeds besides is left out. Each system role has the
permissions of its template, and only the owner's entitlements are recorded. -/
namespace Noxara.Workspace

open Authz Transaction
open Finance (Uuid Timestamp Formats AppError internal)

/-- The roles of every organisation. -/
def allSystem : List Role := [.owner, .admin, .finance, .sales, .manager, .member, .readOnly]

def displayName : Role → String
  | .owner => "Owner"
  | .admin => "Admin"
  | .finance => "Finance"
  | .sales => "Sales"
  | .manager => "Manager"
  | .member => "Member"
  | .readOnly => "Read-only"

/-- The history after a change of what a user is entitled to: open rows of the user end, and a new one
starts for each permission. -/
def recordEntitlements (userId membershipId : Uuid) (roleKey : String)
    (permissions : List (PermissionId × Effect)) (now : Timestamp) (rows : List EntitlementRow) :
    List EntitlementRow :=
  rows.map (fun r => if r.userId = userId ∧ r.effectiveTo = none then { r with effectiveTo := some now }
    else r) ++
  permissions.map fun p => ⟨userId, membershipId, roleKey, p.1, p.2, now, none⟩

def recordEntitlementsForMembership (userId membershipId : Uuid) (roleKey : String)
    (permissions : List (PermissionId × Effect)) (now : Timestamp) : OrganizationTx Unit :=
  .execute (fun _ => []) (fun _ => .ok ()) fun _ o =>
    { o with entitlements := recordEntitlements userId membershipId roleKey permissions now o.entitlements }

def Organization.systemRole? (o : Organization) (role : Role) : Option (Uuid × RoleRow) :=
  o.store.roles.rows.find? fun r => r.2.systemKey = some role.asStr

section
variable [Formats]

/-- The role of a template, there already or new with this id. -/
def insertSystemRole (role : Role) (id : Uuid) : OrganizationTx Uuid :=
  .executeReturning (fun v => ((v.systemRole? role).toList.map fun r => .role r.1))
    (fun v =>
      let target := ((v.systemRole? role).map Prod.fst).getD id
      if (v.systemRole? role).isNone ∧ id ∈ v.store.roles.keys then
        .error (databaseError "duplicate key value violates unique constraint \"org_role_pkey\"")
      else if v.roleTexts.rows.any fun r => r.1 ≠ target ∧ r.2.name = displayName role then
        .error (databaseError "duplicate key value violates unique constraint \"org_role_org_id_name_key\"")
      else .ok target)
    fun v o =>
      match v.systemRole? role with
      | some (old, _) => { o with roleTexts := o.roleTexts.modify old fun t => { t with name := displayName role } }
      | none => { o with
          store := { o.store with roles := o.store.roles.insert id ⟨publicIdStr .role id, some role.asStr⟩ }
          roleTexts := o.roleTexts.insert id
            ⟨displayName role, s!"System role: {displayName role}", true, none, none⟩ }

/-- A permission of the template, unless the role has it. -/
def seedPermission (roleId : Uuid) (p : PermissionId × Uuid) : OrganizationTx Unit :=
  .execute (fun _ => [.rolePermission roleId p.1 .allow])
    (fun v => rolePermissionKeys v roleId p.1 .allow p.2) fun _ o =>
      if (o.rolePermission? roleId p.1 .allow).isSome then o
      else upsertRolePermission o roleId p.1 .allow .organization p.2

def bindOwner (ctx : RequestCtx) (roleId ownerUserId : Uuid) : OrganizationTx Unit := do
  .execute (fun _ => [.row (.membership ownerUserId)]) (fun _ => .ok ()) fun _ =>
    Organization.setStore fun s => s.setMemberships (·.modify ownerUserId fun m =>
      { m with roleId := some roleId, role := .owner, status := .active })
  let mem ← .query (·.store.memberships.find? ownerUserId)
  let perms := Role.owner.defaultAllows.map fun p => (p, Effect.allow)
  match mem with
  | none => return ()
  | some m => recordEntitlementsForMembership ownerUserId m.id "owner" perms ctx.now

/-- What the template of a role allows, out of the catalogue. -/
def seededPermissions (role : Role) : List PermissionId :=
  permissionCatalogue.filter (· ∈ role.defaultAllows)

def seedRole (ctx : RequestCtx) (ownerUserId : Uuid) (role : Role × Nat) : OrganizationTx Unit := do
  let rid ← insertSystemRole role.1 (ctx.fresh role.2)
  deleteRolePermissions rid
  .each (seedPermission rid) ((seededPermissions role.1).zipIdx.map fun p =>
    (p.1, ctx.fresh (1000 * (role.2 + 1) + p.2)))
  if role.1 = .owner then bindOwner ctx rid ownerUserId

def seedWorkspace (ctx : RequestCtx) (ownerUserId : Uuid) : OrganizationTx Unit :=
  .each (seedRole ctx ownerUserId) allSystem.zipIdx

end

def setCommand (f : CommandRow → CommandRow) : OrganizationTx Unit :=
  .execute (fun _ => [.command]) (fun _ => .ok ()) fun _ o => { o with command := o.command.map f }

/-- There is one command for an organisation, whoever asks for it again. -/
def enqueueProvisioning (ownerUserId : Option Uuid) : OrganizationTx Unit :=
  .execute (fun _ => [.command]) (fun _ => .ok ()) fun v o =>
    if v.command.isSome then o else { o with command := some ⟨ownerUserId, .pending, 0, none⟩ }

def CommandRow.failed (error : String) (c : CommandRow) : CommandRow :=
  { c with status := .failed, lastError := some error }

/-- A failure that the command notes is committed with what was done before. -/
def processPending [Formats] (ctx : RequestCtx) : OrganizationTx (Except AppError Unit) := do
  let row ← .queryForUpdate (fun _ => [.command]) fun o => o.command.filter (·.status ≠ .completed)
  match row with
  | none => return .ok ()
  | some cmd =>
    setCommand fun c => { c with status := .running, attempts := c.attempts + 1 }
    match cmd.ownerUserId with
    | none =>
      setCommand (·.failed "missing owner_user_id")
      return .error (internal "OrgProvisioning failed: missing owner_user_id")
    | some ownerUserId =>
      seedWorkspace ctx ownerUserId
      let owners ← .query fun o => activeOwnerCount o.store
      if owners < 1 then
        setCommand (·.failed "OrgProvisioning left org without an active Owner")
        return .error (internal
          "OrgProvisioning failed: OrgProvisioning left org without an active Owner")
      else
        onMembers (insertEvent ⟨"workspace", "organization.provisioned", [("roles_seeded", "7")]⟩)
        setCommand fun c => { c with status := .completed, lastError := none }
        return .ok ()

def GrantsByRole (s : Store) (roleId : Option Uuid) (q : PermissionId) : Prop :=
  (∃ r ∈ rolePermissionsOf s roleId, r.effect = .allow ∧ r.permissionId = q) ∧
    ¬∃ r ∈ rolePermissionsOf s roleId, r.effect = .deny ∧ r.permissionId = q

section
variable {o p : Organization} {rid : Uuid} {q : PermissionId} {f : PermissionId → Effect → Option Scope}

theorem RoleHolds.grants_iff (h : RoleHolds o rid f) :
    GrantsByRole o.store (some rid) q ↔ (f q .allow).isSome ∧ f q .deny = none := by
  have hrow : ∀ e, (∃ r ∈ rolePermissionsOf o.store (some rid), r.effect = e ∧ r.permissionId = q) ↔
      (f q e).isSome := by
    intro e
    constructor
    · rintro ⟨r, hr, rfl, rfl⟩
      rw [h.scope r hr, Option.isSome_some]
    · intro hsome
      obtain ⟨r, hr, hq, he⟩ := h.row q e hsome
      exact ⟨r, hr, he, hq⟩
  unfold GrantsByRole
  rw [hrow, hrow, Option.not_isSome_iff_eq_none]

theorem EditsOnly.grants_iff (h : EditsOnly rid o p) {rid' : Uuid} (hne : rid' ≠ rid) :
    GrantsByRole p.store (some rid') q ↔ GrantsByRole o.store (some rid') q := by
  obtain ⟨t, rfl, ht⟩ := h
  have hrows : ∀ r, r ∈ rolePermissionsOf (o.setRolePermissions fun _ => t).store (some rid') ↔
      r ∈ rolePermissionsOf o.store (some rid') := by
    intro r
    simp only [rolePermissionsOf, List.mem_filter, decide_eq_true_eq]
    refine and_congr_left fun hrole => ht r ?_
    rw [hrole]
    exact hne
  simp only [GrantsByRole, hrows]

/-- The permissions of a role when it has just these, for the whole organisation. -/
def templateScopes (permissions : List PermissionId) (q : PermissionId) (e : Effect) : Option Scope :=
  if e = .allow ∧ q ∈ permissions then some .organization else none

theorem seedPermission_ok {done : List PermissionId} {x : PermissionId × Uuid} {u : Unit}
    (hf : RoleHolds o rid (templateScopes done)) (h : (seedPermission rid x).run o = .ok (u, p)) :
    RoleHolds p rid (templateScopes (x.1 :: done)) ∧ EditsOnly rid o p := by
  simp only [seedPermission, Prog.run_execute_ok, Prod.mk.injEq] at h
  obtain ⟨hkeys, -, rfl⟩ := h
  split_ifs with hthere
  · obtain ⟨⟨k, r⟩, hr⟩ := Option.isSome_iff_exists.mp hthere
    obtain ⟨hrow, hrole, hperm, heffect⟩ := rolePermission?_eq_some hr
    have hscope := hf.scope r (mem_rolePermissionsOf.mpr ⟨⟨k, hrow⟩, hrole⟩)
    have hdone : x.1 ∈ done := by
      by_contra hno
      simp [templateScopes, hperm, heffect, hno] at hscope
    have hsame : templateScopes (x.1 :: done) = templateScopes done := by
      funext q e
      have hmem : q ∈ x.1 :: done ↔ q ∈ done := by
        rw [List.mem_cons, or_iff_right_of_imp]
        rintro rfl
        exact hdone
      simp only [templateScopes, hmem]
    rw [hsame]
    exact ⟨hf, .refl rid _⟩
  · have hnext : templateScopes (x.1 :: done) = fun q e =>
        if x.1 = q ∧ .allow = e then some .organization else templateScopes done q e := by
      funext q e
      cases e with
      | allow =>
        by_cases hq : x.1 = q
        · simp [templateScopes, hq]
        · have hne : ¬q = x.1 := fun h => hq h.symm
          simp [templateScopes, hq, hne]
      | deny => simp [templateScopes]
    rw [hnext]
    exact ⟨hf.upsert hkeys, editsOnly_upsert hkeys⟩

theorem seedPermissions_ok {done : List PermissionId} {l : List (PermissionId × Uuid)} {u : Unit}
    (hf : RoleHolds o rid (templateScopes done))
    (h : (Prog.each (seedPermission rid) l).run o = .ok (u, p)) :
    RoleHolds p rid (templateScopes ((l.map Prod.fst).reverse ++ done)) ∧ EditsOnly rid o p := by
  induction l generalizing o done with
  | nil =>
    cases h
    exact ⟨hf, .refl rid _⟩
  | cons x xs ih =>
    obtain ⟨_, o₁, hx, hrest⟩ := Prog.run_bind_ok.mp h
    obtain ⟨hone, hedit⟩ := seedPermission_ok hf hx
    obtain ⟨hall, hedits⟩ := ih hone hrest
    simp only [List.map_cons, List.reverse_cons, List.append_assoc, List.cons_append, List.nil_append]
    exact ⟨hall, hedit.trans hedits⟩

theorem grants_of_template {permissions : List PermissionId} (hf : RoleHolds o rid (templateScopes permissions)) :
    GrantsByRole o.store (some rid) q ↔ q ∈ permissions := by
  rw [hf.grants_iff]
  simp [templateScopes]

theorem insertSystemRole_ok [Formats] {role : Role} {id : Uuid}
    (h : (insertSystemRole role id).run o = .ok (rid, p)) :
    (∃ roles texts, p = { o with store := { o.store with roles }, roleTexts := texts }) ∧
      (∀ k r, o.store.roles.find? k = some r → p.store.roles.find? k = some r) ∧
      ∃ r, p.store.roles.find? rid = some r ∧ r.systemKey = some role.asStr := by
  simp only [insertSystemRole, Prog.run_executeReturning_ok] at h
  obtain ⟨hcheck, rfl⟩ := h
  cases hrole : o.systemRole? role with
  | some found =>
    obtain ⟨old, r⟩ := found
    simp only [hrole, Option.isNone_some, Bool.false_eq_true, false_and, if_false, Option.map_some,
      Option.getD_some] at hcheck ⊢
    split_ifs at hcheck
    cases hcheck
    refine ⟨⟨o.store.roles, _, rfl⟩, fun k r hk => hk, r, ?_, ?_⟩
    · exact Table.find?_eq_some.mpr (List.mem_of_find?_eq_some hrole)
    · simpa using List.find?_some hrole
  | none =>
    simp only [hrole, Option.isNone_none, true_and, Option.map_none, Option.getD_none] at hcheck ⊢
    split_ifs at hcheck with htaken
    cases hcheck
    have hfree := Table.find?_eq_none.mpr htaken
    exact ⟨⟨_, _, rfl⟩, fun k r hk => Table.find?_insert_of_some hk _,
      ⟨publicIdStr .role rid, some role.asStr⟩, Table.find?_insert_self hfree _, rfl⟩

def ownerMembership (rid : Uuid) (m : MembershipRow) : MembershipRow :=
  { m with roleId := some rid, role := .owner, status := .active }

def ownerEntitlements (o : Organization) (ownerUserId : Uuid) (now : Timestamp) : List EntitlementRow :=
  match o.store.memberships.find? ownerUserId with
  | none => o.entitlements
  | some m => recordEntitlements ownerUserId m.id "owner" (Role.owner.defaultAllows.map fun p => (p, .allow)) now
      o.entitlements

theorem bindOwner_ok {ctx : RequestCtx} {ownerUserId : Uuid} {u : Unit}
    (h : (bindOwner ctx rid ownerUserId).run o = .ok (u, p)) :
    p = { o.setStore (·.setMemberships (·.modify ownerUserId (ownerMembership rid))) with
      entitlements := ownerEntitlements o ownerUserId ctx.now } := by
  simp only [bindOwner, Prog.run_execute_bind_ok, Prog.run_query_bind] at h
  obtain ⟨-, h⟩ := h
  have hfind : (o.setStore fun s => s.setMemberships (·.modify ownerUserId (ownerMembership rid))
      ).store.memberships.find? ownerUserId = (o.store.memberships.find? ownerUserId).map (ownerMembership rid) :=
    Table.find?_modify_self _ _ _
  change (match (o.setStore fun s => s.setMemberships (·.modify ownerUserId (ownerMembership rid))
      ).store.memberships.find? ownerUserId with
    | none => (return () : OrganizationTx Unit)
    | some m => recordEntitlementsForMembership ownerUserId m.id "owner"
        (Role.owner.defaultAllows.map fun p => (p, .allow)) ctx.now).run
      (o.setStore fun s => s.setMemberships (·.modify ownerUserId (ownerMembership rid))) = .ok (u, p) at h
  rw [hfind] at h
  unfold ownerEntitlements
  cases hm : o.store.memberships.find? ownerUserId with
  | none =>
    rw [hm] at h
    cases h
    rfl
  | some m =>
    rw [hm] at h
    simp only [Option.map_some, recordEntitlementsForMembership, Prog.run_execute_ok, Prod.mk.injEq] at h
    rw [h.2.2]
    rfl

/-- What seeding one role leaves of the members and the history. -/
structure SeedsRole (ctx : RequestCtx) (ownerUserId : Uuid) (role : Role) (o p : Organization) (rid : Uuid) :
    Prop where
  users : p.store.users = o.store.users
  invitations : p.store.invitations = o.store.invitations
  roles : ∀ k r, o.store.roles.find? k = some r → p.store.roles.find? k = some r
  key : ∃ r, p.store.roles.find? rid = some r ∧ r.systemKey = some role.asStr
  template : ∀ q, GrantsByRole p.store (some rid) q ↔ q ∈ seededPermissions role
  others : ∀ rid' q, rid' ≠ rid → (GrantsByRole p.store (some rid') q ↔ GrantsByRole o.store (some rid') q)
  memberships : p.store.memberships = if role = .owner then
    o.store.memberships.modify ownerUserId (ownerMembership rid) else o.store.memberships
  entitlements : p.entitlements = if role = .owner then ownerEntitlements o ownerUserId ctx.now
    else o.entitlements

theorem seedRole_ok [Formats] {ctx : RequestCtx} {ownerUserId : Uuid} {role : Role × Nat} {u : Unit}
    (h : (seedRole ctx ownerUserId role).run o = .ok (u, p)) :
    ∃ rid, SeedsRole ctx ownerUserId role.1 o p rid := by
  obtain ⟨rid, o₁, hinsert, h⟩ := Prog.run_bind_ok.mp h
  simp only [deleteRolePermissions, Prog.run_execute_bind_ok] at h
  obtain ⟨-, h⟩ := h
  obtain ⟨_, o₂, hseed, h⟩ := Prog.run_bind_ok.mp h
  obtain ⟨⟨roles, texts, rfl⟩, hroles, hrole⟩ := insertSystemRole_ok hinsert
  have hempty : templateScopes [] = fun _ _ => none := by
    funext q e
    simp [templateScopes]
  have hdeleted := roleHolds_delete { o with store := { o.store with roles }, roleTexts := texts } rid
  rw [← hempty] at hdeleted
  obtain ⟨hholds, hedits⟩ := seedPermissions_ok hdeleted hseed
  have hedits := (editsOnly_delete rid _).trans hedits
  have hnames : ((seededPermissions role.1).zipIdx.map fun x =>
      (x.1, ctx.fresh (1000 * (role.2 + 1) + x.2))).map Prod.fst = seededPermissions role.1 := by
    simp [Function.comp_def]
  rw [hnames, List.append_nil] at hholds
  have htemplate : ∀ q, GrantsByRole o₂.store (some rid) q ↔ q ∈ seededPermissions role.1 := by
    intro q
    rw [grants_of_template hholds, List.mem_reverse]
  have hothers : ∀ rid' q, rid' ≠ rid →
      (GrantsByRole o₂.store (some rid') q ↔ GrantsByRole o.store (some rid') q) :=
    fun rid' q hne => hedits.grants_iff hne
  obtain ⟨t, rfl, -⟩ := hedits
  refine ⟨rid, ?_⟩
  split_ifs at h with howner
  · obtain rfl := bindOwner_ok h
    exact ⟨rfl, rfl, hroles, hrole, htemplate, hothers, by rw [if_pos howner]; rfl, by rw [if_pos howner]; rfl⟩
  · cases h
    exact ⟨rfl, rfl, hroles, hrole, htemplate, hothers, by rw [if_neg howner]; rfl, by rw [if_neg howner]; rfl⟩

/-- Whatever the templates make of the role, it grants that already. -/
def KeepsGrants (o : Organization) (roles : List Role) (rid : Uuid) : Prop :=
  ∃ r, o.store.roles.find? rid = some r ∧ ∀ role ∈ roles, r.systemKey = some role.asStr →
    ∀ q, GrantsByRole o.store (some rid) q ↔ q ∈ seededPermissions role

theorem SeedsRole.keeps {ctx : RequestCtx} {ownerUserId : Uuid} {role : Role} {roles : List Role}
    {seeded rid' : Uuid} (h : SeedsRole ctx ownerUserId role o p seeded)
    (hkeeps : KeepsGrants o (role :: roles) rid') :
    (∀ q, GrantsByRole p.store (some rid') q ↔ GrantsByRole o.store (some rid') q) ∧
      KeepsGrants p roles rid' := by
  obtain ⟨r, hr, hsame⟩ := hkeeps
  have hgrants : ∀ q, GrantsByRole p.store (some rid') q ↔ GrantsByRole o.store (some rid') q := by
    intro q
    by_cases hseeded : rid' = seeded
    · obtain ⟨x, hx, hkey⟩ := h.key
      have hrx : r = x := by
        rw [← hseeded, h.roles rid' r hr, Option.some.injEq] at hx
        exact hx
      rw [hrx] at hsame
      rw [hsame role (by simp) hkey q, hseeded, h.template q]
    · exact h.others rid' q hseeded
  refine ⟨hgrants, r, h.roles rid' r hr, fun role' hrole' hkey q => ?_⟩
  rw [hgrants q]
  exact hsame role' (List.mem_cons_of_mem _ hrole') hkey q

/-- What seeding other roles than the owner's leaves. -/
structure SeedsOthers (templates : List Role) (o p : Organization) : Prop where
  users : p.store.users = o.store.users
  invitations : p.store.invitations = o.store.invitations
  memberships : p.store.memberships = o.store.memberships
  entitlements : p.entitlements = o.entitlements
  roles : ∀ k r, o.store.roles.find? k = some r → p.store.roles.find? k = some r
  grants : ∀ rid, KeepsGrants o templates rid →
    ∀ q, GrantsByRole p.store (some rid) q ↔ GrantsByRole o.store (some rid) q

theorem seedOthers_ok [Formats] {ctx : RequestCtx} {ownerUserId : Uuid} {l : List (Role × Nat)} {u : Unit}
    (hl : ∀ x ∈ l, x.1 ≠ .owner) (h : (Prog.each (seedRole ctx ownerUserId) l).run o = .ok (u, p)) :
    SeedsOthers (l.map Prod.fst) o p := by
  induction l generalizing o with
  | nil =>
    cases h
    exact ⟨rfl, rfl, rfl, rfl, fun _ _ hk => hk, fun _ _ _ => Iff.rfl⟩
  | cons x xs ih =>
    obtain ⟨_, o₁, hx, hrest⟩ := Prog.run_bind_ok.mp h
    obtain ⟨rid, hone⟩ := seedRole_ok hx
    have hall := ih (fun y hy => hl y (List.mem_cons_of_mem _ hy)) hrest
    have hne := hl x (by simp)
    have hm := hone.memberships
    have he := hone.entitlements
    rw [if_neg hne] at hm he
    refine ⟨hall.users.trans hone.users, hall.invitations.trans hone.invitations, hall.memberships.trans hm,
      hall.entitlements.trans he, fun k r hk => hall.roles k r (hone.roles k r hk), fun rid' hkeeps q => ?_⟩
    obtain ⟨hfirst, hrest'⟩ := hone.keeps hkeeps
    rw [hall.grants rid' hrest' q, hfirst q]

/-- What seeding the workspace leaves: the owner's membership is bound to a role with the permissions of
the owner, and what other roles grant may be what their template says. -/
structure SeedsWorkspace (ctx : RequestCtx) (ownerUserId : Uuid) (o p : Organization) (rid : Uuid) : Prop where
  users : p.store.users = o.store.users
  invitations : p.store.invitations = o.store.invitations
  memberships : p.store.memberships = o.store.memberships.modify ownerUserId (ownerMembership rid)
  entitlements : p.entitlements = ownerEntitlements o ownerUserId ctx.now
  roles : ∀ k r, o.store.roles.find? k = some r → p.store.roles.find? k = some r
  owner : (p.store.roles.find? rid).isSome ∧
    ∀ q, GrantsByRole p.store (some rid) q ↔ q ∈ seededPermissions .owner
  grants : ∀ rid', KeepsGrants o allSystem rid' →
    ∀ q, GrantsByRole p.store (some rid') q ↔ GrantsByRole o.store (some rid') q

theorem seedWorkspace_ok [Formats] {ctx : RequestCtx} {ownerUserId : Uuid} {u : Unit}
    (h : (seedWorkspace ctx ownerUserId).run o = .ok (u, p)) :
    ∃ rid, SeedsWorkspace ctx ownerUserId o p rid := by
  obtain ⟨_, o₁, hx, hrest⟩ := Prog.run_bind_ok.mp h
  obtain ⟨rid, hone⟩ := seedRole_ok hx
  have hall := seedOthers_ok (by decide) hrest
  obtain ⟨r, hr, hkey⟩ := hone.key
  refine ⟨rid, hall.users.trans hone.users, hall.invitations.trans hone.invitations,
    hall.memberships.trans hone.memberships, hall.entitlements.trans hone.entitlements,
    fun k r hk => hall.roles k r (hone.roles k r hk), ⟨?_, fun q => ?_⟩, fun rid' hkeeps q => ?_⟩
  · rw [hall.roles rid r hr, Option.isSome_some]
  · -- the other templates have other keys
    have hkeeps : KeepsGrants o₁ [.admin, .finance, .sales, .manager, .member, .readOnly] rid := by
      refine ⟨r, hr, fun role hrole hkey' => ?_⟩
      rw [hkey, Option.some.injEq] at hkey'
      exfalso
      revert hkey'
      revert role
      decide
    rw [hall.grants rid hkeeps q]
    exact hone.template q
  · obtain ⟨hfirst, hrest'⟩ := hone.keeps hkeeps
    rw [hall.grants rid' hrest' q, hfirst q]

/-- The permissions of a template can be seeded in turn: they are in the catalogue, and no row has one of the ids. -/
structure SeedablePermissions (o : Organization) (l : List (PermissionId × Uuid)) : Prop where
  defined : ∀ x ∈ l, x.1 ∈ o.permissionDefinitions
  free : ∀ x ∈ l, x.2 ∉ o.store.rolePermissions.keys
  distinct : (l.map Prod.snd).Nodup

theorem seedPermission_run {x : PermissionId × Uuid} {l : List (PermissionId × Uuid)}
    (h : SeedablePermissions o (x :: l)) :
    ∃ t, (seedPermission rid x).run o = .ok ((), o.setRolePermissions fun _ => t) ∧
      ∀ k ∈ t.keys, k ∈ o.store.rolePermissions.keys ∨ k = x.2 := by
  have hkeys : rolePermissionKeys o rid x.1 .allow x.2 = .ok () := by
    rw [rolePermissionKeys, if_neg (not_not.mpr (h.defined x (by simp))), if_neg fun hused =>
      h.free x (by simp) hused.2]
  by_cases hthere : (o.rolePermission? rid x.1 .allow).isSome
  · refine ⟨o.store.rolePermissions, Prog.run_execute_ok.mpr ⟨hkeys, ?_⟩, fun k hk => .inl hk⟩
    rw [if_pos hthere]
    rfl
  · refine ⟨o.store.rolePermissions.insert x.2 ⟨rid, x.1, .allow, .organization, .array []⟩,
      Prog.run_execute_ok.mpr ⟨hkeys, ?_⟩, fun k hk => ?_⟩
    rw [Option.not_isSome_iff_eq_none] at hthere
    · simp only [hthere, Option.isSome_none, Bool.false_eq_true, if_false, upsertRolePermission]
      rfl
    · exact Table.mem_keys_of_insert hk

theorem seedPermissions_run (rid : Uuid) {l : List (PermissionId × Uuid)} (h : SeedablePermissions o l) :
    ∃ t, (Prog.each (seedPermission rid) l).run o = .ok ((), o.setRolePermissions fun _ => t) ∧
      ∀ k ∈ t.keys, k ∈ o.store.rolePermissions.keys ∨ k ∈ l.map Prod.snd := by
  induction l generalizing o with
  | nil => exact ⟨o.store.rolePermissions, rfl, fun k hk => .inl hk⟩
  | cons x xs ih =>
    obtain ⟨t, hx, ht⟩ := seedPermission_run h
    obtain ⟨hnew, hdistinct⟩ := List.nodup_cons.mp h.distinct
    have hrest : SeedablePermissions (o.setRolePermissions fun _ => t) xs := by
      refine ⟨fun y hy => h.defined y (List.mem_cons_of_mem _ hy), fun y hy hused => ?_, hdistinct⟩
      rcases ht y.2 hused with hused | hsame
      · exact h.free y (List.mem_cons_of_mem _ hy) hused
      · exact hnew (hsame ▸ List.mem_map_of_mem hy)
    obtain ⟨u, hxs, hu⟩ := ih hrest
    refine ⟨u, Prog.run_bind_ok.mpr ⟨_, _, hx, hxs⟩, fun k hk => ?_⟩
    rcases hu k hk with hk | hk
    · refine (ht k hk).imp_right ?_
      rintro rfl
      exact List.mem_cons_self
    · exact .inr (List.mem_cons_of_mem _ hk)

/-- The templates can be seeded in turn, in an organisation that has none of these roles. -/
structure Seedable (ctx : RequestCtx) (o : Organization) (l : List (Role × Nat)) : Prop where
  catalogue : ∀ q ∈ permissionCatalogue, q ∈ o.permissionDefinitions
  unseeded : ∀ x ∈ l, ∀ r ∈ o.store.roles.rows, r.2.systemKey ≠ some x.1.asStr
  unnamed : ∀ x ∈ l, ∀ r ∈ o.roleTexts.rows, r.2.name ≠ displayName x.1
  freeRole : ∀ x ∈ l, ctx.fresh x.2 ∉ o.store.roles.keys
  freePermission : ∀ x ∈ l, ∀ j < 1000, ctx.fresh (1000 * (x.2 + 1) + j) ∉ o.store.rolePermissions.keys
  apart : l.Pairwise fun x y => x.1 ≠ y.1 ∧ x.2 ≠ y.2

section
variable [Formats] {ctx : RequestCtx}

/-- The organisation with the role of a template, new under this id. -/
def Organization.withSystemRole (o : Organization) (role : Role) (id : Uuid) : Organization :=
  { o with
    store := { o.store with roles := o.store.roles.insert id ⟨publicIdStr .role id, some role.asStr⟩ }
    roleTexts := o.roleTexts.insert id
      ⟨displayName role, s!"System role: {displayName role}", true, none, none⟩ }

theorem insertSystemRole_run {x : Role × Nat} {l : List (Role × Nat)} (h : Seedable ctx o (x :: l)) :
    (insertSystemRole x.1 (ctx.fresh x.2)).run o =
      .ok (ctx.fresh x.2, o.withSystemRole x.1 (ctx.fresh x.2)) := by
  have hnone : o.systemRole? x.1 = none :=
    List.find?_eq_none.mpr fun r hr => by simpa using h.unseeded x (by simp) r hr
  refine Prog.run_executeReturning_ok.mpr ⟨?_, ?_⟩
  · have hnames : ¬o.roleTexts.rows.any (fun r => r.1 ≠ ctx.fresh x.2 ∧ r.2.name = displayName x.1) = true := by
      rw [List.any_eq_true]
      rintro ⟨r, hr, hname⟩
      simp only [decide_eq_true_eq] at hname
      exact h.unnamed x (by simp) r hr hname.2
    simp only [hnone, Option.isNone_none, true_and, Option.map_none, Option.getD_none,
      if_neg (h.freeRole x (by simp)), if_neg hnames]
  · simp only [hnone]
    rfl

omit [Formats] in
theorem bindOwner_run (ctx : RequestCtx) (rid ownerUserId : Uuid) (o : Organization) :
    ∃ s entries, (bindOwner ctx rid ownerUserId).run o =
      .ok ((), { o.setStore (·.setMemberships s) with entitlements := entries }) := by
  have hok : ∃ p, (bindOwner ctx rid ownerUserId).run o = .ok ((), p) := by
    simp only [bindOwner, Prog.run_execute_bind_ok, Prog.run_query_bind]
    split
    · exact ⟨_, trivial, rfl⟩
    · exact ⟨_, trivial, rfl⟩
  obtain ⟨p, hp⟩ := hok
  obtain rfl := bindOwner_ok hp
  exact ⟨_, _, hp⟩

/-- The ids of the rows of a template are those of its place. -/
def templateRows (ctx : RequestCtx) (role : Role × Nat) : List (PermissionId × Uuid) :=
  (seededPermissions role.1).zipIdx.map fun p => (p.1, ctx.fresh (1000 * (role.2 + 1) + p.2))

omit [Formats] in
theorem mem_templateRows {x : Role × Nat} {y : PermissionId × Uuid} (h : y ∈ templateRows ctx x) :
    y.1 ∈ permissionCatalogue ∧ ∃ j < 1000, y.2 = ctx.fresh (1000 * (x.2 + 1) + j) := by
  obtain ⟨⟨q, j⟩, hq, rfl⟩ := List.mem_map.mp h
  obtain ⟨-, hj, hat⟩ := List.mem_zipIdx hq
  have hseeded : q ∈ seededPermissions x.1 := hat ▸ List.getElem_mem _
  have hshort : (seededPermissions x.1).length ≤ 1000 :=
    (List.length_filter_le _ _).trans (by decide +kernel)
  exact ⟨(List.mem_filter.mp hseeded).1, j, by omega, rfl⟩

omit [Formats] in
theorem templateRows_nodup (hfresh : Function.Injective ctx.fresh) (x : Role × Nat) :
    ((templateRows ctx x).map Prod.snd).Nodup := by
  have hids : (templateRows ctx x).map Prod.snd =
      (List.range' 0 (seededPermissions x.1).length).map fun j => ctx.fresh (1000 * (x.2 + 1) + j) := by
    rw [← List.zipIdx_map_snd, templateRows, List.map_map, List.map_map]
    rfl
  rw [hids]
  exact List.Nodup.map (fun i j hij => by simpa using hfresh hij) List.nodup_range'

omit [Formats] in
theorem asStr_injective : Function.Injective Role.asStr := by
  intro r r' h
  cases r <;> cases r' <;> first | rfl | exact absurd h (by decide)

omit [Formats] in
theorem displayName_injective : Function.Injective displayName := by
  intro r r' h
  cases r <;> cases r' <;> first | rfl | exact absurd h (by decide)

/-- Seeding one role leaves the others to be seeded. -/
theorem Seedable.rest {x : Role × Nat} {l : List (Role × Nat)} (h : Seedable ctx o (x :: l))
    (hfresh : Function.Injective ctx.fresh) (hdefs : p.permissionDefinitions = o.permissionDefinitions)
    (hroles : p.store.roles = (o.withSystemRole x.1 (ctx.fresh x.2)).store.roles)
    (htexts : p.roleTexts = (o.withSystemRole x.1 (ctx.fresh x.2)).roleTexts)
    (hrows : ∀ k ∈ p.store.rolePermissions.keys, k ∈ o.store.rolePermissions.keys ∨
      k ∈ (templateRows ctx x).map Prod.snd) : Seedable ctx p l := by
  obtain ⟨hapart, hrest⟩ := List.pairwise_cons.mp h.apart
  refine ⟨by rw [hdefs]; exact h.catalogue, fun y hy r hr => ?_, fun y hy r hr => ?_, fun y hy hused => ?_,
    fun y hy j hj hused => ?_, hrest⟩
  · rw [hroles] at hr
    rcases Table.mem_rows_of_insert hr with hr | rfl
    · exact h.unseeded y (List.mem_cons_of_mem _ hy) r hr
    · exact fun hkey => (hapart y hy).1 (asStr_injective (Option.some.inj hkey))
  · rw [htexts] at hr
    rcases Table.mem_rows_of_insert hr with hr | rfl
    · exact h.unnamed y (List.mem_cons_of_mem _ hy) r hr
    · exact fun hname => (hapart y hy).1 (displayName_injective hname)
  · rw [hroles] at hused
    rcases Table.mem_keys_of_insert hused with hused | hsame
    · exact h.freeRole y (List.mem_cons_of_mem _ hy) hused
    · exact (hapart y hy).2 (hfresh hsame).symm
  · rcases hrows _ hused with hused | hused
    · exact h.freePermission y (List.mem_cons_of_mem _ hy) j hj hused
    · obtain ⟨z, hz, hid⟩ := List.mem_map.mp hused
      obtain ⟨-, i, hi, hz⟩ := mem_templateRows hz
      have hplace := hfresh (hz.symm.trans hid)
      have hne := (hapart y hy).2
      omega

theorem seedRole_run {x : Role × Nat} {l : List (Role × Nat)} (ownerUserId : Uuid)
    (hfresh : Function.Injective ctx.fresh) (h : Seedable ctx o (x :: l)) :
    ∃ p, (seedRole ctx ownerUserId x).run o = .ok ((), p) ∧ Seedable ctx p l := by
  let cleared := (o.withSystemRole x.1 (ctx.fresh x.2)).setRolePermissions
    (·.filter fun _ r => r.roleId ≠ ctx.fresh x.2)
  have hkeys : ∀ k ∈ cleared.store.rolePermissions.keys, k ∈ o.store.rolePermissions.keys :=
    fun k hk => (List.filter_sublist.map _).subset hk
  have hseedable : SeedablePermissions cleared (templateRows ctx x) := by
    refine ⟨fun y hy => h.catalogue _ (mem_templateRows hy).1, fun y hy hused => ?_, templateRows_nodup hfresh x⟩
    obtain ⟨-, j, hj, hid⟩ := mem_templateRows hy
    rw [hid] at hused
    exact h.freePermission x (by simp) j hj (hkeys _ hused)
  obtain ⟨t, hseed, ht⟩ := seedPermissions_run (ctx.fresh x.2) hseedable
  have hrows : ∀ k ∈ t.keys, k ∈ o.store.rolePermissions.keys ∨ k ∈ (templateRows ctx x).map Prod.snd :=
    fun k hk => (ht k hk).imp_left (hkeys k)
  have hrun : ∀ r, (if x.1 = .owner then bindOwner ctx (ctx.fresh x.2) ownerUserId else pure ()).run
      (cleared.setRolePermissions fun _ => t) = .ok r → (seedRole ctx ownerUserId x).run o = .ok r := by
    intro r hr
    refine Prog.run_bind_ok.mpr ⟨_, _, insertSystemRole_run h, ?_⟩
    simp only [deleteRolePermissions, Prog.run_execute_bind_ok, true_and]
    exact Prog.run_bind_ok.mpr ⟨_, _, hseed, hr⟩
  by_cases howner : x.1 = .owner
  · obtain ⟨s, entries, hbind⟩ :=
      bindOwner_run ctx (ctx.fresh x.2) ownerUserId (cleared.setRolePermissions fun _ => t)
    refine ⟨_, hrun _ (by rw [if_pos howner]; exact hbind), ?_⟩
    exact h.rest hfresh rfl rfl rfl hrows
  · refine ⟨cleared.setRolePermissions fun _ => t, hrun _ (by rw [if_neg howner]; rfl), ?_⟩
    exact h.rest hfresh rfl rfl rfl hrows

theorem seedWorkspace_run (ownerUserId : Uuid) (hfresh : Function.Injective ctx.fresh)
    (h : Seedable ctx o allSystem.zipIdx) : ∃ p, (seedWorkspace ctx ownerUserId).run o = .ok ((), p) := by
  have hrun : ∀ {l : List (Role × Nat)} {o : Organization}, Seedable ctx o l →
      ∃ p, (Prog.each (seedRole ctx ownerUserId) l).run o = .ok ((), p) := by
    intro l
    induction l with
    | nil => exact fun _ => ⟨_, rfl⟩
    | cons x xs ih =>
      intro o h
      obtain ⟨v, hx, hv⟩ := seedRole_run ownerUserId hfresh h
      obtain ⟨p, hp⟩ := ih hv
      exact ⟨p, Prog.run_bind_ok.mpr ⟨_, _, hx, hp⟩⟩
  exact hrun h

/-- A pending command with an owner is processed where the organisation has no system role yet and the ids
are new. -/
theorem processPending_run {cmd : CommandRow} {ownerUserId : Uuid} (hfresh : Function.Injective ctx.fresh)
    (hcmd : o.command = some cmd) (hstatus : cmd.status ≠ .completed) (howner : cmd.ownerUserId = some ownerUserId)
    (h : Seedable ctx o allSystem.zipIdx) :
    ∃ a p rid v events, (processPending ctx).run o = .ok (a, p) ∧ SeedsWorkspace ctx ownerUserId o v rid ∧
      p.store = { v.store with outbox := events } := by
  have hrunning : Seedable ctx { o with command := o.command.map fun c =>
      { c with status := .running, attempts := c.attempts + 1 } } allSystem.zipIdx :=
    ⟨h.catalogue, h.unseeded, h.unnamed, h.freeRole, h.freePermission, h.apart⟩
  obtain ⟨v, hseed⟩ := seedWorkspace_run ownerUserId hfresh hrunning
  obtain ⟨rid, hseeds⟩ := seedWorkspace_ok hseed
  have hseeds : SeedsWorkspace ctx ownerUserId o v rid := ⟨hseeds.users, hseeds.invitations, hseeds.memberships,
    hseeds.entitlements, hseeds.roles, hseeds.owner, hseeds.grants⟩
  have hread : o.command.filter (·.status ≠ .completed) = some cmd := by simp [hcmd, hstatus]
  simp only [processPending, Prog.run_queryForUpdate_bind, hread, setCommand, Prog.run_execute_bind_ok, howner,
    true_and]
  rw [Prog.run_bind, hseed]
  simp only [Except.bind, Prog.run_query_bind]
  split_ifs
  · simp only [Prog.run_execute_bind_ok, true_and]
    exact ⟨_, _, rid, v, v.store.outbox, rfl, hseeds, rfl⟩
  · exact ⟨_, _, rid, v, _, Prog.run_bind_ok.mpr ⟨(), _, rfl, Prog.run_execute_bind_ok.mpr ⟨rfl, rfl⟩⟩,
      hseeds, rfl⟩

end

end

end Noxara.Workspace
