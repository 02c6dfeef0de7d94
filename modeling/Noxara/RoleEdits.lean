import Noxara.FinanceStatements
import Noxara.Memberships
import Noxara.PrincipalAgreement

/-! Editing a role: its name, its limits and the permissions it grants its members. After an accepted edit the
permissions of the role are those of the request, and nothing else changes but the versions of its members. The decision
about a member of the role is then compared with the request. -/
namespace Noxara.Workspace

open Authz Transaction
open Finance (Uuid Timestamp Formats PublicId AppError notFound validation trim)

/-- What a role is called, and up to what amount it approves. -/
structure RoleText where
  name : String
  description : String
  isSystem : Bool
  approvalLimitAmountMinor : Option Int
  approvalLimitCurrency : Option String

/-- A permission that a user was granted, from one instant on and perhaps until another. -/
structure EntitlementRow where
  userId : Uuid
  membershipId : Uuid
  roleKey : String
  permissionId : PermissionId
  effect : Effect
  effectiveFrom : Timestamp
  effectiveTo : Option Timestamp

inductive CommandStatus
  | pending | running | completed | failed
  deriving DecidableEq

/-- The command that provisions the organisation, with the owner it was given. -/
structure CommandRow where
  ownerUserId : Option Uuid
  status : CommandStatus
  attempts : Nat
  lastError : Option String

/-- The members with what their roles are called, the permissions that are defined, the command that
sets the roles up, and the history of entitlements. -/
structure Organization where
  store : Store
  roleTexts : Table Uuid RoleText
  permissionDefinitions : List PermissionId
  command : Option CommandRow
  entitlements : List EntitlementRow

def Organization.setStore (f : Store → Store) (o : Organization) : Organization :=
  { o with store := f o.store }

def Organization.setRolePermissions (o : Organization)
    (f : Table Uuid RolePermissionRow → Table Uuid RolePermissionRow) : Organization :=
  o.setStore fun s => { s with rolePermissions := f s.rolePermissions }

inductive OrganizationLock
  | row (lock : Lock)
  | role (id : Uuid)
  | rolePermission (roleId : Uuid) (permissionId : PermissionId) (effect : Effect)
  | command
  deriving DecidableEq

abbrev OrganizationTx (α : Type) := Prog Organization OrganizationLock AppError α

def onMembers {α : Type} (p : Tx α) : OrganizationTx α :=
  p.zoom Organization.store Organization.setStore .row

structure RolePermissionInput where
  permissionId : PermissionId
  effect : String
  scope : String

structure UpsertRoleRequest where
  name : String
  description : Option String
  approvalLimitAmountMinor : Option Int
  approvalLimitCurrency : Option String
  permissions : List RolePermissionInput

structure RoleView where
  roleId : String
  name : String
  description : String
  systemKey : Option String
  isSystem : Bool
  approvalLimitAmountMinor : Option Int
  approvalLimitCurrency : Option String
  permissions : List (PermissionId × Effect × Scope)

def effectOfText : String → Option Effect
  | "allow" => some .allow
  | "deny" => some .deny
  | _ => none

/-- The row of a role for a permission and an effect, of which there is at most one. -/
def Organization.rolePermission? (o : Organization) (roleId : Uuid) (permissionId : PermissionId)
    (effect : Effect) : Option (Uuid × RolePermissionRow) :=
  o.store.rolePermissions.rows.find? fun r =>
    r.2.roleId = roleId ∧ r.2.permissionId = permissionId ∧ r.2.effect = effect

/-- What the foreign key and the primary key of a new row ask for. -/
def rolePermissionKeys (o : Organization) (roleId : Uuid) (permissionId : PermissionId)
    (effect : Effect) (id : Uuid) : Except AppError Unit :=
  if permissionId ∉ o.permissionDefinitions then
    .error (databaseError "insert or update on table \"role_permission\" violates foreign key constraint \"role_permission_permission_id_fkey\"")
  else if (o.rolePermission? roleId permissionId effect).isNone ∧ id ∈ o.store.rolePermissions.keys then
    .error (databaseError "duplicate key value violates unique constraint \"role_permission_pkey\"")
  else .ok ()

def deleteRolePermissions (roleId : Uuid) : OrganizationTx Unit :=
  .execute (fun v => (v.store.rolePermissions.values.filter (·.roleId = roleId)).map fun r =>
      .rolePermission roleId r.permissionId r.effect)
    (fun _ => .ok ()) fun _ o => o.setRolePermissions (·.filter fun _ r => r.roleId ≠ roleId)

/-- The row is there with the scope, new or as it was before. -/
def upsertRolePermission (o : Organization) (roleId : Uuid) (permissionId : PermissionId)
    (effect : Effect) (scope : Scope) (id : Uuid) : Organization :=
  o.setRolePermissions fun t =>
    match o.rolePermission? roleId permissionId effect with
    | some (old, _) => t.modify old fun r => { r with scope }
    | none => t.insert id ⟨roleId, permissionId, effect, scope, .array []⟩

def writeRolePermission (roleId : Uuid) (p : RolePermissionInput × Uuid) : OrganizationTx Unit :=
  if !validatePermissionId p.1.permissionId then
    .fail (validation s!"invalid permission_id {p.1.permissionId}")
  else
    match effectOfText p.1.effect with
    | none => .fail (validation "effect must be allow or deny")
    | some effect =>
      .execute (fun _ => [.rolePermission roleId p.1.permissionId effect])
        (fun v => rolePermissionKeys v roleId p.1.permissionId effect p.2)
        fun _ o => upsertRolePermission o roleId p.1.permissionId effect (scopeOf p.1.scope) p.2

def writeRolePermissions (roleId : Uuid) (permissions : List RolePermissionInput) (fresh : Nat → Uuid) :
    OrganizationTx Unit := do
  deleteRolePermissions roleId
  .each (writeRolePermission roleId) (permissions.zipIdx.map fun p => (p.1, fresh p.2))

/-- The permissions of the members of a role are to be loaded anew. -/
def bumpRoleMemberships (roleId : Uuid) : OrganizationTx Unit :=
  .execute (fun v => (v.store.memberships.rows.filter fun r =>
      r.2.roleId = some roleId ∧ r.2.revokedAt = none).map fun r => .row (.membership r.1))
    (fun _ => .ok ()) fun _ => Organization.setStore fun s => s.setMemberships (·.mapRows fun _ m =>
      if m.roleId = some roleId ∧ m.revokedAt = none then { m with policyVersion := m.policyVersion + 1 }
      else m)

def Organization.roleView (o : Organization) (roleId : Uuid) : Option RoleView := do
  let r ← o.store.roles.find? roleId
  let text ← o.roleTexts.find? roleId
  return ⟨r.publicId, text.name, text.description, r.systemKey, text.isSystem,
    text.approvalLimitAmountMinor, text.approvalLimitCurrency,
    (rolePermissionsOf o.store (some roleId)).map fun p => (p.permissionId, p.effect, p.scope)⟩

def loadRoleView (roleId : Uuid) : OrganizationTx RoleView := do
  let row ← .query (·.roleView roleId)
  .okOr row (notFound "role")

def UpsertRoleRequest.text (body : UpsertRoleRequest) (old : RoleText) : RoleText where
  name := if old.isSystem then old.name else trim body.name
  description := body.description.getD old.description
  isSystem := old.isSystem
  approvalLimitAmountMinor := body.approvalLimitAmountMinor
  approvalLimitCurrency := body.approvalLimitCurrency

def roleNameFree (o : Organization) (roleId : Uuid) (body : UpsertRoleRequest) : Except AppError Unit :=
  match o.roleTexts.find? roleId with
  | none => .ok ()
  | some old =>
    if o.roleTexts.rows.any fun r => r.1 ≠ roleId ∧ r.2.name = (body.text old).name then
      .error (databaseError "duplicate key value violates unique constraint \"org_role_org_id_name_key\"")
    else .ok ()

section
variable [Formats]

def parseRoleId (roleId : String) : Except AppError Uuid :=
  match PublicId.fromStr roleId with
  | .ok pid => .ok pid.uuid
  | .error _ => .error (validation "bad role id")

def updateRole (ctx : RequestCtx) (roleId : String) (body : UpsertRoleRequest) :
    OrganizationTx RoleView := do
  .ofExcept (ctx.authorize "workspace.role.manage")
  let rid ← .ofExcept (parseRoleId roleId)
  let row ← .query (·.store.roles.find? rid)
  let role ← .okOr row (notFound "role")
  .execute (fun _ => [.role rid]) (fun v => roleNameFree v rid body) fun _ o =>
    { o with roleTexts := o.roleTexts.modify rid body.text }
  -- the owner keeps every permission
  if role.systemKey ≠ some "owner" then writeRolePermissions rid body.permissions ctx.fresh
  bumpRoleMemberships rid
  loadRoleView rid

end

/-- The scope that a list of permissions gives for one of them, the last entry for it. -/
def lastScope (p : PermissionId) (effect : Effect) : List RolePermissionInput → Option Scope
  | [] => none
  | e :: es => (lastScope p effect es).or
    (if e.permissionId = p ∧ effectOfText e.effect = some effect then some (scopeOf e.scope) else none)

def MapAllows (permissions : List RolePermissionInput) (p : PermissionId) (required : Scope) : Prop :=
  ∃ scope, lastScope p .allow permissions = some scope ∧ scope.covers required = true

def MapDenies (permissions : List RolePermissionInput) (p : PermissionId) : Prop :=
  ∃ scope, lastScope p .deny permissions = some scope

/-- The permissions of a role, each once, with its scope and without conditions. -/
structure RoleHolds (o : Organization) (rid : Uuid) (f : PermissionId → Effect → Option Scope) : Prop where
  scope : ∀ r ∈ rolePermissionsOf o.store (some rid), f r.permissionId r.effect = some r.scope
  row : ∀ q e, (f q e).isSome → ∃ r ∈ rolePermissionsOf o.store (some rid), r.permissionId = q ∧ r.effect = e
  unconditional : ∀ r ∈ rolePermissionsOf o.store (some rid), r.conditions = .array []
  once : ∀ k r k' r', (k, r) ∈ o.store.rolePermissions.rows → (k', r') ∈ o.store.rolePermissions.rows →
    r.roleId = rid → r'.roleId = rid → r.permissionId = r'.permissionId → r.effect = r'.effect → k = k'

theorem mem_rolePermissionsOf {s : Store} {rid : Uuid} {r : RolePermissionRow} :
    r ∈ rolePermissionsOf s (some rid) ↔ (∃ k, (k, r) ∈ s.rolePermissions.rows) ∧ r.roleId = rid := by
  simp [rolePermissionsOf, Table.values]

theorem roleHolds_delete (o : Organization) (rid : Uuid) :
    RoleHolds (o.setRolePermissions (·.filter fun _ r => r.roleId ≠ rid)) rid fun _ _ => none := by
  have hnone : ∀ k r, (k, r) ∈ (o.store.rolePermissions.filter fun _ r => r.roleId ≠ rid).rows →
      r.roleId ≠ rid := by
    intro k r hr
    simpa [Table.filter] using (List.mem_filter.mp hr).2
  refine ⟨fun r hr => ?_, fun q e h => by simp at h, fun r hr => ?_, fun k r _ _ hr _ hrole => ?_⟩
  · obtain ⟨⟨k, hk⟩, hrole⟩ := mem_rolePermissionsOf.mp hr
    exact absurd hrole (hnone k r hk)
  · obtain ⟨⟨k, hk⟩, hrole⟩ := mem_rolePermissionsOf.mp hr
    exact absurd hrole (hnone k r hk)
  · exact absurd hrole (hnone k r hr)

section
variable {o : Organization} {rid id : Uuid} {q : PermissionId} {e : Effect} {sc : Scope}
  {f : PermissionId → Effect → Option Scope}

theorem rolePermission?_eq_some {k : Uuid} {r : RolePermissionRow}
    (h : o.rolePermission? rid q e = some (k, r)) : (k, r) ∈ o.store.rolePermissions.rows ∧
      r.roleId = rid ∧ r.permissionId = q ∧ r.effect = e := by
  refine ⟨List.mem_of_find?_eq_some h, ?_⟩
  simpa using List.find?_some h

theorem rolePermission?_eq_none (h : o.rolePermission? rid q e = none) {k : Uuid} {r : RolePermissionRow}
    (hr : (k, r) ∈ o.store.rolePermissions.rows) : ¬(r.roleId = rid ∧ r.permissionId = q ∧ r.effect = e) := by
  have hno := List.find?_eq_none.mp h (k, r) hr
  simpa using hno

/-- The rows after an upsert: those there were, the one for the key with the new scope. -/
theorem mem_upsertRolePermission (hkeys : rolePermissionKeys o rid q e id = .ok ()) {k : Uuid}
    {x : RolePermissionRow} :
    (k, x) ∈ (upsertRolePermission o rid q e sc id).store.rolePermissions.rows ↔
      match o.rolePermission? rid q e with
      | some (old, _) => ∃ r, (k, r) ∈ o.store.rolePermissions.rows ∧
          x = if k = old then { r with scope := sc } else r
      | none => (k, x) ∈ o.store.rolePermissions.rows ∨ k = id ∧ x = ⟨rid, q, e, sc, .array []⟩ := by
  unfold upsertRolePermission Organization.setRolePermissions Organization.setStore
  cases hrow : o.rolePermission? rid q e with
  | some found =>
    simp only [Table.modify, Table.mem_mapRows]
    constructor
    · rintro ⟨r, hr, rfl⟩
      exact ⟨r, hr, rfl⟩
    · rintro ⟨r, hr, rfl⟩
      exact ⟨r, hr, rfl⟩
  | none =>
    have hfree : id ∉ o.store.rolePermissions.keys := by
      unfold rolePermissionKeys at hkeys
      split_ifs at hkeys with hfk hpk
      rw [hrow] at hpk
      simpa using hpk
    simp [Table.rows_insert (Table.find?_eq_none.mpr hfree)]

/-- After an upsert the role has the permission with the new scope, and the others as they were. -/
theorem RoleHolds.upsert (h : RoleHolds o rid f) (hkeys : rolePermissionKeys o rid q e id = .ok ()) :
    RoleHolds (upsertRolePermission o rid q e sc id) rid
      fun q' e' => if q = q' ∧ e = e' then some sc else f q' e' := by
  have hmem := fun k x => @mem_upsertRolePermission _ _ _ _ _ sc hkeys k x
  cases hrow : o.rolePermission? rid q e with
  | some found =>
    obtain ⟨old, r₀⟩ := found
    obtain ⟨hold, hrole₀, hq₀, he₀⟩ := rolePermission?_eq_some hrow
    simp only [hrow] at hmem
    -- the row for the key is the old one and no other
    have hkey : ∀ k r, (k, r) ∈ o.store.rolePermissions.rows → r.roleId = rid →
        (k = old ↔ q = r.permissionId ∧ e = r.effect) := by
      intro k r hr hrole
      constructor
      · rintro rfl
        obtain rfl := Table.row_unique hr hold
        exact ⟨hq₀.symm, he₀.symm⟩
      · rintro ⟨hq, he⟩
        exact h.once k r old r₀ hr hold hrole hrole₀ (hq.symm.trans hq₀.symm) (he.symm.trans he₀.symm)
    have hrows : ∀ x, x ∈ rolePermissionsOf (upsertRolePermission o rid q e sc id).store (some rid) ↔
        ∃ k r, (k, r) ∈ o.store.rolePermissions.rows ∧ r.roleId = rid ∧
          x = if k = old then { r with scope := sc } else r := by
      intro x
      simp only [mem_rolePermissionsOf, hmem]
      constructor
      · rintro ⟨⟨k, r, hr, rfl⟩, hrole⟩
        refine ⟨k, r, hr, ?_, rfl⟩
        split_ifs at hrole <;> exact hrole
      · rintro ⟨k, r, hr, hrole, rfl⟩
        refine ⟨⟨k, r, hr, rfl⟩, ?_⟩
        split_ifs <;> exact hrole
    refine ⟨fun x hx => ?_, fun q' e' hsome => ?_, fun x hx => ?_, fun k x k' x' hx hx' => ?_⟩
    · obtain ⟨k, r, hr, hrole, rfl⟩ := (hrows x).mp hx
      have hk := hkey k r hr hrole
      by_cases hold' : k = old
      · simp [hold', hk.mp hold']
      · have hf := h.scope r (mem_rolePermissionsOf.mpr ⟨⟨k, hr⟩, hrole⟩)
        rw [hk] at hold'
        simp only [hk, if_neg hold', hf]
    · by_cases hnew : q = q' ∧ e = e'
      · obtain ⟨rfl, rfl⟩ := hnew
        exact ⟨{ r₀ with scope := sc }, (hrows _).mpr ⟨old, r₀, hold, hrole₀, by simp⟩, hq₀, he₀⟩
      · simp only [if_neg hnew] at hsome
        obtain ⟨r, hr, hq', he'⟩ := h.row q' e' hsome
        obtain ⟨⟨k, hk⟩, hrole⟩ := mem_rolePermissionsOf.mp hr
        have hne : ¬k = old := by
          rw [hkey k r hk hrole, hq', he']
          exact hnew
        exact ⟨r, (hrows r).mpr ⟨k, r, hk, hrole, by rw [if_neg hne]⟩, hq', he'⟩
    · obtain ⟨k, r, hr, hrole, rfl⟩ := (hrows x).mp hx
      have hc := h.unconditional r (mem_rolePermissionsOf.mpr ⟨⟨k, hr⟩, hrole⟩)
      split_ifs <;> exact hc
    · obtain ⟨r, hr, rfl⟩ := (hmem k x).mp hx
      obtain ⟨r', hr', rfl⟩ := (hmem k' x').mp hx'
      have honce := h.once k r k' r' hr hr'
      split_ifs <;> exact honce
  | none =>
    simp only [hrow] at hmem
    have hrows : ∀ x, x ∈ rolePermissionsOf (upsertRolePermission o rid q e sc id).store (some rid) ↔
        x ∈ rolePermissionsOf o.store (some rid) ∨ x = ⟨rid, q, e, sc, .array []⟩ := by
      intro x
      simp only [mem_rolePermissionsOf, hmem]
      constructor
      · rintro ⟨⟨k, hk | ⟨rfl, rfl⟩⟩, hrole⟩
        · exact .inl ⟨⟨k, hk⟩, hrole⟩
        · exact .inr rfl
      · rintro (⟨⟨k, hk⟩, hrole⟩ | rfl)
        · exact ⟨⟨k, .inl hk⟩, hrole⟩
        · exact ⟨⟨id, .inr ⟨rfl, rfl⟩⟩, rfl⟩
    have hother : ∀ r ∈ rolePermissionsOf o.store (some rid), ¬(q = r.permissionId ∧ e = r.effect) := by
      intro r hr
      obtain ⟨⟨k, hk⟩, hrole⟩ := mem_rolePermissionsOf.mp hr
      have hno := rolePermission?_eq_none hrow hk
      rintro ⟨rfl, rfl⟩
      exact hno ⟨hrole, rfl, rfl⟩
    refine ⟨fun x hx => ?_, fun q' e' hsome => ?_, fun x hx => ?_, fun k x k' x' hx hx' hrole hrole' hq' he' => ?_⟩
    · rcases (hrows x).mp hx with hx | rfl
      · rw [if_neg (hother x hx)]
        exact h.scope x hx
      · simp
    · by_cases hnew : q = q' ∧ e = e'
      · obtain ⟨rfl, rfl⟩ := hnew
        exact ⟨_, (hrows _).mpr (.inr rfl), rfl, rfl⟩
      · simp only [if_neg hnew] at hsome
        obtain ⟨r, hr, hkey⟩ := h.row q' e' hsome
        exact ⟨r, (hrows r).mpr (.inl hr), hkey⟩
    · rcases (hrows x).mp hx with hx | rfl
      · exact h.unconditional x hx
      · rfl
    · rcases (hmem k x).mp hx with hk | ⟨rfl, rfl⟩ <;> rcases (hmem k' x').mp hx' with hk' | ⟨rfl, rfl⟩
      · exact h.once k x k' x' hk hk' hrole hrole' hq' he'
      · exact absurd ⟨hq'.symm, he'.symm⟩ (hother x (mem_rolePermissionsOf.mpr ⟨⟨k, hk⟩, hrole⟩))
      · exact absurd ⟨hq', he'⟩ (hother x' (mem_rolePermissionsOf.mpr ⟨⟨k', hk'⟩, hrole'⟩))
      · rfl

end

/-- Only the permissions of this role differ. -/
def EditsOnly (rid : Uuid) (o p : Organization) : Prop :=
  ∃ t, p = o.setRolePermissions (fun _ => t) ∧
    ∀ r : RolePermissionRow, r.roleId ≠ rid → (r ∈ t.values ↔ r ∈ o.store.rolePermissions.values)

section
variable {o p : Organization} {rid : Uuid}

theorem EditsOnly.trans {q : Organization} (hop : EditsOnly rid o p) (hpq : EditsOnly rid p q) :
    EditsOnly rid o q := by
  obtain ⟨t, rfl, ht⟩ := hop
  obtain ⟨u, rfl, hu⟩ := hpq
  exact ⟨u, rfl, fun r hr => (hu r hr).trans (ht r hr)⟩

theorem EditsOnly.refl (rid : Uuid) (o : Organization) : EditsOnly rid o o :=
  ⟨o.store.rolePermissions, rfl, fun _ _ => Iff.rfl⟩

theorem editsOnly_delete (rid : Uuid) (o : Organization) :
    EditsOnly rid o (o.setRolePermissions (·.filter fun _ r => r.roleId ≠ rid)) := by
  refine ⟨_, rfl, fun r hr => ?_⟩
  simp [Table.values, Table.filter, hr]

theorem editsOnly_upsert {q : PermissionId} {e : Effect} {sc : Scope} {id : Uuid}
    (hkeys : rolePermissionKeys o rid q e id = .ok ()) :
    EditsOnly rid o (upsertRolePermission o rid q e sc id) := by
  refine ⟨(upsertRolePermission o rid q e sc id).store.rolePermissions, rfl, fun r hr => ?_⟩
  have hmem := fun k => @mem_upsertRolePermission _ _ _ _ _ sc hkeys k r
  have hvalues : ∀ t : Table Uuid RolePermissionRow, r ∈ t.values ↔ ∃ k, (k, r) ∈ t.rows := by
    simp [Table.values]
  rw [hvalues, hvalues]
  cases hrow : o.rolePermission? rid q e with
  | some found =>
    simp only [hrow] at hmem
    have hfound := rolePermission?_eq_some hrow
    refine exists_congr fun k => ?_
    rw [hmem]
    constructor
    · rintro ⟨x, hx, rfl⟩
      split_ifs with hk
      · subst hk
        obtain rfl := Table.row_unique hx hfound.1
        simp [hfound.2.1] at hr
      · exact hx
    · intro hx
      refine ⟨r, hx, ?_⟩
      rw [if_neg]
      rintro rfl
      obtain rfl := Table.row_unique hx hfound.1
      exact hr hfound.2.1
  | none =>
    simp only [hrow] at hmem
    refine exists_congr fun k => ?_
    rw [hmem]
    refine ⟨?_, .inl⟩
    rintro (hx | ⟨rfl, rfl⟩)
    · exact hx
    · exact absurd rfl hr

theorem writeRolePermission_ok {x : RolePermissionInput × Uuid} {u : Unit}
    (h : (writeRolePermission rid x).run o = .ok (u, p)) : ∃ e, effectOfText x.1.effect = some e ∧
      rolePermissionKeys o rid x.1.permissionId e x.2 = .ok () ∧
      p = upsertRolePermission o rid x.1.permissionId e (scopeOf x.1.scope) x.2 := by
  unfold writeRolePermission at h
  split_ifs at h with hid
  · cases h
  · cases he : effectOfText x.1.effect with
    | none =>
      rw [he] at h
      cases h
    | some e =>
      simp only [he, Prog.run_execute_ok, Prod.mk.injEq] at h
      exact ⟨e, rfl, h.1, h.2.2⟩

/-- Writing the entries one after another: the last one for a permission stays. -/
theorem writeEach_ok {l : List (RolePermissionInput × Uuid)} {u : Unit}
    {f : PermissionId → Effect → Option Scope} (hf : RoleHolds o rid f)
    (h : (Prog.each (writeRolePermission rid) l).run o = .ok (u, p)) :
    RoleHolds p rid (fun q e => (lastScope q e (l.map Prod.fst)).or (f q e)) ∧ EditsOnly rid o p := by
  induction l generalizing o f with
  | nil =>
    cases h
    exact ⟨hf, .refl rid _⟩
  | cons x xs ih =>
    obtain ⟨_, o₁, hx, hrest⟩ := Prog.run_bind_ok.mp h
    obtain ⟨e, he, hkeys, rfl⟩ := writeRolePermission_ok hx
    obtain ⟨hholds, hedits⟩ := ih (hf.upsert hkeys) hrest
    refine ⟨?_, (editsOnly_upsert hkeys).trans hedits⟩
    have hnext : (fun q e' => (lastScope q e' ((x :: xs).map Prod.fst)).or (f q e')) = fun q e' =>
        (lastScope q e' (xs.map Prod.fst)).or
          (if x.1.permissionId = q ∧ e = e' then some (scopeOf x.1.scope) else f q e') := by
      funext q e'
      simp only [List.map_cons, lastScope, he, Option.some.injEq, Option.or_assoc]
      congr 1
      split_ifs <;> rfl
    rw [hnext]
    exact hholds

theorem writeRolePermissions_ok {permissions : List RolePermissionInput} {fresh : Nat → Uuid} {u : Unit}
    (h : (writeRolePermissions rid permissions fresh).run o = .ok (u, p)) :
    RoleHolds p rid (fun q e => lastScope q e permissions) ∧ EditsOnly rid o p := by
  simp only [writeRolePermissions, deleteRolePermissions, Prog.run_execute_bind_ok] at h
  obtain ⟨hholds, hedits⟩ := writeEach_ok (roleHolds_delete o rid) h.2
  have hinputs : (permissions.zipIdx.map fun x => (x.1, fresh x.2)).map Prod.fst = permissions := by
    simp [Function.comp_def]
  simp only [hinputs, Option.or_none] at hholds
  exact ⟨hholds, (editsOnly_delete rid o).trans hedits⟩

def withNewVersion (rid : Uuid) (m : MembershipRow) : MembershipRow :=
  if m.roleId = some rid ∧ m.revokedAt = none then { m with policyVersion := m.policyVersion + 1 } else m

theorem updateRole_ok [Formats] {ctx : RequestCtx} {roleId : String} {body : UpsertRoleRequest}
    {view : RoleView} (h : (updateRole ctx roleId body).run o = .ok (view, p)) :
    ∃ rid role q, parseRoleId roleId = .ok rid ∧ o.store.roles.find? rid = some role ∧
      (if role.systemKey = some "owner" then q = o
        else RoleHolds q rid (fun x e => lastScope x e body.permissions) ∧ EditsOnly rid o q) ∧
      p = { q.setStore (·.setMemberships (·.mapRows fun _ => withNewVersion rid)) with
        roleTexts := o.roleTexts.modify rid body.text } ∧ p.roleView rid = some view := by
  simp only [updateRole, Prog.run_ofExcept_bind_ok, Prog.run_query_bind, Prog.run_okOr_bind_ok,
    Prog.run_execute_bind_ok] at h
  obtain ⟨_, _, rid, hrid, role, hrole, _, h⟩ := h
  have hrest : ∀ v : Organization, (do bumpRoleMemberships rid; loadRoleView rid).run v = .ok (view, p) →
      p = v.setStore (·.setMemberships (·.mapRows fun _ => withNewVersion rid)) ∧ p.roleView rid = some view := by
    intro v hv
    simp only [bumpRoleMemberships, loadRoleView, Prog.run_execute_bind_ok, Prog.run_query_bind,
      Prog.run_okOr_ok] at hv
    obtain ⟨-, hview, rfl⟩ := hv
    exact ⟨rfl, hview⟩
  by_cases howner : role.systemKey = some "owner"
  · rw [if_neg (not_not_intro howner)] at h
    obtain ⟨rfl, hview⟩ := hrest _ h
    exact ⟨rid, role, o, hrid, hrole, by rw [if_pos howner], rfl, hview⟩
  · rw [if_pos howner] at h
    obtain ⟨_, v, hw, h⟩ := Prog.run_bind_ok.mp h
    obtain ⟨hholds, t, rfl, ht⟩ := writeRolePermissions_ok hw
    obtain ⟨rfl, hview⟩ := hrest _ h
    refine ⟨rid, role, o.setRolePermissions fun _ => t, hrid, hrole, ?_, rfl, hview⟩
    rw [if_neg howner]
    exact ⟨⟨hholds.scope, hholds.row, hholds.unconditional, hholds.once⟩, t, rfl, ht⟩

end

/-- An active member of the role, whom no team and no delegation grants anything. -/
def OnlyRole (s : Store) (now : Timestamp) (u rid : Uuid) (m : MembershipRow) : Prop :=
  activeMembership s u = .ok m ∧ m.roleId = some rid ∧ (∀ tid ∈ teamsOf s m, inheritStatements s tid = []) ∧
    delegationStatements s now m.id = []

section
variable [ConditionFormats] [TimeFormats] {p : Organization} {rid u : Uuid} {m : MembershipRow}
  {now : Timestamp} {q : PermissionId} {required : Scope} {ectx : EvaluationContext}
  {permissions : List RolePermissionInput}

/-- The decision about such a member comes from the rows of the role and its defaults. -/
theorem OnlyRole.allows_iff (hnone : ConditionFormats.fromValue (.array []) = some [])
    (hm : OnlyRole p.store now u rid m)
    (hf : RoleHolds p rid fun x e => lastScope x e permissions) (q : PermissionId) (required : Scope)
    (ectx : EvaluationContext) :
    (principalOf p.store now m).Allows q required ectx ↔
      ¬MapDenies permissions q ∧ (MapAllows permissions q required ∨ q ∈ m.role.defaultAllows) := by
  obtain ⟨-, hrole, hteams, hdelegations⟩ := hm
  have hdenies : RoleDenies p.store m q ↔ MapDenies permissions q := by
    unfold RoleDenies MapDenies
    rw [hrole]
    constructor
    · rintro ⟨r, hr, heffect, hperm⟩
      have hscope := hf.scope r hr
      rw [heffect, hperm] at hscope
      exact ⟨_, hscope⟩
    · rintro ⟨scope, hscope⟩
      obtain ⟨r, hr, hperm, heffect⟩ := hf.row q .deny (by rw [hscope, Option.isSome_some])
      exact ⟨r, hr, heffect, hperm⟩
  have hreaches : RoleReaches p.store m q required ↔ MapAllows permissions q required := by
    unfold RoleReaches MapAllows
    rw [hrole]
    constructor
    · rintro ⟨r, hr, heffect, hperm, hcovers⟩
      have hscope := hf.scope r hr
      change r.effect = .allow at heffect
      change r.permissionId = q at hperm
      rw [heffect, hperm] at hscope
      exact ⟨r.scope, hscope, hcovers⟩
    · rintro ⟨scope, hscope, hcovers⟩
      obtain ⟨r, hr, hperm, heffect⟩ := hf.row q .allow (by rw [hscope, Option.isSome_some])
      have hsame := hf.scope r hr
      rw [heffect, hperm, hscope, Option.some.injEq] at hsame
      rw [hsame] at hcovers
      exact ⟨r, hr, heffect, hperm, hcovers⟩
  have hgrants : RoleGrants p.store m q required ectx ↔ RoleReaches p.store m q required := by
    unfold RoleGrants RoleReaches
    refine exists_congr fun r => and_congr_right fun hr => and_iff_left ?_
    rw [hrole] at hr
    have hconditions : r.statement.conditions = [] := by
      simp only [RolePermissionRow.statement, hf.unconditional r hr, hnone, Option.getD_some]
    rw [hconditions, conditionsMatch_nil]
  have hteam : ¬TeamDenies p.store m q ∧ ¬TeamGrants p.store m q required := by
    constructor
    · rintro ⟨tid, htid, g, hg, -⟩
      rw [hteams tid htid] at hg
      cases hg
    · rintro ⟨tid, htid, g, hg, -⟩
      rw [hteams tid htid] at hg
      cases hg
  have hdelegated : ¬Delegated p.store now m q required := by
    rintro ⟨d, hd, -⟩
    rw [hdelegations] at hd
    cases hd
  rw [principalOf_allows, hgrants, hreaches, hdenies]
  simp only [hteam, hdelegated, not_false_eq_true, true_and, false_or]
  by_cases hallows : MapAllows permissions q required <;> simp [hallows]

/-- After an edit of a role that is not the owner's, a member of it is allowed what the request allows
and does not deny, unless the defaults of the role in the membership allow it although the request does
not mention it. -/
theorem role_edit_takes_effect_iff [Formats] (hnone : ConditionFormats.fromValue (.array []) = some [])
    {ctx : RequestCtx} {roleId : String} {body : UpsertRoleRequest} {o : Organization} {view : RoleView}
    {role : RoleRow} (hrun : (updateRole ctx roleId body).run o = .ok (view, p))
    (hrid : parseRoleId roleId = .ok rid) (hrole : o.store.roles.find? rid = some role)
    (howner : role.systemKey ≠ some "owner") (hm : OnlyRole p.store now u rid m) :
    (∃ principal version id, loadPrincipal p.store now u = .ok (principal, version, id) ∧
      (principal.Allows q required ectx ↔
        MapAllows body.permissions q required ∧ ¬MapDenies body.permissions q)) ↔
    q ∉ m.role.defaultAllows ∨ MapAllows body.permissions q required ∨ MapDenies body.permissions q := by
  obtain ⟨rid', role', v, hrid', hrole', hwritten, rfl, -⟩ := updateRole_ok hrun
  rw [hrid, Except.ok.injEq] at hrid'
  subst hrid'
  rw [hrole, Option.some.injEq] at hrole'
  subst hrole'
  rw [if_neg howner] at hwritten
  obtain ⟨⟨hscope, hrow, hunconditional, honce⟩, -⟩ := hwritten
  have hallows := hm.allows_iff hnone ⟨hscope, hrow, hunconditional, honce⟩ q required ectx
  generalize hp : Organization.mk _ _ _ _ _ = p at hm hallows ⊢
  have hload : loadPrincipal p.store now u = .ok (principalOf p.store now m, m.policyVersion, m.id) := by
    simp only [loadPrincipal, hm.1]
    rfl
  simp only [hload, Except.ok.injEq, Prod.mk.injEq]
  constructor
  · rintro ⟨_, _, _, ⟨rfl, rfl, rfl⟩, h⟩
    rw [hallows] at h
    tauto
  · intro h
    refine ⟨_, _, _, ⟨rfl, rfl, rfl⟩, ?_⟩
    rw [hallows]
    tauto

end

theorem ok_of_toOption {ε α : Type} {x : Except ε α} {a : α} (h : x.toOption = some a) : x = .ok a := by
  cases x with
  | error e => cases h
  | ok b =>
    cases h
    rfl

/-- The member, where `OnlyRole` holds of it. -/
def onlyRole? (s : Store) (now : Timestamp) (u rid : Uuid) : Option MembershipRow :=
  (activeMembership s u).toOption.filter fun m => m.roleId = some rid ∧
    (∀ tid ∈ teamsOf s m, inheritStatements s tid = []) ∧ delegationStatements s now m.id = []

theorem onlyRole_of_some {s : Store} {now : Timestamp} {u rid : Uuid} {m : MembershipRow}
    (h : onlyRole? s now u rid = some m) : OnlyRole s now u rid m := by
  obtain ⟨hm, hrest⟩ := Option.filter_eq_some_iff.mp h
  exact ⟨ok_of_toOption hm, by simpa using hrest⟩

/-- A role that the organisation made, with one member, who may read the dashboard. -/
def customRole [Formats] : Organization where
  store := { Store.empty with
    users := Table.empty.insert 1 ⟨"usr_1", "a@b.c", "A"⟩
    memberships := Table.empty.insert 1 ⟨101, "mem_1", .member, some 7, none, none, 1, .active, none, none⟩
    roles := Table.empty.insert 7 ⟨publicIdStr .role 7, none⟩
    rolePermissions := Table.empty.insert 20 ⟨7, "workspace.dashboard.read", .allow, .organization, .array []⟩ }
  roleTexts := Table.empty.insert 7 ⟨"Guests", "", false, none, none⟩
  permissionDefinitions := ["workspace.dashboard.read", "finance.invoice.read"]
  command := none
  entitlements := []

/-- The member keeps a permission that an edit takes away, when the defaults have it. -/
theorem role_edit_without_effect :
    letI := Finance.canonicalFormats
    letI := canonicalConditionFormats
    letI := canonicalTimeFormats
    ∃ (ctx : RequestCtx) (roleId : String) (body : UpsertRoleRequest) (o p : Organization) (view : RoleView)
      (rid u : Uuid) (role : RoleRow) (m : MembershipRow) (now : Timestamp) (q : PermissionId),
      (updateRole ctx roleId body).run o = .ok (view, p) ∧ parseRoleId roleId = .ok rid ∧
      o.store.roles.find? rid = some role ∧ role.systemKey ≠ some "owner" ∧ OnlyRole p.store now u rid m ∧
      (∃ principal version id, loadPrincipal p.store now u = .ok (principal, version, id) ∧
        isAllowed principal q = true) ∧ ¬MapAllows body.permissions q .organization := by
  let := Finance.canonicalFormats
  let := canonicalConditionFormats
  let := canonicalTimeFormats
  have hcheck : ∃ view p, (updateRole (.nth 1) (publicIdStr .role 7) ⟨"Guests", none, none, none, []⟩).run
      customRole = .ok (view, p) ∧ ((onlyRole? p.store 0 1 7).isSome &&
        (loadPrincipal p.store 0 1).toOption.any fun r => isAllowed r.1 "workspace.dashboard.read") = true :=
    Prog.run_of_check (by decide +kernel)
  obtain ⟨view, p, hrun, hchecked⟩ := hcheck
  rw [Bool.and_eq_true, Option.isSome_iff_exists, Option.any_eq_true] at hchecked
  obtain ⟨⟨m, hm⟩, ⟨principal, version, id⟩, hload, hallowed⟩ := hchecked
  refine ⟨_, _, _, _, p, view, 7, 1, ⟨publicIdStr .role 7, none⟩, m, 0, _, hrun,
    ok_of_toOption (by decide +kernel), rfl, by simp, onlyRole_of_some hm,
    ⟨principal, version, id, ok_of_toOption hload, hallowed⟩, ?_⟩
  rintro ⟨scope, hscope, -⟩
  cases hscope

def guestPermissions : List RolePermissionInput :=
  [⟨"finance.invoice.read", "allow", "organization"⟩, ⟨"workspace.dashboard.read", "deny", "own"⟩]

/-- The same role, with a permission of its own, and one that is denied. -/
theorem role_edit_takes_effect_guests :
    letI := Finance.canonicalFormats
    letI := canonicalConditionFormats
    letI := canonicalTimeFormats
    ∃ (view : RoleView) (p : Organization),
      (updateRole (.nth 1) (publicIdStr .role 7) ⟨"Guests", none, none, none, guestPermissions⟩).run
        customRole = .ok (view, p) ∧
      ∃ principal version id, loadPrincipal p.store 0 1 = .ok (principal, version, id) ∧
        (principal.Allows "finance.invoice.read" .organization .default ↔
          MapAllows guestPermissions "finance.invoice.read" .organization ∧
            ¬MapDenies guestPermissions "finance.invoice.read") := by
  let := Finance.canonicalFormats
  let := canonicalConditionFormats
  let := canonicalTimeFormats
  have hcheck : ∃ view p, (updateRole (.nth 1) (publicIdStr .role 7)
      ⟨"Guests", none, none, none, guestPermissions⟩).run customRole = .ok (view, p) ∧
      (onlyRole? p.store 0 1 7).isSome = true :=
    Prog.run_of_check (by decide +kernel)
  obtain ⟨view, p, hrun, hchecked⟩ := hcheck
  obtain ⟨m, hm⟩ := Option.isSome_iff_exists.mp hchecked
  have hrole : customRole.store.roles.find? 7 = some ⟨publicIdStr .role 7, none⟩ := rfl
  exact ⟨view, p, hrun, (role_edit_takes_effect_iff rfl hrun
    (ok_of_toOption (by decide +kernel)) hrole (by simp) (onlyRole_of_some hm)).mpr
      (.inr (.inl ⟨.organization, by decide +kernel, rfl⟩))⟩

end Noxara.Workspace
