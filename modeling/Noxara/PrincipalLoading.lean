import Noxara.WorkspaceStore

/-! The two loaders of a member's principal: the one of the core service, and the one the CRM keeps
beside it. Their decisions are compared in terms of the rows they read. -/
namespace Noxara.Workspace

open Authz
open Finance (Uuid Timestamp AppError)

/-- Reading the conditions of a grant from its JSON column. -/
class ConditionFormats where
  fromValue : Json → Option (List AbacCondition)

/-- Conditions on the state of a record, as `serde` writes them. -/
@[reducible] def canonicalConditionFormats : ConditionFormats where
  fromValue v :=
    let strings : Option Json → Option (List String)
      | some (.array items) => items.mapM Json.asStr
      | some _ => none
      | none => some []
    match v with
    | .array items => items.mapM fun c => do
      if (← (← c.get "type").asStr) ≠ "record_state" then none
      else return .recordState (← strings (c.get "allow")) (← strings (c.get "deny"))
    | _ => none

/-- The membership of a user that a principal may be loaded for. -/
def activeMembership (s : Store) (userId : Uuid) : Except AppError MembershipRow :=
  match s.liveMembership userId with
  | none => .error (unauthorized "membership not found")
  | some m => if m.status ≠ .active then .error (unauthorized "membership not active") else .ok m

theorem activeMembership_eq_ok {s : Store} {u : Uuid} {m : MembershipRow} : activeMembership s u = .ok m ↔
    s.memberships.find? u = some m ∧ m.revokedAt = none ∧ m.status = .active := by
  rw [← and_assoc, ← liveMembership_eq_some]
  unfold activeMembership
  cases s.liveMembership u with
  | none => simp
  | some r =>
    by_cases hact : r.status = .active
    · simp only [hact, ne_eq, not_true_eq_false, if_false, Except.ok.injEq, Option.some.injEq]
      constructor
      · rintro rfl
        exact ⟨rfl, hact⟩
      · exact fun h => h.1
    · simp only [hact, ne_eq, not_false_eq_true, if_true, Option.some.injEq, reduceCtorEq, false_iff]
      rintro ⟨rfl, h⟩
      exact hact h

def rolePermissionsOf (s : Store) (roleId : Option Uuid) : List RolePermissionRow :=
  match roleId with
  | none => []
  | some rid => s.rolePermissions.values.filter (·.roleId = rid)

/-- A scope column that names no scope stands for the whole organisation. -/
def scopeOf (text : String) : Scope := (Scope.parse text).getD .organization

/-- The teams from `cursor` up, each once; at most `n` of them. -/
def teamChain (teams : Table Uuid TeamRow) : Nat → List Uuid → Option Uuid → List Uuid
  | 0, _, _ => []
  | _ + 1, _, none => []
  | n + 1, visited, some tid =>
    if tid ∈ visited then []
    else tid :: teamChain teams n (tid :: visited) ((teams.find? tid).bind (·.parentTeamId))

/-- What a team grants its members and those of the teams below it. -/
def inheritStatements (s : Store) (tid : Uuid) : List Statement :=
  (s.inheritGrants.values.filter (·.teamId = tid)).map fun g =>
    ⟨g.effect, g.permissionId, scopeOf g.scope, []⟩

/-- A delegation that has neither been revoked nor expired. -/
def DelegationRow.Live (d : DelegationRow) (now : Timestamp) : Prop :=
  d.revokedAt = none ∧ now < d.expiresAt

instance (d : DelegationRow) (now : Timestamp) : Decidable (d.Live now) :=
  inferInstanceAs (Decidable (_ ∧ _))

def DelegationRow.statement (d : DelegationRow) : Statement :=
  ⟨.allow, d.permissionId, scopeOf d.scope, []⟩

def delegationStatements (s : Store) (now : Timestamp) (membershipId : Uuid) : List Statement :=
  (s.delegations.values.filter fun d => d.toMembershipId = membershipId ∧ d.Live now).map (·.statement)

/-- The teams whose grants a member has. -/
def teamsOf (s : Store) (m : MembershipRow) : List Uuid :=
  teamChain s.teams (s.teams.rows.length + 1) [] m.teamId

section
variable [ConditionFormats]

def RolePermissionRow.statement (r : RolePermissionRow) : Statement :=
  ⟨r.effect, r.permissionId, r.scope, (ConditionFormats.fromValue r.conditions).getD []⟩

def principalOf (s : Store) (now : Timestamp) (m : MembershipRow) : Principal where
  roles := [m.role]
  statements := (rolePermissionsOf s m.roleId).map (·.statement) ++
    (teamsOf s m).flatMap (inheritStatements s) ++ delegationStatements s now m.id

def loadPrincipal (s : Store) (now : Timestamp) (userId : Uuid) :
    Except AppError (Principal × Int × Uuid) := do
  let m ← activeMembership s userId
  return (principalOf s now m, m.policyVersion, m.id)

end

structure MembershipScope where
  principal : Principal
  policyVersion : Int
  membershipId : Uuid
  teamId : Option Uuid
  departmentId : Option Uuid

def crmPrincipalOf (s : Store) (m : MembershipRow) : Principal where
  roles := [m.role]
  statements := (rolePermissionsOf s m.roleId).map fun r => ⟨r.effect, r.permissionId, r.scope, []⟩

def loadMembershipScope (s : Store) (userId : Uuid) : Except AppError MembershipScope := do
  let m ← activeMembership s userId
  return ⟨crmPrincipalOf s m, m.policyVersion, m.id, m.teamId, m.departmentId⟩

/-- Teams that the walk has not been to yet. -/
private def unvisited (teams : Table Uuid TeamRow) (visited : List Uuid) : List Uuid :=
  teams.keys.filter (· ∉ visited)

private theorem unvisited_lt {teams : Table Uuid TeamRow} {visited : List Uuid} {tid : Uuid}
    (hteam : tid ∈ teams.keys) (hnew : tid ∉ visited) :
    (unvisited teams (tid :: visited)).length < (unvisited teams visited).length := by
  unfold unvisited
  rw [← List.countP_eq_length_filter, ← List.countP_eq_length_filter]
  have hsplit := List.countP_eq_countP_filter_add teams.keys (· ∉ visited) (· = tid)
  have hone : 0 < (teams.keys.filter (· = tid)).countP (· ∉ visited) := by
    rw [List.countP_pos_iff]
    exact ⟨tid, by simp [hteam], by simp [hnew]⟩
  have hrest : (teams.keys.filter fun k => !decide (k = tid)).countP (· ∉ visited) =
      teams.keys.countP (· ∉ tid :: visited) := by
    rw [List.countP_filter]
    congr 1
    ext k
    simp [Bool.and_comm]
  omega

/-- The walk ends on its own: a longer one goes no further. -/
theorem teamChain_stops (teams : Table Uuid TeamRow) {n k : Nat} {visited : List Uuid}
    {cursor : Option Uuid} (h : (unvisited teams visited).length < n) :
    teamChain teams (n + k) visited cursor = teamChain teams n visited cursor := by
  induction n generalizing visited cursor with
  | zero => omega
  | succ n ih =>
    rw [Nat.add_right_comm]
    cases cursor with
    | none => rfl
    | some tid =>
      by_cases hseen : tid ∈ visited
      · simp only [teamChain, if_pos hseen]
      simp only [teamChain, if_neg hseen]
      congr 1
      by_cases hteam : tid ∈ teams.keys
      · have hless := unvisited_lt hteam hseen
        exact ih (by omega)
      · -- a team that is not there leads nowhere
        have hnone : teams.find? tid = none := Table.find?_eq_none.mpr hteam
        rw [hnone, Option.bind_none]
        cases n <;> cases k <;> rfl

theorem teamsOf_eq (s : Store) (m : MembershipRow) (k : Nat) :
    teamChain s.teams (s.teams.rows.length + 1 + k) [] m.teamId = teamsOf s m := by
  refine teamChain_stops s.teams ?_
  have hle : (unvisited s.teams []).length ≤ s.teams.keys.length := List.length_filter_le _ _
  have hkeys : s.teams.keys.length = s.teams.rows.length := by simp [Table.keys]
  omega

end Noxara.Workspace
