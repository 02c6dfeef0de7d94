import Mathlib.Data.List.Induction
import Noxara.CrmRequests

/-! Lists and single rows of the CRM. A list takes one scope from the principal and filters by the owners of
the rows; a single row asks the decision point for the scope that its owner requires. -/
namespace Noxara.Workspace

open Authz
open Finance (Uuid AppError)

def scopeRank : Scope → Nat
  | .own => 0
  | .team => 1
  | .department => 2
  | .organization => 3

theorem covers_iff_rank {a b : Scope} : a.covers b = true ↔ scopeRank b ≤ scopeRank a := by
  cases a <;> cases b <;> simp [Scope.covers, scopeRank]

/-- The wider of the best scope so far and that of an allow for the permission. -/
def wider (p : PermissionId) (best : Option Scope) (st : Statement) : Option Scope :=
  if st.effect = .allow ∧ st.permission = p then
    match best with
    | some b => if scopeRank st.scope ≤ scopeRank b then some b else some st.scope
    | none => some st.scope
  else best

/-- The widest scope of the allows for a permission, or the organisation where there is none and a role has the
permission by default. -/
def scopeForPermission (principal : Principal) (p : PermissionId) : Scope :=
  match principal.statements.foldl (wider p) none with
  | some best => best
  | none => if principal.roles.any fun role => p ∈ role.defaultAllows then .organization else .own

/-- `SELECT user_id FROM membership WHERE .. AND revoked_at IS NULL`. -/
def membersWhere (s : Store) (among : MembershipRow → Bool) : List Uuid :=
  (s.memberships.rows.filter fun m => among m.2 && m.2.revokedAt.isNone).map Prod.fst

/-- The `WHERE` clause that a list adds for the owner of a row. -/
def pushOwnerPredicate (s : Store) (scope : Scope) (actor : Uuid) (team department owner : Option Uuid) : Bool :=
  match scope with
  | .organization => true
  | .own => owner = some actor
  | .team => owner = some actor ||
      team.any fun t => owner.any fun o => (membersWhere s fun m => m.teamId = some t).contains o
  | .department => owner = some actor ||
      department.any fun d => owner.any fun o => (membersWhere s fun m => m.departmentId = some d).contains o

section
variable [TimeFormats]

/-- The rows that a list shows to the caller. -/
def scopedList {ρ : Type} (s : Store) (auth : AuthCtx) (membership : MembershipScope) (p : PermissionId)
    (owner : ρ → Option Uuid) (rows : List ρ) : Except AppError (List ρ) := do
  enforceAnyScope membership.principal p
  let scope := scopeForPermission membership.principal p
  return rows.filter fun r =>
    pushOwnerPredicate s scope auth.userId membership.teamId membership.departmentId (owner r)

end

/-- The scope that was found covers every allow, and is that of one. -/
def IsWidest (sts : List Statement) (p : PermissionId) (best : Option Scope) : Prop :=
  (∀ st ∈ sts, st.effect = .allow → st.permission = p → ∃ b, best = some b ∧
    scopeRank st.scope ≤ scopeRank b) ∧
    ∀ b, best = some b → ∃ st ∈ sts, st.effect = .allow ∧ st.permission = p ∧ st.scope = b

theorem IsWidest.snoc {sts : List Statement} {p : PermissionId} {best : Option Scope} (h : IsWidest sts p best)
    (st : Statement) : IsWidest (sts ++ [st]) p (wider p best st) := by
  obtain ⟨hall, hone⟩ := h
  have hold : ∀ b, best = some b → ∃ x ∈ sts ++ [st], x.effect = .allow ∧ x.permission = p ∧
      x.scope = b := by
    intro b hb
    obtain ⟨x, hx, hrest⟩ := hone b hb
    exact ⟨x, List.mem_append_left _ hx, hrest⟩
  unfold wider
  split_ifs with hallow
  · have hnew : ∃ x ∈ sts ++ [st], x.effect = .allow ∧ x.permission = p ∧ x.scope = st.scope :=
      ⟨st, by simp, hallow.1, hallow.2, rfl⟩
    cases best with
    | none =>
      refine ⟨fun x hx he hp => ?_, fun b hb => ?_⟩
      · rcases List.mem_append.mp hx with hx | hx
        · obtain ⟨b, hb, -⟩ := hall x hx he hp
          cases hb
        · rw [List.mem_singleton.mp hx]
          exact ⟨st.scope, rfl, le_rfl⟩
      · cases hb
        exact hnew
    | some b =>
      dsimp only
      split_ifs with hrank
      · refine ⟨fun x hx he hp => ?_, hold⟩
        rcases List.mem_append.mp hx with hx | hx
        · exact hall x hx he hp
        · rw [List.mem_singleton.mp hx]
          exact ⟨b, rfl, hrank⟩
      · refine ⟨fun x hx he hp => ?_, fun c hc => ?_⟩
        · rcases List.mem_append.mp hx with hx | hx
          · obtain ⟨c, hc, hle⟩ := hall x hx he hp
            cases hc
            exact ⟨st.scope, rfl, by omega⟩
          · rw [List.mem_singleton.mp hx]
            exact ⟨st.scope, rfl, le_rfl⟩
        · cases hc
          exact hnew
  · refine ⟨fun x hx he hp => ?_, hold⟩
    rcases List.mem_append.mp hx with hx | hx
    · exact hall x hx he hp
    · rw [List.mem_singleton.mp hx] at he hp
      exact absurd ⟨he, hp⟩ hallow

theorem isWidest_foldl (sts : List Statement) (p : PermissionId) : IsWidest sts p (sts.foldl (wider p) none) := by
  induction sts using List.reverseRecOn with
  | nil => simp [IsWidest]
  | append_singleton sts st ih =>
    rw [List.foldl_append]
    exact ih.snoc st

/-- Where an allow is there, the scope of a list covers what some allow covers, and is that of an allow. -/
theorem scopeForPermission_spec {principal : Principal} {p : PermissionId}
    (h : ∃ st ∈ principal.statements, st.effect = .allow ∧ st.permission = p) :
    (∀ st ∈ principal.statements, st.effect = .allow → st.permission = p →
      scopeRank st.scope ≤ scopeRank (scopeForPermission principal p)) ∧
    ∃ st ∈ principal.statements, st.effect = .allow ∧ st.permission = p ∧
      st.scope = scopeForPermission principal p := by
  obtain ⟨hall, hone⟩ := isWidest_foldl principal.statements p
  obtain ⟨x, hx, hallow, hperm⟩ := h
  obtain ⟨best, hbest, -⟩ := hall x hx hallow hperm
  have hscope : scopeForPermission principal p = best := by
    unfold scopeForPermission
    rw [hbest]
  rw [hscope]
  refine ⟨fun st hst he hp => ?_, hone best hbest⟩
  obtain ⟨b, hb, hle⟩ := hall st hst he hp
  cases hbest.symm.trans hb
  exact hle

theorem scopeForPermission_role {principal : Principal} {p : PermissionId}
    (h : ∀ st ∈ principal.statements, st.effect = .allow → st.permission ≠ p) (hrole : principal.RoleAllows p) :
    scopeForPermission principal p = .organization := by
  obtain ⟨-, hone⟩ := isWidest_foldl principal.statements p
  have hnone : principal.statements.foldl (wider p) none = none := by
    cases hbest : principal.statements.foldl (wider p) none with
    | none => rfl
    | some b =>
      obtain ⟨st, hst, he, hp, -⟩ := hone b hbest
      exact absurd hp (h st hst he)
  have hany : (principal.roles.any fun role => p ∈ role.defaultAllows) = true := by
    obtain ⟨role, hmem, hallow⟩ := hrole
    exact List.any_eq_true.mpr ⟨role, hmem, decide_eq_true hallow⟩
  unfold scopeForPermission
  rw [hnone]
  exact if_pos hany

theorem mem_membersWhere {s : Store} {among : MembershipRow → Bool} {o : Uuid} :
    o ∈ membersWhere s among ↔ ∃ m, s.liveMembership o = some m ∧ among m = true := by
  simp only [membersWhere, List.mem_map, List.mem_filter, Bool.and_eq_true, Option.isNone_iff_eq_none,
    liveMembership_eq_some, Table.find?_eq_some]
  constructor
  · rintro ⟨⟨k, m⟩, ⟨hm, hamong, hlive⟩, rfl⟩
    exact ⟨m, ⟨hm, hlive⟩, hamong⟩
  · rintro ⟨m, ⟨hm, hlive⟩, hamong⟩
    exact ⟨(o, m), ⟨hm, hamong, hlive⟩, rfl⟩

theorem contains_teamMembers {s : Store} {t o : Uuid} :
    (membersWhere s fun m => m.teamId = some t).contains o = true ↔ (ownerMembershipScope s o).1 = some t := by
  rw [List.contains_iff_mem, mem_membersWhere]
  unfold ownerMembershipScope
  cases s.liveMembership o with
  | none => simp
  | some m => simp

theorem contains_departmentMembers {s : Store} {d o : Uuid} :
    (membersWhere s fun m => m.departmentId = some d).contains o = true ↔
      (ownerMembershipScope s o).2 = some d := by
  rw [List.contains_iff_mem, mem_membersWhere]
  unfold ownerMembershipScope
  cases s.liveMembership o with
  | none => simp
  | some m => simp

def InDepartment (s : Store) (department owner : Option Uuid) : Prop :=
  ∃ d o, department = some d ∧ owner = some o ∧ (ownerMembershipScope s o).2 = some d

/-- The owner of the row is in the team. -/
def InTeam (s : Store) (team owner : Option Uuid) : Prop :=
  ∃ t o, team = some t ∧ owner = some o ∧ (ownerMembershipScope s o).1 = some t

theorem inTeam_some_iff {s : Store} {team : Option Uuid} {o : Uuid} :
    InTeam s team (some o) ↔ team.isSome ∧ team = (ownerMembershipScope s o).1 := by
  cases team with
  | none => simp [InTeam]
  | some t => simp [InTeam, eq_comm]

theorem inDepartment_some_iff {s : Store} {department : Option Uuid} {o : Uuid} :
    InDepartment s department (some o) ↔ department.isSome ∧ department = (ownerMembershipScope s o).2 := by
  cases department with
  | none => simp [InDepartment]
  | some d => simp [InDepartment, eq_comm]

/-- The scope that a row asks for, by where its owner stands. -/
theorem requiredScopeForOwnerRow_some (s : Store) {actor o : Uuid} (team department : Option Uuid) (hown : o ≠ actor)
    [Decidable (InTeam s team (some o))] [Decidable (InDepartment s department (some o))] :
    requiredScopeForOwnerRow s actor team department (some o) =
      if InTeam s team (some o) then .team
      else if InDepartment s department (some o) then .department else .organization := by
  simp [requiredScopeForOwnerRow, requiredScopeForOwner, hown, inTeam_some_iff, inDepartment_some_iff]

/-- A list by department leaves out the rows of the caller's team whose owner is not in the department. -/
def LeftOut (s : Store) (scope required : Scope) (department owner : Option Uuid) : Prop :=
  scope = .department ∧ required = .team ∧ ¬InDepartment s department owner

theorem pushOwnerPredicate_iff {s : Store} {scope : Scope} {actor : Uuid} {team department owner : Option Uuid} :
    pushOwnerPredicate s scope actor team department owner = true ↔
      scope.covers (requiredScopeForOwnerRow s actor team department owner) = true ∧
        ¬LeftOut s scope (requiredScopeForOwnerRow s actor team department owner) department owner := by
  cases owner with
  | none => cases scope <;> simp [pushOwnerPredicate, requiredScopeForOwnerRow, Scope.covers, LeftOut]
  | some o =>
    by_cases hown : o = actor
    · subst hown
      cases scope <;> simp [pushOwnerPredicate, requiredScopeForOwnerRow, Scope.covers, LeftOut]
    · classical
      have hrequired := requiredScopeForOwnerRow_some s team department hown
      have hteam : (team.any fun t => (membersWhere s fun m => m.teamId = some t).contains o) = true ↔
          InTeam s team (some o) := by
        rw [inTeam_some_iff]
        cases team with
        | none => simp
        | some t => simpa using contains_teamMembers.trans eq_comm
      have hdepartment :
          (department.any fun d => (membersWhere s fun m => m.departmentId = some d).contains o) = true ↔
            InDepartment s department (some o) := by
        rw [inDepartment_some_iff]
        cases department with
        | none => simp
        | some d => simpa using contains_departmentMembers.trans eq_comm
      rw [hrequired]
      cases scope with
      | own =>
        simp only [pushOwnerPredicate, LeftOut]
        split_ifs <;> simp [Scope.covers, hown]
      | team =>
        simp only [pushOwnerPredicate, LeftOut, Bool.or_eq_true, Option.any_some, hteam]
        split_ifs with ht hd
        · exact iff_of_true (.inr ht) ⟨rfl, fun h => by cases h.1⟩
        · exact iff_of_false (by simp [hown, ht]) (by simp [Scope.covers])
        · exact iff_of_false (by simp [hown, ht]) (by simp [Scope.covers])
      | department =>
        simp only [pushOwnerPredicate, LeftOut, Bool.or_eq_true, Option.any_some, hdepartment]
        split_ifs with ht hd
        · simp [Scope.covers, hown]
        · exact iff_of_true (.inr hd) ⟨rfl, fun h => by cases h.2.1⟩
        · exact iff_of_false (by simp [hown, hd]) (by simp [Scope.covers])
      | organization =>
        simp only [pushOwnerPredicate, LeftOut]
        split_ifs <;> simp [Scope.covers]

section
variable [TimeFormats]

theorem enforceScoped_ok {principal : Principal} {p : PermissionId} {required : Scope} :
    enforceScoped principal p required = .ok () ↔ principal.Allows p required .default := by
  unfold enforceScoped
  split_ifs with h
  · exact iff_of_true rfl h
  · exact iff_of_false (by simp) h

theorem mem_scopedList {ρ : Type} {s : Store} {auth : AuthCtx} {membership : MembershipScope} {p : PermissionId}
    {owner : ρ → Option Uuid} {rows : List ρ} {r : ρ} :
    (∃ out, scopedList s auth membership p owner rows = .ok out ∧ r ∈ out) ↔
      membership.principal.Allows p .own .default ∧ r ∈ rows ∧
        pushOwnerPredicate s (scopeForPermission membership.principal p) auth.userId membership.teamId
          membership.departmentId (owner r) = true := by
  have hgate : enforceAnyScope membership.principal p = .ok () ↔ membership.principal.Allows p .own .default :=
    enforceScoped_ok
  unfold scopedList
  rw [← hgate]
  cases enforceAnyScope membership.principal p with
  | error e => simp [bind, Except.bind]
  | ok u => simp [bind, Except.bind, pure, Except.pure]

theorem check_row_ok {s : Store} {auth : AuthCtx} {membership : MembershipScope} {p : PermissionId}
    {what : String} {owner : Option Uuid} :
    (Check.row what).run s auth membership p (some owner) = .ok () ↔
      membership.principal.Allows p .own .default ∧ membership.principal.Allows p
        (requiredScopeForOwnerRow s auth.userId membership.teamId membership.departmentId owner) .default := by
  rw [← enforceScoped_ok, ← enforceScoped_ok]
  change (enforceAnyScope membership.principal p >>= fun _ => _) = _ ↔ enforceAnyScope _ _ = _ ∧ _
  cases enforceAnyScope membership.principal p with
  | error e => simp [bind, Except.bind]
  | ok u => simp [bind, Except.bind]

omit [TimeFormats] in
theorem not_reaches {principal : Principal} {p : PermissionId} {required : Scope}
    (hbeyond : (scopeForPermission principal p).covers required = false) {st : Statement}
    (hst : st ∈ principal.statements) : ¬st.Reaches p required := by
  rintro ⟨he, hp, hcovers⟩
  obtain ⟨hall, -⟩ := scopeForPermission_spec ⟨st, hst, he, hp⟩
  have hle := hall st hst he hp
  have hreach := covers_iff_rank.mp hcovers
  have hcover : (scopeForPermission principal p).covers required = true :=
    covers_iff_rank.mpr (hreach.trans hle)
  rw [hbeyond] at hcover
  cases hcover

/-- Where no allow is in force, the list and the single row go by the roles alone. -/
theorem allows_without_grants {principal : Principal} {p : PermissionId} (hown : ¬principal.Grants p .own .default)
    (hallows : principal.Allows p .own .default) (required : Scope) :
    scopeForPermission principal p = .organization ∧ principal.Allows p required .default := by
  obtain ⟨hdeny, hallows⟩ := Principal.allows_iff.mp hallows
  obtain ⟨hwithheld, hrole⟩ := hallows.resolve_left hown
  have hnone : ∀ st ∈ principal.statements, st.effect = .allow → st.permission ≠ p := by
    intro st hst he hp
    have hreach : st.Reaches p .own := ⟨he, hp, Scope.covers_own _⟩
    cases hc : conditionsMatch st.conditions .default with
    | true => exact hown ⟨st, hst, hreach, hc⟩
    | false => exact hwithheld ⟨st, hst, hreach, hc⟩
  refine ⟨scopeForPermission_role hnone hrole, Principal.allows_iff.mpr ⟨hdeny, .inr ⟨?_, hrole⟩⟩⟩
  rintro ⟨st, hst, ⟨he, hp, -⟩, -⟩
  exact hnone st hst he hp

theorem allows_within {principal : Principal} {p : PermissionId} {required : Scope} (hdeny : ¬principal.Denies p)
    (hown : principal.Grants p .own .default) (hwithin : (scopeForPermission principal p).covers required = true) :
    principal.Allows p required .default ↔ principal.Grants p required .default := by
  obtain ⟨st, hst, ⟨he, hp, -⟩, -⟩ := hown
  obtain ⟨-, x, hx, hxe, hxp, hxscope⟩ := scopeForPermission_spec ⟨st, hst, he, hp⟩
  rw [Principal.allows_iff]
  refine ⟨fun h => ?_, fun h => ⟨hdeny, .inl h⟩⟩
  -- The widest allow reaches the row: it grants or withholds.
  have hreach : x.Reaches p required := ⟨hxe, hxp, by rw [hxscope]; exact hwithin⟩
  rcases h.2 with hgrants | ⟨hwithheld, -⟩
  · exact hgrants
  · cases hc : conditionsMatch x.conditions .default with
    | true => exact ⟨x, hx, hreach, hc⟩
    | false => exact absurd ⟨x, hx, hreach, hc⟩ hwithheld

theorem allows_beyond {principal : Principal} {p : PermissionId} {required : Scope} (hdeny : ¬principal.Denies p)
    (hbeyond : (scopeForPermission principal p).covers required = false) :
    principal.Allows p required .default ↔ principal.RoleAllows p := by
  have hgrants : ¬principal.Grants p required .default := fun ⟨_, hst, hreach, _⟩ => not_reaches hbeyond hst hreach
  have hwithholds : ¬principal.Withholds p required .default :=
    fun ⟨_, hst, hreach, _⟩ => not_reaches hbeyond hst hreach
  simp [Principal.allows_iff, hdeny, hgrants, hwithholds]

omit [TimeFormats] in
theorem required_eq_team_iff {s : Store} {actor : Uuid} {team department owner : Option Uuid} :
    requiredScopeForOwnerRow s actor team department owner = .team ↔ owner ≠ some actor ∧
      InTeam s team owner := by
  cases owner with
  | none => simp [requiredScopeForOwnerRow, InTeam]
  | some o =>
    by_cases hown : o = actor
    · simp [requiredScopeForOwnerRow, hown]
    · classical
      rw [requiredScopeForOwnerRow_some _ _ _ hown]
      split_ifs with hteam <;> simp [hown, hteam]

/-- The rows of a scope: the caller's own are in each, and each has those of the scopes below it. -/
def InScope (s : Store) (auth : AuthCtx) (membership : MembershipScope) (owner : Option Uuid) : Scope → Prop
  | .own => owner = some auth.userId
  | .team => owner = some auth.userId ∨ InTeam s membership.teamId owner
  | .department => owner = some auth.userId ∨ InTeam s membership.teamId owner ∨
      InDepartment s membership.departmentId owner
  | .organization => True

omit [TimeFormats] in
theorem covers_required_iff {s : Store} {auth : AuthCtx} {membership : MembershipScope} {owner : Option Uuid}
    {scope : Scope} :
    scope.covers (requiredScopeForOwnerRow s auth.userId membership.teamId membership.departmentId owner) = true ↔
      InScope s auth membership owner scope := by
  cases owner with
  | none => cases scope <;> simp [requiredScopeForOwnerRow, Scope.covers, InScope, InTeam, InDepartment]
  | some o =>
    by_cases hown : o = auth.userId
    · cases scope <;> simp [requiredScopeForOwnerRow, Scope.covers, InScope, hown]
    · classical
      rw [requiredScopeForOwnerRow_some _ _ _ hown]
      split_ifs with hteam hdepartment
      · cases scope <;> simp [Scope.covers, InScope, hown, hteam]
      · cases scope <;> simp [Scope.covers, InScope, hown, hteam, hdepartment]
      · cases scope <;> simp [Scope.covers, InScope, hown, hteam, hdepartment]

/-- An allow for the permission that has the row in its scope, whatever its conditions. -/
def Concerns (s : Store) (auth : AuthCtx) (membership : MembershipScope) (p : PermissionId) (owner : Option Uuid)
    (st : Statement) : Prop :=
  st ∈ membership.principal.statements ∧ st.effect = .allow ∧ st.permission = p ∧
    InScope s auth membership owner st.scope

/-- The widest allow is one for the department, and the owner another member of the caller's team, outside it. -/
structure PassedOver (s : Store) (auth : AuthCtx) (membership : MembershipScope) (p : PermissionId)
    (owner : Option Uuid) : Prop where
  department : ∃ st ∈ membership.principal.statements, st.effect = .allow ∧ st.permission = p ∧
    st.scope = .department
  widest : ∀ st ∈ membership.principal.statements, st.effect = .allow → st.permission = p →
    st.scope ≠ .organization
  other : owner ≠ some auth.userId
  team : InTeam s membership.teamId owner
  outside : ¬InDepartment s membership.departmentId owner

/-- What a list and a single row make of the same row. The principal is denied the permission, or no allow of it is
in force; or some allow has the row in its scope, and the list passes it over just when none of these is in force; or
none has, and no role has the permission by default. -/
def ListsAsShown (s : Store) (auth : AuthCtx) (membership : MembershipScope) (p : PermissionId)
    (owner : Option Uuid) : Prop :=
  membership.principal.Denies p ∨ ¬membership.principal.Grants p .own .default ∨
    ((∃ st, Concerns s auth membership p owner st) ∧ (PassedOver s auth membership p owner ↔
      ¬∃ st, Concerns s auth membership p owner st ∧ conditionsMatch st.conditions .default = true)) ∨
    (¬∃ st, Concerns s auth membership p owner st) ∧ ¬membership.principal.RoleAllows p

section
variable {s : Store} {auth : AuthCtx} {membership : MembershipScope} {p : PermissionId} {owner : Option Uuid}

theorem concerns_grants_iff :
    (∃ st, Concerns s auth membership p owner st ∧ conditionsMatch st.conditions .default = true) ↔
      membership.principal.Grants p
        (requiredScopeForOwnerRow s auth.userId membership.teamId membership.departmentId owner) .default := by
  simp only [Concerns, Principal.Grants, Statement.Reaches, covers_required_iff, and_assoc]

omit [TimeFormats] in
theorem concerns_iff (h : ∃ st ∈ membership.principal.statements, st.effect = .allow ∧ st.permission = p) :
    (∃ st, Concerns s auth membership p owner st) ↔ (scopeForPermission membership.principal p).covers
      (requiredScopeForOwnerRow s auth.userId membership.teamId membership.departmentId owner) = true := by
  constructor
  · rintro ⟨st, hst, he, hp, hscope⟩
    by_contra hbeyond
    exact not_reaches (Bool.eq_false_iff.mpr hbeyond) hst ⟨he, hp, covers_required_iff.mpr hscope⟩
  · intro hcovers
    obtain ⟨-, st, hst, he, hp, hwidest⟩ := scopeForPermission_spec h
    exact ⟨st, hst, he, hp, covers_required_iff.mp (hwidest ▸ hcovers)⟩

omit [TimeFormats] in
theorem scopeForPermission_eq_department_iff {principal : Principal}
    (h : ∃ st ∈ principal.statements, st.effect = .allow ∧ st.permission = p) :
    scopeForPermission principal p = .department ↔
      (∃ st ∈ principal.statements, st.effect = .allow ∧ st.permission = p ∧ st.scope = .department) ∧
        ∀ st ∈ principal.statements, st.effect = .allow → st.permission = p → st.scope ≠ .organization := by
  obtain ⟨hall, x, hx, he, hp, hwidest⟩ := scopeForPermission_spec h
  constructor
  · intro hscope
    refine ⟨⟨x, hx, he, hp, hwidest.trans hscope⟩, fun st hst hste hstp horg => ?_⟩
    have hle := hall st hst hste hstp
    rw [horg, hscope] at hle
    exact absurd hle (by decide)
  · rintro ⟨⟨st, hst, hste, hstp, hdept⟩, hnone⟩
    have hle := hall st hst hste hstp
    have hnot := hnone x hx he hp
    rw [hdept] at hle
    rw [hwidest] at hnot
    cases hscope : scopeForPermission principal p with
    | own | team => exact absurd (hscope ▸ hle) (by decide)
    | department => rfl
    | organization => exact absurd hscope hnot

omit [TimeFormats] in
theorem passedOver_iff (h : ∃ st ∈ membership.principal.statements, st.effect = .allow ∧ st.permission = p) :
    PassedOver s auth membership p owner ↔ LeftOut s (scopeForPermission membership.principal p)
      (requiredScopeForOwnerRow s auth.userId membership.teamId membership.departmentId owner)
      membership.departmentId owner := by
  unfold LeftOut
  rw [scopeForPermission_eq_department_iff h, required_eq_team_iff]
  constructor
  · rintro ⟨hdepartment, hwidest, hother, hteam, houtside⟩
    exact ⟨⟨hdepartment, hwidest⟩, ⟨hother, hteam⟩, houtside⟩
  · rintro ⟨⟨hdepartment, hwidest⟩, ⟨hother, hteam⟩, houtside⟩
    exact ⟨hdepartment, hwidest, hother, hteam, houtside⟩

end

/-- A list shows a row just when the single row is shown, if and only if `ListsAsShown`. -/
theorem list_shows_as_row_iff {ρ : Type} {s : Store} {auth : AuthCtx} {membership : MembershipScope}
    {p : PermissionId} {what : String} {owner : ρ → Option Uuid} {rows : List ρ} {r : ρ} (hr : r ∈ rows) :
    ((∃ out, scopedList s auth membership p owner rows = .ok out ∧ r ∈ out) ↔
      (Check.row what).run s auth membership p (some (owner r)) = .ok ()) ↔
    ListsAsShown s auth membership p (owner r) := by
  rw [mem_scopedList, check_row_ok, pushOwnerPredicate_iff]
  unfold ListsAsShown
  by_cases hdeny : membership.principal.Denies p
  · have hno : ∀ scope, ¬membership.principal.Allows p scope .default := fun scope h =>
      (Principal.allows_iff.mp h).1 hdeny
    simp [hdeny, hno]
  by_cases hown : membership.principal.Grants p .own .default
  · have hgate : membership.principal.Allows p .own .default := Principal.allows_iff.mpr ⟨hdeny, .inl hown⟩
    have hallow : ∃ st ∈ membership.principal.statements, st.effect = .allow ∧ st.permission = p := by
      obtain ⟨st, hst, ⟨he, hp, -⟩, -⟩ := hown
      exact ⟨st, hst, he, hp⟩
    rw [concerns_iff hallow, concerns_grants_iff, passedOver_iff hallow]
    generalize requiredScopeForOwnerRow s auth.userId membership.teamId membership.departmentId (owner r) = required
    cases hcovers : (scopeForPermission membership.principal p).covers required with
    | true =>
      have hdecision := allows_within hdeny hown hcovers
      simp only [hgate, hr, hdeny, hown, hdecision, true_and, not_true_eq_false, false_or, false_and, or_false]
      tauto
    | false =>
      have hdecision := allows_beyond hdeny hcovers
      simp [hgate, hdeny, hown, hdecision]
  · by_cases hgate : membership.principal.Allows p .own .default
    · obtain ⟨hscope, hallows⟩ := allows_without_grants hown hgate
        (requiredScopeForOwnerRow s auth.userId membership.teamId membership.departmentId (owner r))
      simp [hgate, hr, hown, hscope, hallows, LeftOut]
    · simp [hgate, hown]

end

/-- Two sales people; the first has a role that lets him read his own deals. -/
def twoSellers : Store := { Store.empty with
  memberships := (Table.empty.insert 7 ⟨70, "mem_a", .sales, some 5, none, none, 1, .active, none, none⟩).insert 8
    ⟨80, "mem_b", .sales, none, none, none, 1, .active, none, none⟩
  rolePermissions := Table.empty.insert 6 ⟨5, "sales.deal.read", .allow, .own, .null⟩ }

def firstSeller : AuthCtx := ⟨7, 70, 1, none, none⟩

def firstMembership : MembershipScope :=
  ⟨⟨[.sales], [⟨.allow, "sales.deal.read", .own, []⟩]⟩, 1, 70, none, none⟩

/-- He reads his own deal, and so he finds it in the list. -/
theorem list_shows_as_row_own :
    letI := canonicalTimeFormats
    (Check.row "deal").run twoSellers firstSeller firstMembership "sales.deal.read" (some (some 7)) = .ok () ∧
    ∃ out, scopedList twoSellers firstSeller firstMembership "sales.deal.read" (fun o => o) [some 7] = .ok out ∧
      some 7 ∈ out := by
  let := canonicalTimeFormats
  have hagree := @list_shows_as_row_iff _ (Option Uuid) twoSellers firstSeller firstMembership "sales.deal.read"
    "deal" (fun o => o) [some 7] (some 7) List.mem_cons_self
  have hshown : (Check.row "deal").run twoSellers firstSeller firstMembership "sales.deal.read" (some (some 7)) =
      .ok () := by decide +kernel
  have hconcerns : Concerns twoSellers firstSeller firstMembership "sales.deal.read" (some 7)
      ⟨.allow, "sales.deal.read", .own, []⟩ := ⟨List.mem_cons_self, rfl, rfl, rfl⟩
  refine ⟨hshown, (hagree.mpr (.inr (.inr (.inl ⟨⟨_, hconcerns⟩, ?_⟩)))).mpr hshown⟩
  exact iff_of_false (fun h => h.other rfl) (not_not_intro ⟨_, hconcerns, rfl⟩)

/-- The deal of the other one is not in the list, while it may be read. -/
theorem list_hides_what_row_shows :
    letI := canonicalTimeFormats
    loadMembershipScope twoSellers 7 = .ok firstMembership ∧
    scopedList twoSellers firstSeller firstMembership "sales.deal.read" (fun o => o) [some 8] = .ok [] ∧
    (Check.row "deal").run twoSellers firstSeller firstMembership "sales.deal.read" (some (some 8)) = .ok () := by
  let := canonicalTimeFormats
  refine ⟨rfl, ?_, ?_⟩
  · decide +kernel
  · decide +kernel

end Noxara.Workspace
