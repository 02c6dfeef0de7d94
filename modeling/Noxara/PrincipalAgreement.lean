import Noxara.PrincipalLoading

/-! The decisions on the principals of the two loaders. The CRM reads the rows of a member's role
without their conditions, and neither the grants of the teams nor the delegations; the decisions are
compared row by row. -/
namespace Noxara.Workspace

open Authz
open Finance (Uuid Timestamp)

section
variable [ConditionFormats] [TimeFormats]
variable (s : Store) (now : Timestamp) (m : MembershipRow) (p : PermissionId) (required : Scope)
  (ctx : EvaluationContext)

def RoleDenies : Prop := ∃ r ∈ rolePermissionsOf s m.roleId, r.effect = .deny ∧ r.permissionId = p

/-- A row of the role allows the permission in reach of the scope, on whatever conditions. -/
def RoleReaches : Prop :=
  ∃ r ∈ rolePermissionsOf s m.roleId, r.statement.Reaches p required

def RoleGrants : Prop :=
  ∃ r ∈ rolePermissionsOf s m.roleId, r.statement.Reaches p required ∧
    conditionsMatch r.statement.conditions ctx = true

def TeamDenies : Prop :=
  ∃ tid ∈ teamsOf s m, ∃ g ∈ inheritStatements s tid, g.effect = .deny ∧ g.permission = p

def TeamGrants : Prop :=
  ∃ tid ∈ teamsOf s m, ∃ g ∈ inheritStatements s tid, g.Reaches p required

def Delegated : Prop := ∃ d ∈ delegationStatements s now m.id, d.Reaches p required

instance : Decidable (RoleDenies s m p) :=
  inferInstanceAs (Decidable (∃ r ∈ rolePermissionsOf s m.roleId, _))

instance : Decidable (RoleReaches s m p required) :=
  inferInstanceAs (Decidable (∃ r ∈ rolePermissionsOf s m.roleId, _))

instance : Decidable (RoleGrants s m p required ctx) :=
  inferInstanceAs (Decidable (∃ r ∈ rolePermissionsOf s m.roleId, _))

instance : Decidable (TeamDenies s m p) := inferInstanceAs (Decidable (∃ tid ∈ teamsOf s m, _))

instance : Decidable (TeamGrants s m p required) :=
  inferInstanceAs (Decidable (∃ tid ∈ teamsOf s m, _))

instance : Decidable (Delegated s now m p required) :=
  inferInstanceAs (Decidable (∃ d ∈ delegationStatements s now m.id, _))

variable {s now m p required ctx}

omit [ConditionFormats] [TimeFormats] in
theorem conditions_of_inherit {tid : Uuid} {g : Statement} (h : g ∈ inheritStatements s tid) :
    g.conditions = [] := by
  obtain ⟨row, _, rfl⟩ := List.mem_map.mp h
  rfl

omit [ConditionFormats] [TimeFormats] in
theorem of_delegation {membershipId : Uuid} {d : Statement}
    (h : d ∈ delegationStatements s now membershipId) : d.effect = .allow ∧ d.conditions = [] := by
  obtain ⟨row, _, rfl⟩ := List.mem_map.mp h
  exact ⟨rfl, rfl⟩

omit [TimeFormats] in
theorem principalOf_denies :
    (principalOf s now m).Denies p ↔ RoleDenies s m p ∨ TeamDenies s m p := by
  simp only [Principal.Denies, principalOf, List.mem_append, List.mem_map, List.mem_flatMap]
  constructor
  · rintro ⟨x, (⟨r, hr, rfl⟩ | ⟨tid, htid, hx⟩) | hx, hdeny, hperm⟩
    · exact .inl ⟨r, hr, hdeny, hperm⟩
    · exact .inr ⟨tid, htid, x, hx, hdeny, hperm⟩
    · rw [(of_delegation hx).1] at hdeny
      cases hdeny
  · rintro (⟨r, hr, h⟩ | ⟨tid, htid, x, hx, h⟩)
    · exact ⟨r.statement, .inl (.inl ⟨r, hr, rfl⟩), h⟩
    · exact ⟨x, .inl (.inr ⟨tid, htid, hx⟩), h⟩

theorem principalOf_grants : (principalOf s now m).Grants p required ctx ↔
    RoleGrants s m p required ctx ∨ TeamGrants s m p required ∨ Delegated s now m p required := by
  simp only [Principal.Grants, principalOf, List.mem_append, List.mem_map, List.mem_flatMap]
  constructor
  · rintro ⟨x, (⟨r, hr, rfl⟩ | ⟨tid, htid, hx⟩) | hx, hreach, hmet⟩
    · exact .inl ⟨r, hr, hreach, hmet⟩
    · exact .inr (.inl ⟨tid, htid, x, hx, hreach⟩)
    · exact .inr (.inr ⟨x, hx, hreach⟩)
  · rintro (⟨r, hr, h⟩ | ⟨tid, htid, x, hx, h⟩ | ⟨x, hx, h⟩)
    · exact ⟨r.statement, .inl (.inl ⟨r, hr, rfl⟩), h⟩
    · refine ⟨x, .inl (.inr ⟨tid, htid, hx⟩), h, ?_⟩
      rw [conditions_of_inherit hx, conditionsMatch_nil]
    · refine ⟨x, .inr hx, h, ?_⟩
      rw [(of_delegation hx).2, conditionsMatch_nil]

/-- Only the rows of a role carry conditions that can fail. -/
theorem reaches_of_withholds (h : (principalOf s now m).Withholds p required ctx) :
    RoleReaches s m p required := by
  simp only [Principal.Withholds, principalOf, List.mem_append, List.mem_map, List.mem_flatMap] at h
  obtain ⟨x, (⟨r, hr, rfl⟩ | ⟨tid, htid, hx⟩) | hx, hreach, hfail⟩ := h
  · exact ⟨r, hr, hreach⟩
  · rw [conditions_of_inherit hx, conditionsMatch_nil] at hfail
    cases hfail
  · rw [(of_delegation hx).2, conditionsMatch_nil] at hfail
    cases hfail

theorem withholds_of_reaches (h : RoleReaches s m p required) (hnot : ¬RoleGrants s m p required ctx) :
    (principalOf s now m).Withholds p required ctx := by
  obtain ⟨r, hr, hreach⟩ := h
  have hfail : conditionsMatch r.statement.conditions ctx = false := by
    by_contra hmet
    exact hnot ⟨r, hr, hreach, by simpa using hmet⟩
  refine ⟨r.statement, ?_, hreach, hfail⟩
  simp only [principalOf, List.mem_append, List.mem_map]
  exact .inl (.inl ⟨r, hr, rfl⟩)

omit [TimeFormats] in
theorem principalOf_roleAllows : (principalOf s now m).RoleAllows p ↔ p ∈ m.role.defaultAllows := by
  simp [Principal.RoleAllows, principalOf]

/-- The core decision in terms of the rows. -/
theorem principalOf_allows : (principalOf s now m).Allows p required ctx ↔
    ¬RoleDenies s m p ∧ ¬TeamDenies s m p ∧
      (RoleGrants s m p required ctx ∨ TeamGrants s m p required ∨ Delegated s now m p required ∨
        ¬RoleReaches s m p required ∧ p ∈ m.role.defaultAllows) := by
  rw [Principal.allows_iff, principalOf_denies, principalOf_grants, principalOf_roleAllows]
  constructor
  · rintro ⟨hdeny, hallow⟩
    rw [not_or] at hdeny
    refine ⟨hdeny.1, hdeny.2, ?_⟩
    rcases hallow with (hr | ht | hd) | ⟨hw, hdefault⟩
    · exact .inl hr
    · exact .inr (.inl ht)
    · exact .inr (.inr (.inl hd))
    · by_cases hreach : RoleReaches s m p required
      · left
        by_contra hnot
        exact hw (withholds_of_reaches hreach hnot)
      · exact .inr (.inr (.inr ⟨hreach, hdefault⟩))
  · rintro ⟨hrole, hteam, hallow⟩
    refine ⟨not_or.mpr ⟨hrole, hteam⟩, ?_⟩
    rcases hallow with hr | ht | hd | ⟨hreach, hdefault⟩
    · exact .inl (.inl hr)
    · exact .inl (.inr (.inl ht))
    · exact .inl (.inr (.inr hd))
    · exact .inr ⟨fun hw => hreach (reaches_of_withholds hw), hdefault⟩

/-- The decision of the CRM in terms of the rows. -/
theorem crmPrincipalOf_allows : (crmPrincipalOf s m).Allows p required ctx ↔
    ¬RoleDenies s m p ∧ (RoleReaches s m p required ∨ p ∈ m.role.defaultAllows) := by
  have hdeny : (crmPrincipalOf s m).Denies p ↔ RoleDenies s m p := by
    simp [Principal.Denies, crmPrincipalOf, RoleDenies]
  have hgrant : (crmPrincipalOf s m).Grants p required ctx ↔ RoleReaches s m p required := by
    simp [Principal.Grants, crmPrincipalOf, RoleReaches, Statement.Reaches, RolePermissionRow.statement]
  have hwithhold : ¬(crmPrincipalOf s m).Withholds p required ctx := by
    simp [Principal.Withholds, crmPrincipalOf]
  have hrole : (crmPrincipalOf s m).RoleAllows p ↔ p ∈ m.role.defaultAllows := by
    simp [Principal.RoleAllows, crmPrincipalOf]
  rw [Principal.allows_iff, hdeny, hgrant, hrole]
  simp [hwithhold]

end

section
variable [ConditionFormats] [TimeFormats]

/-- The decision the core service comes to for a user, if it loads one at all. -/
def coreDecision (s : Store) (now : Timestamp) (userId : Uuid) (p : PermissionId) (required : Scope)
    (ctx : EvaluationContext) : Except Finance.AppError Decision :=
  (loadPrincipal s now userId).map fun loaded => (decideWithContext loaded.1 p required ctx).decision

def crmDecision (s : Store) (userId : Uuid) (p : PermissionId) (required : Scope)
    (ctx : EvaluationContext) : Except Finance.AppError Decision :=
  (loadMembershipScope s userId).map fun loaded =>
    (decideWithContext loaded.principal p required ctx).decision

/-- The ways in which the rows of a member are read differently, where no row of the role denies. -/
inductive ReadsApart (s : Store) (now : Timestamp) (m : MembershipRow) (p : PermissionId)
    (required : Scope) (ctx : EvaluationContext) : Prop
  /-- A team denies what the role allows. -/
  | deniedByTeam (hdeny : TeamDenies s m p)
      (hallow : RoleReaches s m p required ∨ p ∈ m.role.defaultAllows)
  /-- The role allows on conditions that fail, and nothing else does. -/
  | unmet (hdeny : ¬TeamDenies s m p) (hreach : RoleReaches s m p required)
      (hmet : ¬RoleGrants s m p required ctx) (hteam : ¬TeamGrants s m p required)
      (hdel : ¬Delegated s now m p required)
  /-- Only a team or a delegation allows. -/
  | allowedBeside (hdeny : ¬TeamDenies s m p) (hreach : ¬RoleReaches s m p required)
      (hdefault : p ∉ m.role.defaultAllows)
      (hallow : TeamGrants s m p required ∨ Delegated s now m p required)

variable {s : Store} {now : Timestamp} {m : MembershipRow} {p : PermissionId} {required : Scope}
  {ctx : EvaluationContext}

theorem reaches_of_grants (h : RoleGrants s m p required ctx) : RoleReaches s m p required := by
  obtain ⟨r, hr, hreach, _⟩ := h
  exact ⟨r, hr, hreach⟩

theorem allows_iff_allows : ((principalOf s now m).Allows p required ctx ↔
      (crmPrincipalOf s m).Allows p required ctx) ↔
    (RoleDenies s m p ∨ ¬ReadsApart s now m p required ctx) := by
  rw [principalOf_allows, crmPrincipalOf_allows]
  constructor
  · intro h
    by_cases hdeny : RoleDenies s m p
    · exact .inl hdeny
    right
    simp only [hdeny, not_false_eq_true, true_and] at h
    rintro (⟨hteam, hallow⟩ | ⟨hteam, hreach, hmet, hgrant, hdel⟩ | ⟨hteam, hreach, hdefault, hallow⟩)
    · exact (h.mpr hallow).1 hteam
    · rcases (h.mpr (.inl hreach)).2 with hr | ht | hd | ⟨hnot, _⟩
      · exact hmet hr
      · exact hgrant ht
      · exact hdel hd
      · exact hnot hreach
    · have hcore : (RoleGrants s m p required ctx ∨ TeamGrants s m p required ∨
          Delegated s now m p required ∨ ¬RoleReaches s m p required ∧ p ∈ m.role.defaultAllows) := by
        rcases hallow with ht | hd
        · exact .inr (.inl ht)
        · exact .inr (.inr (.inl hd))
      rcases h.mp ⟨hteam, hcore⟩ with hr | hd
      · exact hreach hr
      · exact hdefault hd
  · intro h
    by_cases hdeny : RoleDenies s m p
    · simp [hdeny]
    have hsame := h.resolve_left hdeny
    simp only [hdeny, not_false_eq_true, true_and]
    by_cases hteam : TeamDenies s m p
    · have hnot : ¬(RoleReaches s m p required ∨ p ∈ m.role.defaultAllows) := fun hallow =>
        hsame (.deniedByTeam hteam hallow)
      simp [hteam, hnot]
    · simp only [hteam, not_false_eq_true, true_and]
      constructor
      · rintro (hr | hallow)
        · exact .inl (reaches_of_grants hr)
        by_contra hnot
        rw [not_or] at hnot
        refine hsame (.allowedBeside hteam hnot.1 hnot.2 ?_)
        rcases hallow with ht | hd | ⟨_, hdefault⟩
        · exact .inl ht
        · exact .inr hd
        · exact absurd hdefault hnot.2
      · intro hallow
        by_cases hreach : RoleReaches s m p required
        · by_contra hnot
          simp only [not_or] at hnot
          exact hsame (.unmet hteam hreach hnot.1 hnot.2.1 hnot.2.2.1)
        · have hdefault := hallow.resolve_left hreach
          exact .inr (.inr (.inr ⟨hreach, hdefault⟩))

/-- The two services come to the same decision exactly where a row of the role denies, or the rows of
the member are not read apart. -/
theorem coreDecision_eq_crmDecision_iff (s : Store) (now : Timestamp) (userId : Uuid)
    (p : PermissionId) (required : Scope) (ctx : EvaluationContext) :
    coreDecision s now userId p required ctx = crmDecision s userId p required ctx ↔
      ∀ m, activeMembership s userId = .ok m →
        RoleDenies s m p ∨ ¬ReadsApart s now m p required ctx := by
  unfold coreDecision crmDecision loadPrincipal loadMembershipScope
  cases hm : activeMembership s userId with
  | error e => simp [Except.map, bind, Except.bind]
  | ok m =>
    have hdec : ∀ a b : Decision, a = b ↔ (a = .allow ↔ b = .allow) := by
      intro a b
      cases a <;> cases b <;> simp
    simp only [Except.map, bind, Except.bind, pure, Except.pure, Except.ok.injEq, forall_eq']
    rw [hdec]
    exact allows_iff_allows

end

/-- A member whose team is denied what the role has by default: the core service denies it, the CRM
does not. -/
theorem crmDecision_differs :
    letI := canonicalConditionFormats
    letI := canonicalTimeFormats
    ∃ (s : Store) (now : Timestamp) (userId : Uuid) (p : PermissionId) (required : Scope)
      (ctx : EvaluationContext), (∃ m, activeMembership s userId = .ok m) ∧
      coreDecision s now userId p required ctx ≠ crmDecision s userId p required ctx := by
  let := canonicalConditionFormats
  let := canonicalTimeFormats
  let m : MembershipRow := ⟨11, "mem_1", .member, none, some 5, none, 1, .active, none, none⟩
  let s : Store := { Store.empty with
    memberships := Table.empty.insert 1 m
    teams := Table.empty.insert 5 ⟨"team_5", none⟩
    inheritGrants := Table.empty.insert 7 ⟨5, "sales.deal.read", .deny, "organization"⟩ }
  refine ⟨s, 0, 1, "sales.deal.read", .organization, .default, ⟨m, by rfl⟩, ?_⟩
  decide +kernel

end Noxara.Workspace
