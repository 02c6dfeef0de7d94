import Noxara.AuthzConditions
import Noxara.PermissionCatalogue

/-! The policy decision point: an explicit deny wins, then an explicit allow, then the default of
a role. A decision comes down to four facts about the principal, and with them restricting a
principal to scopes is compared with the principal itself. -/
namespace Noxara.Authz

inductive Scope
  | own | team | department | organization
  deriving DecidableEq

namespace Scope

def asStr : Scope → String
  | own => "own"
  | team => "team"
  | department => "department"
  | organization => "organization"

def parse (s : String) : Option Scope :=
  match s with
  | "own" => some own
  | "team" => some team
  | "department" => some department
  | "organization" => some organization
  | _ => none

def covers : Scope → Scope → Bool
  | organization, _ => true
  | department, required => required = department || required = team || required = own
  | team, required => required = team || required = own
  | own, required => required = own

theorem parse_asStr (s : Scope) : parse s.asStr = some s := by
  cases s <;> rfl

theorem covers_trans {a b c : Scope} (hab : a.covers b = true) (hbc : b.covers c = true) :
    a.covers c = true := by
  cases a <;> cases b <;> cases c <;> first | rfl | contradiction

@[simp] theorem organization_covers (s : Scope) : organization.covers s = true := by
  cases s <;> rfl

@[simp] theorem covers_own (s : Scope) : s.covers own = true := by
  cases s <;> rfl

@[simp] theorem covers_organization {s : Scope} : s.covers organization = true ↔ s = organization := by
  cases s <;> simp [covers]

end Scope

inductive Effect
  | allow | deny
  deriving DecidableEq

structure Statement where
  effect : Effect
  permission : PermissionId
  scope : Scope
  conditions : List AbacCondition
  deriving DecidableEq

def Statement.allow (permission : PermissionId) : Statement :=
  ⟨.allow, permission, .organization, []⟩

structure Principal where
  roles : List Role
  statements : List Statement

inductive Decision
  | allow | deny
  deriving DecidableEq

structure DecisionDetail where
  decision : Decision
  permission : PermissionId
  reason : String

section
variable [TimeFormats]

def decideWithContext (principal : Principal) (permission : PermissionId) (requiredScope : Scope)
    (ctx : EvaluationContext) : DecisionDetail :=
  -- an explicit deny wins at any scope and ignores conditions
  if principal.statements.any fun s => s.effect = .deny ∧ s.permission = permission then
    ⟨.deny, permission, "explicit_deny"⟩
  else if principal.statements.any fun s => s.effect = .allow ∧ s.permission = permission ∧
      s.scope.covers requiredScope ∧ conditionsMatch s.conditions ctx then
    ⟨.allow, permission, "explicit_allow"⟩
  -- an allow that failed on its conditions alone
  else if principal.statements.any fun s => s.effect = .allow ∧ s.permission = permission ∧
      s.scope.covers requiredScope ∧ s.conditions ≠ [] ∧ ¬conditionsMatch s.conditions ctx then
    ⟨.deny, permission, "abac_deny"⟩
  else if (requiredScope = .organization ∨ Scope.organization.covers requiredScope) ∧
      principal.roles.any fun role => permission ∈ role.defaultAllows then
    ⟨.allow, permission, "role_allow"⟩
  else ⟨.deny, permission, "default_deny"⟩

def decide (principal : Principal) (permission : PermissionId) : DecisionDetail :=
  decideWithContext principal permission .organization .default

def decideWithScope (principal : Principal) (permission : PermissionId) (requiredScope : Scope) :
    DecisionDetail :=
  decideWithContext principal permission requiredScope .default

def isAllowed (principal : Principal) (permission : PermissionId) : Bool :=
  (decide principal permission).decision = .allow

end

/-- A principal that only allows the given permissions, and no role defaults. -/
def Principal.fromPermissionIds (ids : List PermissionId) : Principal where
  roles := []
  statements := ids.map .allow

/-- Restrict the principal to what it allows now out of `scopes`. -/
def Principal.intersectScopes [TimeFormats] (self : Principal) (scopes : List PermissionId) :
    Principal :=
  .fromPermissionIds (scopes.filter (isAllowed self)).eraseDups

def Statement.Reaches (s : Statement) (p : PermissionId) (required : Scope) : Prop :=
  s.effect = .allow ∧ s.permission = p ∧ s.scope.covers required = true

namespace Principal

def Denies (self : Principal) (p : PermissionId) : Prop :=
  ∃ s ∈ self.statements, s.effect = .deny ∧ s.permission = p

def RoleAllows (self : Principal) (p : PermissionId) : Prop :=
  ∃ role ∈ self.roles, p ∈ role.defaultAllows

variable [TimeFormats]

def Grants (self : Principal) (p : PermissionId) (required : Scope) (ctx : EvaluationContext) : Prop :=
  ∃ s ∈ self.statements, s.Reaches p required ∧ conditionsMatch s.conditions ctx = true

/-- Some allow would reach, were its conditions met. -/
def Withholds (self : Principal) (p : PermissionId) (required : Scope) (ctx : EvaluationContext) :
    Prop :=
  ∃ s ∈ self.statements, s.Reaches p required ∧ conditionsMatch s.conditions ctx = false

def Allows (self : Principal) (p : PermissionId) (required : Scope) (ctx : EvaluationContext) : Prop :=
  (decideWithContext self p required ctx).decision = .allow

section
variable (self : Principal) (p : PermissionId) (required : Scope) (ctx : EvaluationContext)

instance (s : Statement) : Decidable (s.Reaches p required) := inferInstanceAs (Decidable (_ ∧ _))

instance : Decidable (self.Denies p) := inferInstanceAs (Decidable (∃ s ∈ self.statements, _))

instance : Decidable (self.RoleAllows p) := inferInstanceAs (Decidable (∃ role ∈ self.roles, _))

instance : Decidable (self.Grants p required ctx) :=
  inferInstanceAs (Decidable (∃ s ∈ self.statements, _))

instance : Decidable (self.Withholds p required ctx) :=
  inferInstanceAs (Decidable (∃ s ∈ self.statements, _))

instance : Decidable (self.Allows p required ctx) := inferInstanceAs (Decidable (_ = _))

end

variable {self : Principal} {p : PermissionId} {required : Scope} {ctx : EvaluationContext}

/-- A deny beats everything; a met condition beats a role; a role counts where no condition failed. -/
theorem allows_iff : self.Allows p required ctx ↔ ¬self.Denies p ∧
    (self.Grants p required ctx ∨ ¬self.Withholds p required ctx ∧ self.RoleAllows p) := by
  have hdeny : (self.statements.any fun s => s.effect = .deny ∧ s.permission = p) = true ↔
      self.Denies p := by simp [Denies]
  have hgrant : (self.statements.any fun s => s.effect = .allow ∧ s.permission = p ∧
      s.scope.covers required ∧ conditionsMatch s.conditions ctx) = true ↔
      self.Grants p required ctx := by simp [Grants, Statement.Reaches, and_assoc]
  have hwithhold : (self.statements.any fun s => s.effect = .allow ∧ s.permission = p ∧
      s.scope.covers required ∧ s.conditions ≠ [] ∧ ¬conditionsMatch s.conditions ctx) = true ↔
      self.Withholds p required ctx := by
    simp only [List.any_eq_true, decide_eq_true_eq, Withholds, Statement.Reaches, and_assoc,
      Bool.not_eq_true]
    refine exists_congr fun s => and_congr_right fun _ => and_congr_right fun _ =>
      and_congr_right fun _ => and_congr_right fun _ => and_iff_right_of_imp ?_
    -- no condition fails to be met when there is none
    rintro hfail hnil
    simp [hnil] at hfail
  have hrole : (self.roles.any fun role => p ∈ role.defaultAllows) = true ↔ self.RoleAllows p := by
    simp [RoleAllows]
  unfold Allows decideWithContext
  simp only [hdeny, hgrant, hwithhold, hrole, Scope.organization_covers, or_true, true_and]
  by_cases hd : self.Denies p
  · simp [hd]
  · by_cases hg : self.Grants p required ctx
    · simp [hd, hg]
    · by_cases hw : self.Withholds p required ctx
      · simp [hd, hg, hw]
      · by_cases hr : self.RoleAllows p <;> simp [hd, hg, hw, hr]

theorem isAllowed_iff : isAllowed self p = true ↔ self.Allows p .organization .default := by
  simp only [isAllowed, Allows, decide]
  exact decide_eq_true_iff

theorem grants_of_default (h : self.Grants p .organization .default) : self.Grants p required ctx := by
  obtain ⟨s, hs, ⟨heffect, hperm, hscope⟩, hcond⟩ := h
  rw [Scope.covers_organization] at hscope
  refine ⟨s, hs, ⟨heffect, hperm, ?_⟩, conditionsMatch_of_default hcond ctx⟩
  rw [hscope, Scope.organization_covers]

theorem fromPermissionIds_allows {ids : List PermissionId} :
    (fromPermissionIds ids).Allows p required ctx ↔ p ∈ ids := by
  have hgrants : (fromPermissionIds ids).Grants p required ctx ↔ p ∈ ids := by
    simp [Grants, Statement.Reaches, fromPermissionIds, Statement.allow]
  have hdenies : ¬(fromPermissionIds ids).Denies p := by
    simp [Denies, fromPermissionIds, Statement.allow]
  have hrole : ¬(fromPermissionIds ids).RoleAllows p := by
    simp [RoleAllows, fromPermissionIds]
  simp [allows_iff, hgrants, hdenies, hrole]

theorem intersectScopes_allows {scopes : List PermissionId} :
    (self.intersectScopes scopes).Allows p required ctx ↔
      p ∈ scopes ∧ self.Allows p .organization .default := by
  simp [intersectScopes, fromPermissionIds_allows, List.mem_eraseDups, isAllowed_iff]

/-- Only a role default gives the permission: no allow reaches with its conditions met, and one that
reaches below the whole organisation has conditions that fail. -/
structure OnlyByRole (principal : Principal) (p : PermissionId) (required : Scope)
    (ctx : EvaluationContext) : Prop where
  notDenied : ¬principal.Denies p
  role : principal.RoleAllows p
  notGranted : ¬principal.Grants p required ctx
  withheld : principal.Withholds p required ctx
  notWithheldAtOrganization : ¬principal.Withholds p .organization .default

/-- The restricted principal allows no more than the principal and the scopes do, except for a scope
that only a role default gives while a narrower allow fails on its conditions. -/
theorem intersectScopes_narrows_iff (self : Principal) (scopes : List PermissionId)
    (p : PermissionId) (required : Scope) (ctx : EvaluationContext) :
    ((self.intersectScopes scopes).Allows p required ctx →
      self.Allows p required ctx ∧ p ∈ scopes) ↔
    ¬(p ∈ scopes ∧ self.OnlyByRole p required ctx) := by
  rw [intersectScopes_allows]
  constructor
  · rintro h ⟨hscope, hrole⟩
    have hwide : self.Allows p .organization .default :=
      allows_iff.mpr ⟨hrole.notDenied, .inr ⟨hrole.notWithheldAtOrganization, hrole.role⟩⟩
    rcases (allows_iff.mp (h ⟨hscope, hwide⟩).1).2 with hg | ⟨hw, _⟩
    · exact hrole.notGranted hg
    · exact hw hrole.withheld
  · rintro h ⟨hscope, hwide⟩
    refine ⟨?_, hscope⟩
    obtain ⟨hdeny, hwide⟩ := allows_iff.mp hwide
    rw [allows_iff]
    refine ⟨hdeny, ?_⟩
    rcases hwide with hg | ⟨hw, hr⟩
    · exact .inl (grants_of_default hg)
    · by_contra hnot
      have hg : ¬self.Grants p required ctx := fun hg => hnot (.inl hg)
      have hfail : self.Withholds p required ctx := by
        by_contra hw'
        exact hnot (.inr ⟨hw', hr⟩)
      exact h ⟨hscope, hdeny, hr, hg, hfail, hw⟩

end Principal

/-- A member who may read the deals of the team while they are open: restricted to reading deals, the
principal reads those in any state. -/
theorem Principal.intersectScopes_widens :
    letI := canonicalTimeFormats
    ∃ (u : Principal) (scopes : List PermissionId) (p : PermissionId) (required : Scope)
      (ctx : EvaluationContext),
      (u.intersectScopes scopes).Allows p required ctx ∧ ¬u.Allows p required ctx := by
  let := canonicalTimeFormats
  refine ⟨⟨[.member], [⟨.allow, "sales.deal.read", .team, [.recordState ["open"] []]⟩]⟩,
    ["sales.deal.read"], "sales.deal.read", .team, { EvaluationContext.default with
      recordState := some "closed" }, ?_⟩
  decide +kernel

end Noxara.Authz
