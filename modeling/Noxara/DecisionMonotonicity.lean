import Noxara.AuthzDecisions

/-! How a decision moves when a statement or a role is added, or a smaller scope is asked for. -/
namespace Noxara.Authz.Principal

variable {self other : Principal} {p : PermissionId} {required narrower : Scope} {ctx : EvaluationContext}

/-- `other` has one more statement, wherever it stands. -/
structure AddsStatement (principal other : Principal) (new : Statement) : Prop where
  roles : other.roles = principal.roles
  statements : ∀ s, s ∈ other.statements ↔ s = new ∨ s ∈ principal.statements

/-- `other` has one more role. -/
structure AddsRole (principal other : Principal) (new : Role) : Prop where
  roles : ∀ r, r ∈ other.roles ↔ r = new ∨ r ∈ principal.roles
  statements : other.statements = principal.statements

theorem AddsStatement.denies {new : Statement} (h : AddsStatement self other new) :
    other.Denies p ↔ (new.effect = .deny ∧ new.permission = p) ∨ self.Denies p := by
  unfold Denies
  simp only [h.statements, or_and_right, exists_or, exists_eq_left]

theorem AddsStatement.roleAllows {new : Statement} (h : AddsStatement self other new) :
    other.RoleAllows p ↔ self.RoleAllows p := by
  unfold RoleAllows
  rw [h.roles]

section
variable [TimeFormats]

theorem AddsStatement.grants {new : Statement} (h : AddsStatement self other new) :
    other.Grants p required ctx ↔
      (new.Reaches p required ∧ conditionsMatch new.conditions ctx = true) ∨ self.Grants p required ctx := by
  unfold Grants
  simp only [h.statements, or_and_right, exists_or, exists_eq_left]

theorem AddsStatement.withholds {new : Statement} (h : AddsStatement self other new) :
    other.Withholds p required ctx ↔
      (new.Reaches p required ∧ conditionsMatch new.conditions ctx = false) ∨ self.Withholds p required ctx := by
  unfold Withholds
  simp only [h.statements, or_and_right, exists_or, exists_eq_left]

theorem not_allows_of_adds_deny {new : Statement} (h : AddsStatement self other new) (hnew : new.effect = .deny)
    (hself : ¬self.Allows p required ctx) : ¬other.Allows p required ctx := by
  have hreach : ¬new.Reaches p required := by
    rintro ⟨hallow, -⟩
    rw [hnew] at hallow
    cases hallow
  rw [allows_iff] at hself ⊢
  rw [h.denies, h.grants, h.withholds, h.roleAllows]
  rintro ⟨hdeny, haccess⟩
  refine hself ⟨fun hd => hdeny (.inr hd), haccess.imp ?_ ?_⟩
  · rintro (hn | hg)
    · exact absurd hn.1 hreach
    · exact hg
  · exact fun hrole => ⟨fun hw => hrole.1 (.inr hw), hrole.2⟩

theorem allows_of_adds_allow {new : Statement} (h : AddsStatement self other new) (hnew : new.effect = .allow)
    (hconditions : new.conditions = []) (hself : self.Allows p required ctx) : other.Allows p required ctx := by
  have hmet : conditionsMatch new.conditions ctx = true := by rw [hconditions, conditionsMatch_nil]
  rw [allows_iff] at hself ⊢
  rw [h.denies, h.grants, h.withholds, h.roleAllows]
  obtain ⟨hdeny, haccess⟩ := hself
  refine ⟨?_, haccess.imp .inr fun hrole => ⟨?_, hrole.2⟩⟩
  · rintro (hn | hd)
    · rw [hnew] at hn
      cases hn.1
    · exact hdeny hd
  · rintro (hn | hw)
    · rw [hmet] at hn
      cases hn.2
    · exact hrole.1 hw

theorem allows_of_adds_role {new : Role} (h : AddsRole self other new) (hself : self.Allows p required ctx) :
    other.Allows p required ctx := by
  have hrole : self.RoleAllows p → other.RoleAllows p :=
    fun ⟨r, hr, hp⟩ => ⟨r, (h.roles r).mpr (.inr hr), hp⟩
  rw [allows_iff] at hself ⊢
  unfold Denies Grants Withholds at *
  rw [h.statements]
  exact ⟨hself.1, hself.2.imp_right fun hw => ⟨hw.1, hrole hw.2⟩⟩

theorem grants_of_covers (hcovers : required.covers narrower = true) (h : self.Grants p required ctx) :
    self.Grants p narrower ctx := by
  obtain ⟨s, hs, ⟨heffect, hperm, hscope⟩, hmet⟩ := h
  exact ⟨s, hs, ⟨heffect, hperm, Scope.covers_trans hscope hcovers⟩, hmet⟩

/-- A role gives the permission at the scope, but at one that it covers only an allow reaches whose conditions
fail. -/
structure Shadowed (principal : Principal) (p : PermissionId) (required : Scope) (ctx : EvaluationContext) : Prop where
  notDenied : ¬principal.Denies p
  role : principal.RoleAllows p
  notWithheld : ¬principal.Withholds p required ctx
  narrower : ∃ narrower, required.covers narrower = true ∧ ¬principal.Grants p narrower ctx ∧
    principal.Withholds p narrower ctx

theorem covered_iff : (self.Allows p required ctx → ∀ narrower, required.covers narrower = true →
    self.Allows p narrower ctx) ↔ ¬self.Shadowed p required ctx := by
  constructor
  · rintro h ⟨hdeny, hrole, hwithheld, narrower, hcovers, hgrants, hfails⟩
    have hallows := h (allows_iff.mpr ⟨hdeny, .inr ⟨hwithheld, hrole⟩⟩) narrower hcovers
    rcases (allows_iff.mp hallows).2 with hg | ⟨hw, -⟩
    · exact hgrants hg
    · exact hw hfails
  · intro hshadow hallows narrower hcovers
    obtain ⟨hdeny, haccess⟩ := allows_iff.mp hallows
    rw [allows_iff]
    refine ⟨hdeny, ?_⟩
    by_cases hg : self.Grants p narrower ctx
    · exact .inl hg
    · rcases haccess with hgrants | ⟨hwithheld, hrole⟩
      · exact absurd (grants_of_covers hcovers hgrants) hg
      · exact .inr ⟨fun hfails => hshadow ⟨hdeny, hrole, hwithheld, narrower, hcovers, hg, hfails⟩, hrole⟩

/-- The decisions move as they should: denies only take away and win, unconditional allows and roles only give, and
what is allowed at a scope is allowed at those that it covers. -/
structure Monotone (principal : Principal) (p : PermissionId) (required : Scope) (ctx : EvaluationContext) : Prop where
  denyAdded : ∀ other new, AddsStatement principal other new → new.effect = .deny →
    ¬principal.Allows p required ctx →
    ¬other.Allows p required ctx
  denyWins : principal.Denies p → (decideWithContext principal p required ctx).decision = .deny
  allowAdded : ∀ other new, AddsStatement principal other new → new.effect = .allow → new.conditions = [] →
    principal.Allows p required ctx → other.Allows p required ctx
  roleAdded : ∀ other new, AddsRole principal other new → principal.Allows p required ctx →
    other.Allows p required ctx
  covered : principal.Allows p required ctx →
    ∀ narrower, required.covers narrower = true → principal.Allows p narrower ctx

theorem denied_of_denies (h : self.Denies p) : (decideWithContext self p required ctx).decision = .deny := by
  cases hdecision : (decideWithContext self p required ctx).decision with
  | deny => rfl
  | allow => exact absurd h (allows_iff.mp hdecision).1

/-- Exactly where no role default is shadowed by a narrower allow that fails. -/
theorem monotone_iff (self : Principal) (p : PermissionId) (required : Scope) (ctx : EvaluationContext) :
    self.Monotone p required ctx ↔ ¬self.Shadowed p required ctx := by
  rw [← covered_iff]
  refine ⟨Monotone.covered, fun hcovered => ?_⟩
  exact ⟨fun _ _ h => not_allows_of_adds_deny h, denied_of_denies, fun _ _ h => allows_of_adds_allow h,
    fun _ _ h => allows_of_adds_role h, hcovered⟩

end

/-- A member may read deals, and those of the team while they are open: a closed deal of the organisation is read,
but not a closed one of the team. -/
theorem monotone_fails :
    letI := canonicalTimeFormats
    ¬∀ (self : Principal) (p : PermissionId) (required : Scope) (ctx : EvaluationContext),
      self.Monotone p required ctx := by
  let := canonicalTimeFormats
  intro h
  have hcovered := (h ⟨[.member], [⟨.allow, "sales.deal.read", .team, [.recordState ["open"] []]⟩]⟩
    "sales.deal.read"
    .organization ⟨none, none, none, some "closed"⟩).covered
  exact absurd (hcovered (by decide +kernel) .team rfl) (by decide +kernel)

end Noxara.Authz.Principal
