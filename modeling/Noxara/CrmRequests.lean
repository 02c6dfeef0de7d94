import Noxara.PrincipalAgreement

/-! The permission checks of the CRM. Each handler loads the caller's principal its own way, checks one
permission, and where the request names a row, checks it again against the owner of the row. -/
namespace Noxara.Workspace

open Authz
open Finance (Uuid AppError notFound)

/-- The caller of a request: a user by a session, or an API key that acts for one. -/
structure AuthCtx where
  userId : Uuid
  membershipId : Uuid
  policyVersion : Int
  apiKeyScopes : Option (List PermissionId)
  apiKeyId : Option String

def forbidden (detail : String) : AppError := ⟨.forbidden, detail⟩

/-- The membership scope, for an API key restricted to the scopes of its token. -/
def loadMembershipScopeFor (s : Store) (auth : AuthCtx) : Except AppError MembershipScope := do
  let scope ← loadMembershipScope s auth.userId
  match auth.apiKeyScopes with
  | some scopes => return { scope with principal := .fromPermissionIds scopes }
  | none => return scope

section
variable [TimeFormats]

def enforce (principal : Principal) (p : PermissionId) : Except AppError Unit :=
  if (decide principal p).decision = .allow then .ok () else .error (forbidden s!"missing permission {p}")

def enforceScoped (principal : Principal) (p : PermissionId) (required : Scope) : Except AppError Unit :=
  if (decideWithScope principal p required).decision = .allow then .ok ()
  else .error (forbidden s!"missing permission {p} at scope {required.asStr}")

/-- Is the permission allowed at all, for at least the caller's own rows? -/
def enforceAnyScope (principal : Principal) (p : PermissionId) : Except AppError Unit :=
  enforceScoped principal p .own

end

def ownerMembershipScope (s : Store) (owner : Uuid) : Option Uuid × Option Uuid :=
  match s.liveMembership owner with
  | some m => (m.teamId, m.departmentId)
  | none => (none, none)

/-- The scope that a row asks of the caller: own, team, department or organisation. -/
def requiredScopeForOwner (actor : Uuid) (owner actorTeam ownerTeam actorDepartment ownerDepartment :
    Option Uuid) : Scope :=
  if owner = some actor then .own
  else if actorTeam.isSome ∧ actorTeam = ownerTeam then .team
  else if actorDepartment.isSome ∧ actorDepartment = ownerDepartment then .department
  else .organization

def requiredScopeForOwnerRow (s : Store) (actor : Uuid) (actorTeam actorDepartment owner : Option Uuid) :
    Scope :=
  match owner with
  | none => .organization
  | some o =>
    if o = actor then .own
    else
      let (ownerTeam, ownerDepartment) := ownerMembershipScope s o
      requiredScopeForOwner actor (some o) actorTeam ownerTeam actorDepartment ownerDepartment

inductive CrmHandler
  | listLeads | createLead | getLead | updateLead | qualifyLead | disqualifyLead | convertLead
  | listDeals | createDeal | getDeal | updateDeal | winDeal | loseDeal
  | listQuotes | createQuote | getQuote | updateQuote | sendQuote | approvalComplete | approvalReject
  | acceptQuote | rejectQuote
  | previewCustomers | confirmCustomers
  deriving DecidableEq

/-- Which loader a handler picks. -/
inductive Loader
  | membershipScope | membershipScopeFor
  deriving DecidableEq

/-- The first check, for rows of whatever owner or for the whole organisation; and whether the row that
the request names is checked too. -/
inductive Check
  | coarse | row (what : String) | organization
  deriving DecidableEq

structure Gate where
  loader : Loader
  permission : PermissionId
  check : Check

namespace CrmHandler

def gate : CrmHandler → Gate
  | listLeads => ⟨.membershipScope, "sales.lead.read", .coarse⟩
  | createLead => ⟨.membershipScope, "sales.lead.create", .coarse⟩
  | getLead => ⟨.membershipScope, "sales.lead.read", .row "lead"⟩
  | updateLead | qualifyLead | disqualifyLead => ⟨.membershipScope, "sales.lead.update", .row "lead"⟩
  | convertLead => ⟨.membershipScope, "sales.lead.convert", .row "lead"⟩
  | listDeals => ⟨.membershipScopeFor, "sales.deal.read", .coarse⟩
  | createDeal => ⟨.membershipScopeFor, "sales.deal.create", .coarse⟩
  | getDeal => ⟨.membershipScopeFor, "sales.deal.read", .row "deal"⟩
  | updateDeal => ⟨.membershipScopeFor, "sales.deal.update", .row "deal"⟩
  | winDeal => ⟨.membershipScopeFor, "sales.deal.win", .row "deal"⟩
  | loseDeal => ⟨.membershipScopeFor, "sales.deal.lose", .row "deal"⟩
  | listQuotes => ⟨.membershipScopeFor, "sales.quote.read", .coarse⟩
  | createQuote => ⟨.membershipScopeFor, "sales.quote.create", .coarse⟩
  | getQuote => ⟨.membershipScopeFor, "sales.quote.read", .row "quote"⟩
  | updateQuote | sendQuote | rejectQuote => ⟨.membershipScopeFor, "sales.quote.update", .row "quote"⟩
  | approvalComplete | approvalReject => ⟨.membershipScopeFor, "sales.quote.update", .coarse⟩
  | acceptQuote => ⟨.membershipScopeFor, "sales.quote.accept", .row "quote"⟩
  | previewCustomers | confirmCustomers => ⟨.membershipScope, "sales.import.create", .organization⟩

/-- The handler restricts an API key to its scopes. -/
def Restricts (h : CrmHandler) : Prop := h.gate.loader = .membershipScopeFor

instance (h : CrmHandler) : Decidable h.Restricts := inferInstanceAs (Decidable (_ = _))

end CrmHandler

section
variable [TimeFormats]

def Check.run (check : Check) (s : Store) (auth : AuthCtx) (membership : MembershipScope)
    (p : PermissionId) (row : Option (Option Uuid)) : Except AppError Unit :=
  match check with
  | .organization => enforce membership.principal p
  | .coarse => enforceAnyScope membership.principal p
  | .row what => do
    enforceAnyScope membership.principal p
    match row with
    | none => .error (notFound what)
    | some owner =>
      enforceScoped membership.principal p
        (requiredScopeForOwnerRow s auth.userId membership.teamId membership.departmentId owner)

/-- The permission check of a request. `row` is the owner of the row it names, if there is such a row. -/
def CrmHandler.authorize (h : CrmHandler) (s : Store) (auth : AuthCtx) (row : Option (Option Uuid)) :
    Except AppError Unit := do
  let membership ← match h.gate.loader with
    | .membershipScope => loadMembershipScope s auth.userId
    | .membershipScopeFor => loadMembershipScopeFor s auth
  h.gate.check.run s auth membership h.gate.permission row

theorem Check.allows_of_run {check : Check} {s : Store} {auth : AuthCtx} {membership : MembershipScope}
    {p : PermissionId} {row : Option (Option Uuid)} (h : check.run s auth membership p row = .ok ()) :
    ∃ required, membership.principal.Allows p required .default := by
  have hscoped : ∀ required, enforceScoped membership.principal p required = .ok () →
      membership.principal.Allows p required .default := by
    intro required hr
    by_contra hnot
    have hno : ¬(decideWithScope membership.principal p required).decision = .allow := hnot
    rw [enforceScoped, if_neg hno] at hr
    cases hr
  cases check with
  | organization =>
    refine ⟨.organization, ?_⟩
    by_contra hnot
    have hno : ¬(decide membership.principal p).decision = .allow := hnot
    rw [run, enforce, if_neg hno] at h
    cases h
  | coarse => exact ⟨.own, hscoped .own h⟩
  | row what =>
    refine ⟨.own, hscoped .own ?_⟩
    cases hany : enforceAnyScope membership.principal p with
    | ok u => exact hany
    | error e =>
      simp only [run, hany] at h
      cases h

end

end Noxara.Workspace
