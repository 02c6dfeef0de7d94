import Noxara.ApprovalStatements

/-! Policies: they are versioned, and a published definition never changes. -/
namespace Noxara.Approvals

open Transaction
open Finance (Uuid PublicId Formats parsePublicId foundOr notFound validation internal databaseError
  uniqueViolation)

structure CreatePolicyRequest where
  name : String
  subjectType : String
  definition : PolicyDefinition

structure UpdatePolicyRequest where
  name : Option String := none
  isActive : Option Bool := none
  definition : Option PolicyDefinition := none

/-- The subjects the policy table admits. -/
def subjectTypes : List String :=
  ["expense", "quote_discount", "generic", "leave_request", "payroll_run", "purchase_request",
    "timesheet"]

/-- The definition of a policy whose current version cannot be read. -/
def PolicyDefinition.fallback : PolicyDefinition := { mode := .any, steps := [] }

def PolicyRow.dto (definition : PolicyDefinition) (p : PolicyRow) : ApprovalPolicyDto where
  id := p.publicId
  name := p.name
  subjectType := p.subjectType
  isActive := p.isActive
  currentVersion := p.currentVersion
  definition
  createdAt := p.createdAt
  updatedAt := p.updatedAt

def answerPolicy (status : Nat) (policyId : Uuid) : Tx Response := do
  let row ← Prog.query (·.policies.find? policyId)
  let row ← Prog.ofExcept (foundOr row (notFound "policy"))
  let version ← Prog.query (·.policyVersions.find? (policyId, row.currentVersion))
  pure (.policy status (row.dto ((version.map (·.definition)).getD .fallback)))

def insertPolicyRow (id : Uuid) (row : PolicyRow) : Tx Unit :=
  Prog.execute (fun _ => [.policy id])
    (fun v =>
      if row.subjectType ∉ subjectTypes then
        .error (databaseError "new row for relation \"operations_approval_policy\" violates check constraint \"operations_approval_policy_subject_type_check\"")
      else if (v.policies.find? id).isSome then .error (uniqueViolation "operations_approval_policy_pkey")
      else .ok ())
    fun _ db => { db with policies := db.policies.insert id row }

def insertPolicyVersion (policyId : Uuid) (version : Int) (row : PolicyVersionRow) : Tx Unit :=
  Prog.execute (fun _ => [.policyVersion policyId version])
    (fun v =>
      if (v.policyVersions.find? (policyId, version)).isSome then
        .error (uniqueViolation "operations_approval_policy_version_org_id_policy_id_version_key")
      else .ok ())
    fun _ db => { db with policyVersions := db.policyVersions.insert (policyId, version) row }

def updatePolicyRow (id : Uuid) (f : PolicyRow → PolicyRow) : Tx Unit :=
  Prog.execute (fun v => if (v.policies.find? id).isSome then [.policy id] else []) (fun _ => .ok ())
    fun _ db => { db with policies := db.policies.modify id f }

/-- Publish the next version; the versions before it stay as they are. -/
def publishNewVersion (ctx : RequestCtx) (policyId : Uuid) (definition : PolicyDefinition) : Tx Unit := do
  let row ← Prog.query (·.policies.find? policyId)
  let row ← Prog.ofExcept (foundOr row
    (internal "no rows returned by a query that expected to return at least one row"))
  insertPolicyVersion policyId (row.currentVersion + 1) ⟨ctx.fresh 1, definition⟩
  updatePolicyRow policyId fun p => { p with currentVersion := row.currentVersion + 1, updatedAt := ctx.now }

section Handlers
variable [Formats]

/-- The first version of a policy. `n` numbers the policies one request inserts. -/
def insertPolicy (ctx : RequestCtx) (n : Nat) (name subjectType : String)
    (definition : PolicyDefinition) : Tx Uuid := do
  let id := ctx.fresh (2 * n)
  insertPolicyRow id
    { publicId := (PublicId.mk .approvalPolicy id).asStr, name, subjectType, isActive := true,
      currentVersion := 1, createdAt := ctx.now, updatedAt := ctx.now }
  insertPolicyVersion id 1 ⟨ctx.fresh (2 * n + 1), definition⟩
  pure id

def createPolicy (ctx : RequestCtx) (body : CreatePolicyRequest) : Tx Response := do
  Prog.ofExcept (ctx.authorize .approvalPolicyManage)
  Prog.require (body.definition.steps ≠ []) (validation "policy must have at least one step")
  let id ← insertPolicy ctx 0 body.name body.subjectType body.definition
  answerPolicy 201 id

omit [Formats] in
/-- Run the update when there is something to update. -/
def whenSome {α : Type} (x : Option α) (f : α → Tx Unit) : Tx Unit :=
  match x with
  | none => pure ()
  | some a => f a

def updatePolicy (ctx : RequestCtx) (id : String) (body : UpdatePolicyRequest) : Tx Response := do
  let policyId ← Prog.ofExcept (parsePublicId .approvalPolicy id)
  Prog.ofExcept (ctx.authorize .approvalPolicyManage)
  whenSome body.name fun name =>
    updatePolicyRow policyId fun p => { p with name, updatedAt := ctx.now }
  whenSome body.isActive fun isActive =>
    updatePolicyRow policyId fun p => { p with isActive, updatedAt := ctx.now }
  whenSome body.definition (publishNewVersion ctx policyId)
  answerPolicy 200 policyId

omit [Formats] in
/-- One step for the holders of a role, with the administrators after a day. -/
def PolicyStepDef.default (approverRole : String) : PolicyStepDef where
  order := 1
  approverRole := some approverRole
  slaSeconds := some 86400
  escalateToRole := some "admin"

omit [Formats] in
def expenseDefaultDefinition : PolicyDefinition :=
  { mode := .any, matchCriteria := { amountMinorGte := some 1 }, steps := [.default "finance"] }

omit [Formats] in
def quoteDiscountDefaultDefinition : PolicyDefinition :=
  { mode := .any, matchCriteria := { discountBpsGte := some 1000 }, steps := [.default "manager"] }

omit [Formats] in
def leaveRequestDefaultDefinition : PolicyDefinition := { mode := .any, steps := [.default "manager"] }

omit [Formats] in
def payrollRunDefaultDefinition : PolicyDefinition := { mode := .any, steps := [.default "finance"] }

omit [Formats] in
def purchaseRequestDefaultDefinition : PolicyDefinition := { mode := .any, steps := [.default "manager"] }

omit [Formats] in
def timesheetDefaultDefinition : PolicyDefinition := { mode := .any, steps := [.default "manager"] }

def seedOne (ctx : RequestCtx) (n : Nat) (name subjectType : String) (definition : PolicyDefinition) :
    Tx Unit := do
  let present ← Prog.query fun db =>
    db.policies.values.any fun p => p.subjectType = subjectType && p.name = name
  if present then pure ()
  else do
    let _ ← insertPolicy ctx n name subjectType definition
    pure ()

/-- A transaction of its own, before an approval is created. -/
def ensureDefaultPolicies (ctx : RequestCtx) : Tx Response := do
  seedOne ctx 0 "Default expense approval" "expense" expenseDefaultDefinition
  seedOne ctx 1 "Default quote discount approval" "quote_discount" quoteDiscountDefaultDefinition
  seedOne ctx 2 "Default leave request approval" "leave_request" leaveRequestDefaultDefinition
  seedOne ctx 3 "Default payroll run approval" "payroll_run" payrollRunDefaultDefinition
  seedOne ctx 4 "Default purchase request approval" "purchase_request" purchaseRequestDefaultDefinition
  seedOne ctx 5 "Default timesheet approval" "timesheet" timesheetDefaultDefinition
  pure .seeded

end Handlers

def WritesPolicies (f : Db → Db) : Prop :=
  ∀ s, ∃ policies policyVersions, f s = { s with policies, policyVersions }

theorem WritesPolicies.id : WritesPolicies id := fun s => ⟨s.policies, s.policyVersions, rfl⟩

theorem WritesPolicies.comp (f g : Db → Db) (hf : WritesPolicies f) (hg : WritesPolicies g) :
    WritesPolicies (f ∘ g) := by
  intro s
  obtain ⟨_, _, hgs⟩ := hg s
  obtain ⟨policies, policyVersions, hfs⟩ := hf (g s)
  refine ⟨policies, policyVersions, hfs.trans ?_⟩
  rw [hgs]

theorem run_writesPolicies {α : Type} {p : Tx α} (hp : p.Writes WritesPolicies) {s : Db}
    {r : α × Db} (h : p.run s = .ok r) :
    ∃ policies policyVersions, r.2 = { s with policies, policyVersions } := by
  obtain ⟨f, hf, hr⟩ := hp.run_ok .id WritesPolicies.comp h
  rw [hr]
  exact hf s

theorem writes_insertPolicyRow (id : Uuid) (row : PolicyRow) :
    (insertPolicyRow id row).Writes WritesPolicies :=
  Prog.writes_execute .id fun _ _ s => ⟨_, s.policyVersions, rfl⟩

theorem writes_insertPolicyVersion (policyId : Uuid) (version : Int) (row : PolicyVersionRow) :
    (insertPolicyVersion policyId version row).Writes WritesPolicies :=
  Prog.writes_execute .id fun _ _ s => ⟨s.policies, _, rfl⟩

theorem writes_updatePolicyRow (id : Uuid) (f : PolicyRow → PolicyRow) :
    (updatePolicyRow id f).Writes WritesPolicies :=
  Prog.writes_execute .id fun _ _ s => ⟨_, s.policyVersions, rfl⟩

theorem writes_publishNewVersion (ctx : RequestCtx) (policyId : Uuid) (definition : PolicyDefinition) :
    (publishNewVersion ctx policyId definition).Writes WritesPolicies :=
  (Prog.writes_query .id _).bind fun _ => (Prog.writes_ofExcept _).bind fun _ =>
    (writes_insertPolicyVersion _ _ _).bind fun _ => writes_updatePolicyRow _ _

theorem writes_answerPolicy (status : Nat) (policyId : Uuid) :
    (answerPolicy status policyId).Writes WritesPolicies :=
  (Prog.writes_query .id _).bind fun _ => (Prog.writes_ofExcept _).bind fun _ =>
    (Prog.writes_query .id _).bind fun _ => trivial

section
variable [Formats]

theorem writes_insertPolicy (ctx : RequestCtx) (n : Nat) (name subjectType : String)
    (definition : PolicyDefinition) :
    (insertPolicy ctx n name subjectType definition).Writes WritesPolicies :=
  (writes_insertPolicyRow _ _).bind fun _ => (writes_insertPolicyVersion _ _ _).bind fun _ => trivial

theorem writes_createPolicy (ctx : RequestCtx) (body : CreatePolicyRequest) :
    (createPolicy ctx body).Writes WritesPolicies :=
  (Prog.writes_ofExcept _).bind fun _ => Prog.writes_require.bind fun _ =>
    (writes_insertPolicy _ _ _ _ _).bind fun _ => writes_answerPolicy _ _

omit [Formats] in
theorem writes_whenSome {α : Type} {x : Option α} {f : α → Tx Unit}
    (h : ∀ a, (f a).Writes WritesPolicies) : (whenSome x f).Writes WritesPolicies := by
  cases x with
  | none => trivial
  | some a => exact h a

theorem writes_updatePolicy (ctx : RequestCtx) (id : String) (body : UpdatePolicyRequest) :
    (updatePolicy ctx id body).Writes WritesPolicies :=
  (Prog.writes_ofExcept _).bind fun _ => (Prog.writes_ofExcept _).bind fun _ =>
    (writes_whenSome fun _ => writes_updatePolicyRow _ _).bind fun _ =>
    (writes_whenSome fun _ => writes_updatePolicyRow _ _).bind fun _ =>
    (writes_whenSome fun _ => writes_publishNewVersion _ _ _).bind fun _ => writes_answerPolicy _ _

theorem writes_seedOne (ctx : RequestCtx) (n : Nat) (name subjectType : String)
    (definition : PolicyDefinition) :
    (seedOne ctx n name subjectType definition).Writes WritesPolicies := by
  refine (Prog.writes_query .id _).bind fun present => ?_
  split_ifs
  · trivial
  · exact (writes_insertPolicy _ _ _ _ _).bind fun _ => trivial

theorem writes_ensureDefaultPolicies (ctx : RequestCtx) :
    (ensureDefaultPolicies ctx).Writes WritesPolicies :=
  (writes_seedOne _ _ _ _ _).bind fun _ => (writes_seedOne _ _ _ _ _).bind fun _ =>
    (writes_seedOne _ _ _ _ _).bind fun _ => (writes_seedOne _ _ _ _ _).bind fun _ =>
    (writes_seedOne _ _ _ _ _).bind fun _ => (writes_seedOne _ _ _ _ _).bind fun _ => trivial

end

end Noxara.Approvals
