import Noxara.ApprovalDecisions
import Noxara.ApprovalPolicies

/-! Requesting an approval, which fixes its steps for good, and delegating one's part in them. -/
namespace Noxara.Approvals

open Transaction
open Finance (Uuid Timestamp AppError PublicId Formats parsePublicId foundOr validation conflict internal
  databaseError uniqueViolation trim)

/-! What the workflow engine keeps of an approval, without a database: a decision and an expired timer. -/

inductive ProcessStatus
  | pending | approved | rejected | escalated
  deriving DecidableEq

structure ProcessState where
  status : ProcessStatus
  currentStep : Int
  maxStep : Int
  mode : String
  decided : Bool
  escalations : Nat
  deriving DecidableEq

namespace ProcessState

def new (currentStep maxStep : Int) (mode : String) : ProcessState :=
  ⟨.pending, currentStep, maxStep, mode, false, 0⟩

/-- Nothing happens to a process that is decided or escalated past its last step. -/
def Ended (p : ProcessState) : Prop := p.decided = true ∨ p.status ≠ .pending

instance (p : ProcessState) : Decidable p.Ended := inferInstanceAs (Decidable (_ ∨ _))

/-- The answer is whether the signal was applied. -/
def applyDecide (p : ProcessState) (approve : Bool) : Bool × ProcessState :=
  if p.Ended then (false, p)
  else (true, { p with decided := true, status := if approve then .approved else .rejected })

def applySlaTimeout (p : ProcessState) : Bool × ProcessState :=
  if p.Ended then (false, p)
  else if p.currentStep < p.maxStep then
    (true, { p with escalations := p.escalations + 1, currentStep := p.currentStep + 1, status := .pending })
  else (true, { p with escalations := p.escalations + 1, status := .escalated })

def workflowId (orgId approvalId : String) : String := s!"{orgId}:ApprovalProcess:{approvalId}"

end ProcessState

/-- A `CHAR(3)` column: padded with blanks, of which it also drops any excess. -/
def char3 (s : String) : Except AppError String :=
  if (s.toList.drop 3).all fun c => c = ' ' then
    .ok (String.ofList ((s.toList ++ List.replicate 3 ' ').take 3))
  else .error (databaseError "value too long for type character(3)")

def insertApproval (id : Uuid) (row : ApprovalRow) : Tx Unit :=
  Prog.execute (fun _ => [.approval id, .subject row.subjectType row.subjectId])
    (fun v =>
      if (v.approvals.find? id).isSome then .error (uniqueViolation "operations_approval_pkey")
      else if ∃ a ∈ v.approvals.values, a.subjectType = row.subjectType ∧ a.subjectId = row.subjectId then
        .error (uniqueViolation "operations_approval_org_id_subject_type_subject_id_key")
      else .ok ())
    fun _ db => { db with approvals := db.approvals.insert id row }

def ResolvedStepSnapshot.row (first : Int) (x : ResolvedStepSnapshot) : StepRow where
  status := if x.order = first then .active else .pending
  approverRole := x.approverRole
  assigneeUserIds := x.assigneeUserIds
  slaSeconds := x.slaSeconds
  escalateToRole := x.escalateToRole

def insertStep (approvalId : Uuid) (order : Int) (row : StepRow) : Tx Unit :=
  Prog.execute (fun _ => [.step approvalId order])
    (fun v =>
      if (v.steps.find? (approvalId, order)).isSome then
        .error (uniqueViolation "operations_approval_step_org_id_approval_id_step_order_key")
      else .ok ())
    fun _ db => { db with steps := db.steps.insert (approvalId, order) row }

def insertSteps (approvalId : Uuid) (first : Int) : List ResolvedStepSnapshot → Tx Unit
  | [] => pure ()
  | x :: xs => do
    insertStep approvalId x.order (x.row first)
    insertSteps approvalId first xs

def Db.approvalOf (db : Db) (subjectType subjectId : String) : Option Uuid :=
  (db.approvals.rows.find? fun r => r.2.subjectType = subjectType && r.2.subjectId = subjectId).map
    Prod.fst

structure CreateDelegationRequest where
  toUserId : String
  approvalId : Option String := none
  endsAt : Option String := none

section Handlers
variable [Formats]

/-- Every approval starts at step 1, whatever its policy numbers its steps. -/
def newApproval (ctx : RequestCtx) (body : CreateApprovalRequest) (currency : Option String)
    (matched : MatchedPolicy) (snapshot : RoutingSnapshot) : ApprovalRow where
  publicId := (PublicId.mk .approval (ctx.fresh 0)).asStr
  subjectType := body.subjectType
  subjectId := body.subjectId
  status := .pending
  requesterUserId := ctx.actorUserId
  requesterRole := body.requesterRole
  amountMinor := body.amountMinor
  currency
  category := body.category
  departmentId := (RouteContext.fromRequest body).departmentId
  policyId := matched.policyId
  policyVersion := matched.policy.currentVersion
  policyVersionId := matched.version.id
  routingSnapshot := snapshot
  mode := matched.version.definition.mode
  currentStep := 1
  title := body.title.getD s!"{body.subjectType} approval"
  summary := body.summary
  temporalWorkflowId :=
    ProcessState.workflowId ctx.orgPublicId (PublicId.mk .approval (ctx.fresh 0)).asStr
  createdAt := ctx.now
  updatedAt := ctx.now

def insertRouted (ctx : RequestCtx) (body : CreateApprovalRequest) (matched : MatchedPolicy)
    (snapshot : RoutingSnapshot) : Tx Response :=
  match snapshot.steps with
  | [] => .fail (conflict "policy has no steps after resolution")
  | first :: _ => do
    let currency ← Prog.ofExcept (body.currency.mapM char3)
    insertApproval (ctx.fresh 0) (newApproval ctx body currency matched snapshot)
    insertSteps (ctx.fresh 0) first.order snapshot.steps
    let dto ← fetchApprovalDto (ctx.fresh 0) ⟨.internal, "approval missing after insert"⟩
    Idempotency.record ctx.idempotencyKey "approval.create" 201 dto
    pure (.approval 201 dto)

/-- A subject that has an approval gets that one. -/
def createOrFind (ctx : RequestCtx) (body : CreateApprovalRequest) : Tx Response := do
  match ← Prog.query (·.approvalOf body.subjectType body.subjectId) with
  | some existing => answerApproval existing
  | none => do
    let matched ← findMatchingPolicy body.subjectType (.fromRequest body)
    let matched ← Prog.ofExcept (foundOr matched
      (conflict s!"no active approval policy matched subject_type={body.subjectType}"))
    let snapshot ← buildRoutingSnapshot ctx matched.policy matched.version.definition (.fromRequest body)
    insertRouted ctx body matched snapshot

def createApproval (ctx : RequestCtx) (body : CreateApprovalRequest) : Tx Response := do
  Prog.ofExcept (ctx.authorize .approvalRead)
  Prog.require (trim body.subjectType ≠ "" ∧ trim body.subjectId ≠ "")
    (validation "subject_type and subject_id are required")
  Idempotency.replayOr ctx.idempotencyKey "approval.create"
    (fun stored => .approval (Finance.Idempotency.statusFromU16 stored.responseStatus 201) stored.responseBody)
    (createOrFind ctx body)

def parseUser (raw : String) : Except AppError Uuid :=
  match Formats.uuidParseStr raw with
  | some u => .ok u
  | none => parsePublicId .user raw

def parseEndsAt (raw : String) : Except AppError Timestamp :=
  foundOr (Formats.parseFromRfc3339 raw) (validation "ends_at must be RFC3339")

omit [Formats] in
def insertDelegation (id : Uuid) (row : DelegationRow) : Tx Unit :=
  Prog.execute (fun _ => [.delegation id])
    (fun v =>
      if (v.delegations.find? id).isSome then
        .error (uniqueViolation "operations_approval_delegation_pkey")
      else if row.approvalId.any fun a => (v.approvals.find? a).isNone then
        .error (databaseError "insert or update on table \"operations_approval_delegation\" violates foreign key constraint \"operations_approval_delegation_approval_id_fkey\"")
      else .ok ())
    fun _ db => { db with delegations := db.delegations.insert id row }

def createDelegation (ctx : RequestCtx) (body : CreateDelegationRequest) : Tx Response := do
  Prog.ofExcept (ctx.authorize .approvalDecide)
  let toUser ← Prog.ofExcept (parseUser body.toUserId)
  let approvalId ← Prog.ofExcept (body.approvalId.mapM (parsePublicId .approval))
  let endsAt ← Prog.ofExcept (body.endsAt.mapM parseEndsAt)
  insertDelegation (ctx.fresh 0)
    { publicId := (PublicId.mk .approvalDelegation (ctx.fresh 0)).asStr
      fromUserId := ctx.actorUserId
      toUserId := toUser
      approvalId
      endsAt }
  pure (.delegation 201
    { id := (PublicId.mk .approvalDelegation (ctx.fresh 0)).asStr
      fromUserId := userPub ctx.actorUserId
      toUserId := userPub toUser
      approvalId := body.approvalId
      startsAt := ctx.now
      endsAt
      revokedAt := none })

omit [Formats] in
theorem insertSteps_ok {approvalId : Uuid} {first : Int} {xs : List ResolvedStepSnapshot} {s : Db}
    {r : Unit × Db} (h : (insertSteps approvalId first xs).run s = .ok r) :
    ∃ steps, r.2 = { s with steps } ∧
      (∀ k, k.1 ≠ approvalId → steps.find? k = s.steps.find? k) ∧
      (∀ k x, s.steps.find? k = some x → steps.find? k = some x) ∧
      (∀ o, (∃ x ∈ xs, x.order = o ∧ steps.find? (approvalId, o) = some (x.row first)) ∨
        ((∀ x ∈ xs, x.order ≠ o) ∧ steps.find? (approvalId, o) = s.steps.find? (approvalId, o))) := by
  induction xs generalizing s with
  | nil =>
    cases h
    exact ⟨_, rfl, fun _ _ => rfl, fun _ _ h => h, fun o => .inr ⟨nofun, rfl⟩⟩
  | cons x xs ih =>
    simp only [insertSteps, insertStep, Prog.run_execute_bind_ok] at h
    obtain ⟨hfree, h⟩ := h
    have hnone : s.steps.find? (approvalId, x.order) = none := by
      by_contra hne
      rw [if_pos (Option.isSome_iff_ne_none.mpr hne)] at hfree
      cases hfree
    obtain ⟨steps, hr, hother, hkept, hmine⟩ := ih h
    refine ⟨steps, hr, fun k hk => ?_, fun k y hy => ?_, fun o => ?_⟩
    · rw [hother k hk]
      exact Table.find?_insert_ne _ _ (by rintro rfl; exact hk rfl)
    · exact hkept k y (Table.find?_insert_of_some hy _)
    · have hx : steps.find? (approvalId, x.order) = some (x.row first) :=
        hkept _ _ (Table.find?_insert_self hnone _)
      rcases hmine o with ⟨y, hy, ho, hfind⟩ | ⟨hnot, hfind⟩
      · exact .inl ⟨y, List.mem_cons_of_mem _ hy, ho, hfind⟩
      · by_cases ho : x.order = o
        · subst ho
          exact .inl ⟨x, List.mem_cons_self .., rfl, hx⟩
        · refine .inr ⟨fun y hy => ?_, hfind.trans ?_⟩
          · rcases List.mem_cons.mp hy with rfl | hy
            · exact ho
            · exact hnot y hy
          · refine Table.find?_insert_ne _ _ fun he => ho ?_
            exact (Prod.mk.inj he).2.symm

/-- A pending approval at step 1 was created for the steps its policy names. -/
structure Created (approvalId : Uuid) (matched : MatchedPolicy) (row : ApprovalRow) (s t : Db) : Prop where
  fresh : s.approvals.find? approvalId = none
  version : s.policyVersions.find? (matched.policyId, matched.policy.currentVersion) = some matched.version
  status : row.status = .pending
  current : row.currentStep = 1
  mode : row.mode = matched.version.definition.mode
  orders : row.routingSnapshot.steps.map (·.order) = matched.version.definition.ordered.map (·.order)
  stored : ∃ steps idempotency first,
    t = { s with approvals := s.approvals.insert approvalId row, steps, idempotency } ∧
    (∀ k, k.1 ≠ approvalId → steps.find? k = s.steps.find? k) ∧
    ∀ o, (∃ x ∈ row.routingSnapshot.steps, x.order = o ∧
        steps.find? (approvalId, o) = some (x.row first)) ∨
      ((∀ x ∈ row.routingSnapshot.steps, x.order ≠ o) ∧
        steps.find? (approvalId, o) = s.steps.find? (approvalId, o))

theorem insertRouted_ok {ctx : RequestCtx} {body : CreateApprovalRequest} {matched : MatchedPolicy}
    {snapshot : RoutingSnapshot} {s t : Db} {r : Response}
    (h : (insertRouted ctx body matched snapshot).run s = .ok (r, t))
    (hversion : s.policyVersions.find? (matched.policyId, matched.policy.currentVersion) =
      some matched.version)
    (horders : snapshot.steps.map (·.order) = matched.version.definition.ordered.map (·.order)) :
    ∃ currency, Created (ctx.fresh 0) matched (newApproval ctx body currency matched snapshot) s t := by
  unfold insertRouted at h
  split at h
  · cases h
  · next first _ _ =>
    simp only [Prog.run_ofExcept_bind_ok, insertApproval, Prog.run_execute_bind_ok] at h
    obtain ⟨currency, _, hfree, h⟩ := h
    obtain ⟨_, u, hsteps, h⟩ := Prog.run_bind_ok.mp h
    obtain ⟨steps, rfl, hother, _, hmine⟩ := insertSteps_ok hsteps
    obtain ⟨_, v, hd, h⟩ := Prog.run_bind_ok.mp h
    have hv : v = _ := fetchApprovalDto_ok hd
    subst hv
    obtain ⟨_, w, hw, h⟩ := Prog.run_bind_ok.mp h
    obtain ⟨idempotency, hw⟩ := Idempotency.record_ok hw
    have hw : w = _ := hw
    subst hw
    cases h
    refine ⟨currency, ?_, hversion, rfl, rfl, rfl, horders, steps, idempotency, first.order, rfl,
      hother, hmine⟩
    by_contra hne
    rw [if_pos (Option.isSome_iff_ne_none.mpr hne)] at hfree
    cases hfree

theorem createApproval_ok {ctx : RequestCtx} {body : CreateApprovalRequest} {s t : Db} {r : Response}
    (h : (createApproval ctx body).run s = .ok (r, t)) :
    t = s ∨ ∃ approvalId matched row, Created approvalId matched row s t := by
  simp only [createApproval, Prog.run_ofExcept_bind_ok, Prog.run_require_bind_ok] at h
  obtain ⟨_, _, _, h⟩ := h
  rcases Idempotency.replayOr_ok h with ⟨hs, _⟩ | h
  · exact .inl hs
  simp only [createOrFind, Prog.run_query_bind] at h
  split at h
  · exact .inl (answerApproval_ok h)
  · obtain ⟨found, u, hf, hrest⟩ := Prog.run_bind_ok.mp h
    obtain ⟨rfl, hm⟩ := run_findMatchingPolicy_ok hf
    simp only [Prog.run_ofExcept_bind_ok, Finance.foundOr_ok] at hrest
    obtain ⟨matched, hfound, hrest⟩ := hrest
    obtain ⟨snapshot, v, hsnap, hins⟩ := Prog.run_bind_ok.mp hrest
    obtain ⟨hsteps, _, rfl⟩ := run_buildRoutingSnapshot_ok hsnap
    have horders : snapshot.steps.map (·.order) = matched.version.definition.ordered.map (·.order) := by
      rw [show snapshot.steps = _ from hsteps, List.map_map]
      rfl
    obtain ⟨currency, hc⟩ := insertRouted_ok hins (hm matched hfound).2.1 horders
    exact .inr ⟨_, matched, _, hc⟩

theorem createDelegation_ok {ctx : RequestCtx} {body : CreateDelegationRequest} {s t : Db}
    {r : Response} (h : (createDelegation ctx body).run s = .ok (r, t)) :
    ∃ delegations, t = { s with delegations } := by
  simp only [createDelegation, Prog.run_ofExcept_bind_ok, insertDelegation, Prog.run_execute_bind_ok] at h
  obtain ⟨_, _, _, _, _, _, _, _, _, h⟩ := h
  cases h
  exact ⟨_, rfl⟩

end Handlers

inductive Request
  | seed (ctx : RequestCtx)
  | createPolicy (ctx : RequestCtx) (body : CreatePolicyRequest)
  | updatePolicy (ctx : RequestCtx) (id : String) (body : UpdatePolicyRequest)
  | create (ctx : RequestCtx) (body : CreateApprovalRequest)
  | delegate (ctx : RequestCtx) (body : CreateDelegationRequest)
  | decide (ctx : RequestCtx) (id : String) (body : DecideApprovalRequest)
  | escalate (ctx : RequestCtx) (id : String)

variable [Formats]

def Request.run : Request → Tx Response
  | seed ctx => ensureDefaultPolicies ctx
  | createPolicy ctx body => Approvals.createPolicy ctx body
  | updatePolicy ctx id body => Approvals.updatePolicy ctx id body
  | create ctx body => createApproval ctx body
  | delegate ctx body => createDelegation ctx body
  | decide ctx id body => decideApproval ctx id body
  | escalate ctx id => escalateApproval ctx id

/-- What an accepted request does to the approvals and their steps. -/
inductive Effect (s t : Db) : Prop
  | none (approvals : t.approvals = s.approvals) (steps : t.steps = s.steps)
      (decisions : t.decisions = s.decisions)
  | created {approvalId : Uuid} {matched : MatchedPolicy} {row : ApprovalRow}
      (created : Created approvalId matched row s t)
  | decided {ctx : RequestCtx} {approvalId : Uuid} {body : DecideApprovalRequest} {row : ApprovalRow}
      (found : s.approvals.find? approvalId = some row) (pending : row.status = .pending)
      (decided : Decided ctx approvalId body row s t)
  | escalated {ctx : RequestCtx} {approvalId : Uuid} {row : ApprovalRow}
      (found : s.approvals.find? approvalId = some row) (pending : row.status = .pending)
      (escalated : t = s.escalated ctx approvalId row)

omit [Formats] in
theorem Effect.of_policies {p : Tx Response} (hp : p.Writes WritesPolicies) {s t : Db} {r : Response}
    (h : p.run s = .ok (r, t)) : Effect s t := by
  obtain ⟨_, _, ht⟩ := run_writesPolicies hp h
  have ht : t = _ := ht
  subst ht
  exact .none rfl rfl rfl

theorem Request.effect {q : Request} {s t : Db} {r : Response} (h : q.run.run s = .ok (r, t)) :
    Effect s t := by
  cases q with
  | seed ctx => exact .of_policies (writes_ensureDefaultPolicies ctx) h
  | createPolicy ctx body => exact .of_policies (writes_createPolicy ctx body) h
  | updatePolicy ctx id body => exact .of_policies (writes_updatePolicy ctx id body) h
  | create ctx body =>
    rcases createApproval_ok h with rfl | ⟨_, _, _, hc⟩
    · exact .none rfl rfl rfl
    · exact .created hc
  | delegate ctx body =>
    obtain ⟨_, rfl⟩ := createDelegation_ok h
    exact .none rfl rfl rfl
  | decide ctx id body =>
    obtain ⟨_, _, ⟨rfl, _⟩ | ⟨row, hrow, ⟨_, rfl⟩ | ⟨hp, hd⟩⟩⟩ := decideApproval_ok h
    · exact .none rfl rfl rfl
    · exact .none rfl rfl rfl
    · exact .decided hrow hp hd
  | escalate ctx id =>
    obtain ⟨_, row, _, hrow, ⟨_, rfl⟩ | ⟨hp, ht⟩⟩ := escalateApproval_ok h
    · exact .none rfl rfl rfl
    · exact .escalated hrow hp ht

def Db.statusOf (db : Db) (approvalId : Uuid) : Option ApprovalStatus :=
  (db.approvals.find? approvalId).map (·.status)

def PolicyStepDef.by (order : Int) (approver : Uuid) : PolicyStepDef where
  order
  approverUserIds := [userPub approver]
  escalateToRole := some "admin"

/-- The approval that `routedBy` creates. -/
def routedId : String := (PublicId.mk .approval 10).asStr

/-- A policy with these steps is published, and something is requested under it. -/
def routedBy (mode : ApprovalMode) (steps : List PolicyStepDef) : List Request :=
  [.createPolicy (.of 9) { name := "Purchases", subjectType := "generic", definition := { mode, steps } },
    .create (.of 8) { subjectType := "generic", subjectId := "chair" }]

end Noxara.Approvals
