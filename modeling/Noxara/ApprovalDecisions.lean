import Noxara.ApprovalStatements

/-! Deciding and escalating an approval. A decision goes through only on a row that still is
pending; an escalation hands the approval on to the next step, or the last step to other
approvers. -/
namespace Noxara.Approvals

open Transaction
open Finance (Uuid Timestamp Formats parsePublicId)

structure DecideApprovalRequest where
  approve : Bool
  comment : Option String := none

/-- The delegation lets `actor` act for one of `assignees` on the approval. -/
def DelegationRow.Covers (d : DelegationRow) (now : Timestamp) (approvalId : Uuid)
    (assignees : List Uuid) (actor : Uuid) : Prop :=
  d.toUserId = actor ∧ d.fromUserId ∈ assignees ∧ d.revokedAt = none ∧
    (d.endsAt.all fun endsAt => now < endsAt) = true ∧ (d.approvalId.all fun a => a = approvalId) = true

instance (d : DelegationRow) (now : Timestamp) (approvalId : Uuid) (assignees : List Uuid)
    (actor : Uuid) : Decidable (d.Covers now approvalId assignees actor) := by
  unfold DelegationRow.Covers
  infer_instance

def Db.Delegated (db : Db) (now : Timestamp) (approvalId : Uuid) (assignees : List Uuid)
    (actor : Uuid) : Prop :=
  ∃ d ∈ db.delegations.values, d.Covers now approvalId assignees actor

instance (db : Db) (now : Timestamp) (approvalId : Uuid) (assignees : List Uuid) (actor : Uuid) :
    Decidable (db.Delegated now approvalId assignees actor) := by
  unfold Db.Delegated
  infer_instance

def actorCanDecideStep (ctx : RequestCtx) (approvalId : Uuid) (stepOrder : Int) : Tx Bool := do
  match ← Prog.query fun db => (db.steps.find? (approvalId, stepOrder)).map (·.assigneeUserIds) with
  | none => pure false
  | some assignees =>
    if ctx.actorUserId ∈ assignees then pure true
    else Prog.query fun db => decide (db.Delegated ctx.now approvalId assignees ctx.actorUserId)

/-- The assignees of a step, unnested: none when the step has none, and none without the step. -/
def Db.unnestAssignees (db : Db) (approvalId : Uuid) (stepOrder : Int) : List Uuid :=
  ((db.steps.find? (approvalId, stepOrder)).map (·.assigneeUserIds)).getD []

def requireApprover (ctx : RequestCtx) (approvalId : Uuid) (stepOrder : Int) : Tx Unit := do
  let can ← actorCanDecideStep ctx approvalId stepOrder
  if can then pure ()
  else do
    let assignees ← Prog.query (·.unnestAssignees approvalId stepOrder)
    Prog.require (assignees = [])
      ⟨.forbidden, "not an assignee (or delegate) for the active approval step"⟩

def DecideApprovalRequest.newStatus (body : DecideApprovalRequest) : ApprovalStatus :=
  if body.approve then .approved else .rejected

def DecideApprovalRequest.stepStatus (body : DecideApprovalRequest) : StepStatus :=
  if body.approve then .approved else .rejected

def DecideApprovalRequest.decision (body : DecideApprovalRequest) : DecisionKind :=
  if body.approve then .approve else .reject

def ApprovalRow.decide (ctx : RequestCtx) (body : DecideApprovalRequest) (a : ApprovalRow) :
    ApprovalRow :=
  { a with
    status := body.newStatus
    decidedAt := some ctx.now
    decidedBy := some ctx.actorUserId
    decisionNote := body.comment
    updatedAt := ctx.now }

def StepRow.decide (ctx : RequestCtx) (body : DecideApprovalRequest) (x : StepRow) : StepRow :=
  { x with
    status := body.stepStatus
    decidedAt := some ctx.now
    decidedBy := some ctx.actorUserId }

def decisionRow (ctx : RequestCtx) (approvalId : Uuid) (stepOrder : Int)
    (body : DecideApprovalRequest) : DecisionRow where
  approvalId
  stepOrder
  decision := body.decision
  actorUserId := ctx.actorUserId
  onBehalfOf := ctx.onBehalfOf
  comment := body.comment
  idempotencyKey := ctx.idempotencyKey

def decideScope (id : String) : String := s!"approval.decide.{id}"

def escalationRow (ctx : RequestCtx) (approvalId : Uuid) (stepOrder : Int) : DecisionRow where
  approvalId
  stepOrder
  decision := .escalate
  actorUserId := ctx.actorUserId
  onBehalfOf := ctx.onBehalfOf
  comment := some "sla timeout"
  idempotencyKey := none

def StepRow.escalate (now : Timestamp) (x : StepRow) : StepRow :=
  { x with status := .escalated, escalatedAt := some now }

def StepRow.activate (x : StepRow) : StepRow := { x with status := .active }

/-- The step after its escalation to the members of a role. -/
def StepRow.reassign (users : List Uuid) (role : String) (x : StepRow) : StepRow :=
  { x with status := .active, assigneeUserIds := users, approverRole := some role }

def ApprovalRow.moveTo (now : Timestamp) (step : Int) (a : ApprovalRow) : ApprovalRow :=
  { a with currentStep := step, updatedAt := now }

def ApprovalRow.escalate (now : Timestamp) (a : ApprovalRow) : ApprovalRow :=
  { a with status := .escalated, updatedAt := now }

def ApprovalRow.keepPending (a : ApprovalRow) : ApprovalRow := { a with status := .pending }

section Handlers
variable [Formats]

/-- The decision won: store it with the step it was made on. -/
def recordDecision (ctx : RequestCtx) (id : String) (approvalId : Uuid) (stepOrder : Int)
    (body : DecideApprovalRequest) : Tx Response := do
  updateStep approvalId stepOrder (StepRow.decide ctx body)
  insertDecision (decisionRow ctx approvalId stepOrder body)
  let dto ← fetchApprovalDto approvalId (Finance.notFound "approval")
  Idempotency.record ctx.idempotencyKey (decideScope id) 200 dto
  pure (.approval 200 dto)

def decidePending (ctx : RequestCtx) (id : String) (approvalId : Uuid)
    (body : DecideApprovalRequest) : Tx Response := do
  let row ← fetchApproval approvalId
  if row.status ≠ .pending then answerApproval approvalId
  else do
    requireApprover ctx approvalId row.currentStep
    let updated ← updateApproval approvalId (fun a => a.status = .pending) (ApprovalRow.decide ctx body)
    if updated = 0 then answerApproval approvalId
    else recordDecision ctx id approvalId row.currentStep body

def decideApproval (ctx : RequestCtx) (id : String) (body : DecideApprovalRequest) : Tx Response := do
  let approvalId ← Prog.ofExcept (parsePublicId .approval id)
  Prog.ofExcept (ctx.authorize .approvalDecide)
  Idempotency.replayOr ctx.idempotencyKey (decideScope id) (fun stored => .approval 200 stored.responseBody)
    (decidePending ctx id approvalId body)

/-- Hand the approval on to its next step, or its last step on to the members of a role. -/
def handOn (ctx : RequestCtx) (approvalId : Uuid) (currentStep maxStep : Int)
    (escalateRole : Option String) : Tx Unit :=
  if currentStep < maxStep then do
    updateStep approvalId (currentStep + 1) StepRow.activate
    let _ ← updateApproval approvalId (fun _ => true) (ApprovalRow.moveTo ctx.now (currentStep + 1))
    pure ()
  else
    match escalateRole with
    | none => pure ()
    | some role => do
      let users ← queryRoleMembers ctx role
      updateStep approvalId currentStep (StepRow.reassign users role)
      let _ ← updateApproval approvalId (fun _ => true) (ApprovalRow.escalate ctx.now)
      -- Keep pending for decision after escalation.
      let _ ← updateApproval approvalId (fun _ => true) ApprovalRow.keepPending
      pure ()

/-- The steps the escalation works on are the ones it read before it locked anything. -/
def escalatePending (ctx : RequestCtx) (approvalId : Uuid) (currentStep : Int) : Tx Response := do
  let escalateRole ← Prog.query fun db =>
    (db.steps.find? (approvalId, currentStep)).bind (·.escalateToRole)
  let maxStep ← Prog.query (·.maxStep approvalId)
  updateStep approvalId currentStep (StepRow.escalate ctx.now)
  handOn ctx approvalId currentStep maxStep escalateRole
  insertDecision (escalationRow ctx approvalId currentStep)
  answerApproval approvalId

def escalateApproval (ctx : RequestCtx) (id : String) : Tx Response := do
  let approvalId ← Prog.ofExcept (parsePublicId .approval id)
  Prog.ofExcept (ctx.authorize .approvalDecide)
  let row ← fetchApproval approvalId
  if row.status ≠ .pending then answerApproval approvalId
  else escalatePending ctx approvalId row.currentStep

omit [Formats] in
/-- The actor is assigned to the step, or holds a delegation of somebody who is. -/
def Db.MayActOn (db : Db) (ctx : RequestCtx) (approvalId : Uuid) (x : StepRow) : Prop :=
  ctx.actorUserId ∈ x.assigneeUserIds ∨
    db.Delegated ctx.now approvalId x.assigneeUserIds ctx.actorUserId

omit [Formats] in
theorem requireApprover_ok {ctx : RequestCtx} {approvalId : Uuid} {stepOrder : Int} {s : Db}
    {r : Unit × Db} (h : (requireApprover ctx approvalId stepOrder).run s = .ok r) :
    r.2 = s ∧ ((∃ x, s.steps.find? (approvalId, stepOrder) = some x ∧ s.MayActOn ctx approvalId x) ∨
      s.unnestAssignees approvalId stepOrder = []) := by
  simp only [requireApprover, actorCanDecideStep, bind_assoc, Prog.run_query_bind] at h
  cases hx : s.steps.find? (approvalId, stepOrder) with
  | none =>
    simp only [hx, Option.map_none, pure_bind] at h
    rw [if_neg (by decide), Prog.run_query_bind, Prog.run_require_ok] at h
    obtain ⟨hnone, rfl⟩ := h
    exact ⟨rfl, .inr hnone⟩
  | some x =>
    simp only [hx, Option.map_some] at h
    by_cases hmem : ctx.actorUserId ∈ x.assigneeUserIds
    · rw [if_pos hmem, pure_bind, if_pos rfl] at h
      cases h
      exact ⟨rfl, .inl ⟨x, rfl, .inl hmem⟩⟩
    · rw [if_neg hmem, Prog.run_query_bind] at h
      by_cases hd : s.Delegated ctx.now approvalId x.assigneeUserIds ctx.actorUserId
      · rw [decide_eq_true hd, if_pos rfl] at h
        cases h
        exact ⟨rfl, .inl ⟨x, rfl, .inr hd⟩⟩
      · rw [decide_eq_false hd, if_neg (by decide), Prog.run_query_bind, Prog.run_require_ok] at h
        obtain ⟨hnone, rfl⟩ := h
        exact ⟨rfl, .inr hnone⟩

/-- A pending approval was decided on its current step by somebody who may. -/
def Decided (ctx : RequestCtx) (approvalId : Uuid) (body : DecideApprovalRequest) (row : ApprovalRow)
    (s t : Db) : Prop :=
  ((∃ x, s.steps.find? (approvalId, row.currentStep) = some x ∧ s.MayActOn ctx approvalId x) ∨
    s.unnestAssignees approvalId row.currentStep = []) ∧
  ∃ idempotency, t =
    { s with
      approvals := s.approvals.modify approvalId (ApprovalRow.decide ctx body)
      steps := s.steps.modify (approvalId, row.currentStep) (StepRow.decide ctx body)
      decisions := s.decisions ++ [decisionRow ctx approvalId row.currentStep body]
      idempotency }

theorem recordDecision_ok {ctx : RequestCtx} {id : String} {approvalId : Uuid} {stepOrder : Int}
    {body : DecideApprovalRequest} {s t : Db} {r : Response}
    (h : (recordDecision ctx id approvalId stepOrder body).run s = .ok (r, t)) :
    ∃ idempotency, t =
      { s with
        steps := s.steps.modify (approvalId, stepOrder) (StepRow.decide ctx body)
        decisions := s.decisions ++ [decisionRow ctx approvalId stepOrder body]
        idempotency } := by
  simp only [recordDecision, updateStep, insertDecision, Prog.run_execute_bind_ok] at h
  obtain ⟨_, _, h⟩ := h
  obtain ⟨_, u, hd, h⟩ := Prog.run_bind_ok.mp h
  have hu : u = _ := fetchApprovalDto_ok hd
  subst hu
  obtain ⟨_, v, hv, h⟩ := Prog.run_bind_ok.mp h
  obtain ⟨idempotency, hv⟩ := Idempotency.record_ok hv
  have hv : v = _ := hv
  subst hv
  cases h
  exact ⟨idempotency, rfl⟩

theorem decideApproval_ok {ctx : RequestCtx} {id : String} {body : DecideApprovalRequest} {s t : Db}
    {r : Response} (h : (decideApproval ctx id body).run s = .ok (r, t)) :
    ∃ approvalId, parsePublicId .approval id = .ok approvalId ∧
      ((t = s ∧ ∃ k stored, ctx.idempotencyKey = some k ∧
          s.idempotency.find? (decideScope id, k) = some stored) ∨
        ∃ row, s.approvals.find? approvalId = some row ∧
          ((row.status ≠ .pending ∧ t = s) ∨
            (row.status = .pending ∧ Decided ctx approvalId body row s t))) := by
  simp only [decideApproval, Prog.run_ofExcept_bind_ok] at h
  obtain ⟨approvalId, hid, _, _, h⟩ := h
  refine ⟨approvalId, hid, ?_⟩
  rcases Idempotency.replayOr_ok h with hreplay | h
  · exact .inl hreplay
  rw [decidePending, run_fetchApproval_bind_ok] at h
  obtain ⟨row, hrow, h⟩ := h
  refine .inr ⟨row, hrow, ?_⟩
  by_cases hst : row.status = .pending
  · rw [if_neg (not_not_intro hst)] at h
    obtain ⟨_, u, hreq, hrest⟩ := Prog.run_bind_ok.mp h
    obtain ⟨rfl, hallowed⟩ := requireApprover_ok hreq
    have hrest := updateApproval_bind_ok hrest hrow (decide_eq_true hst)
    rw [if_neg (by decide)] at hrest
    exact .inr ⟨hst, hallowed, recordDecision_ok hrest⟩
  · rw [if_pos hst] at h
    exact .inl ⟨hst, answerApproval_ok h⟩

omit [Formats] in
/-- The store after an escalation that read `row`. -/
def Db.escalated (s : Db) (ctx : RequestCtx) (approvalId : Uuid) (row : ApprovalRow) : Db :=
  let steps := s.steps.modify (approvalId, row.currentStep) (StepRow.escalate ctx.now)
  let decisions := s.decisions ++ [escalationRow ctx approvalId row.currentStep]
  if row.currentStep < s.maxStep approvalId then
    { s with
      approvals := s.approvals.modify approvalId (ApprovalRow.moveTo ctx.now (row.currentStep + 1))
      steps := steps.modify (approvalId, row.currentStep + 1) StepRow.activate
      decisions }
  else
    match (s.steps.find? (approvalId, row.currentStep)).bind (·.escalateToRole) with
    | none => { s with steps, decisions }
    | some role =>
      { s with
        approvals :=
          (s.approvals.modify approvalId (ApprovalRow.escalate ctx.now)).modify approvalId
            ApprovalRow.keepPending
        steps := steps.modify (approvalId, row.currentStep)
          (StepRow.reassign (s.roleMembers ctx.lower role) role)
        decisions }

theorem escalateApproval_ok {ctx : RequestCtx} {id : String} {s t : Db} {r : Response}
    (h : (escalateApproval ctx id).run s = .ok (r, t)) :
    ∃ approvalId row, parsePublicId .approval id = .ok approvalId ∧
      s.approvals.find? approvalId = some row ∧
      ((row.status ≠ .pending ∧ t = s) ∨
        (row.status = .pending ∧ t = s.escalated ctx approvalId row)) := by
  simp only [escalateApproval, Prog.run_ofExcept_bind_ok, run_fetchApproval_bind_ok] at h
  obtain ⟨approvalId, hid, _, _, row, hrow, h⟩ := h
  refine ⟨approvalId, row, hid, hrow, ?_⟩
  by_cases hst : row.status = .pending
  · rw [if_neg (not_not_intro hst)] at h
    refine .inr ⟨hst, ?_⟩
    simp only [escalatePending, Prog.run_query_bind, updateStep, Prog.run_execute_bind_ok] at h
    obtain ⟨_, h⟩ := h
    have hfind (f : ApprovalRow → ApprovalRow) :
        (s.approvals.modify approvalId f).find? approvalId = some (f row) := by
      rw [Table.find?_modify_self, hrow]
      rfl
    unfold Db.escalated
    by_cases hlt : row.currentStep < s.maxStep approvalId
    · rw [if_pos hlt]
      simp only [handOn, if_pos hlt] at h
      simp only [updateStep, bind_assoc, Prog.run_execute_bind_ok] at h
      obtain ⟨_, h⟩ := h
      have h := updateApproval_bind_ok h hrow rfl
      rw [pure_bind, insertDecision, Prog.run_execute_bind_ok] at h
      exact answerApproval_ok h.2
    · rw [if_neg hlt]
      simp only [handOn, if_neg hlt] at h
      cases hrole : (s.steps.find? (approvalId, row.currentStep)).bind (·.escalateToRole) with
      | none =>
        simp only [hrole, pure_bind, insertDecision, Prog.run_execute_bind_ok] at h
        exact answerApproval_ok h.2
      | some role =>
        simp only [hrole, updateStep, queryRoleMembers, bind_assoc, Prog.run_query_bind,
          Prog.run_execute_bind_ok] at h
        obtain ⟨_, h⟩ := h
        have h := updateApproval_bind_ok (updateApproval_bind_ok h hrow rfl) (hfind _) rfl
        rw [pure_bind, insertDecision, Prog.run_execute_bind_ok] at h
        exact answerApproval_ok h.2
  · rw [if_pos hst] at h
    exact .inl ⟨hst, answerApproval_ok h⟩

end Handlers

def RequestCtx.of (actor : Uuid) : RequestCtx where
  orgPublicId := "org"
  actorUserId := actor
  onBehalfOf := actor
  authorize _ := .ok ()
  idempotencyKey := none
  now := 0
  fresh k := 10 + k
  lower := String.toLower

def Db.onePending (steps : List (Int × StepRow)) : Db :=
  { Db.empty with
    policies := Table.empty.insert 3
      { publicId := "apl_3", name := "Expenses", subjectType := "expense", isActive := true,
        currentVersion := 1, createdAt := 0, updatedAt := 0 }
    approvals := Table.empty.insert 5
      { publicId := "apr_5", subjectType := "expense", subjectId := "exp_1", status := .pending,
        requesterUserId := 9, requesterRole := none, amountMinor := some 100, currency := some "USD",
        category := none, departmentId := none, policyId := 3, policyVersion := 1,
        policyVersionId := 4,
        routingSnapshot :=
          { policyPublicId := "apl_3", policyName := "Expenses", policyVersion := 1,
            mode := .sequential, matchCriteria := {}, steps := [], rationale := "" },
        mode := .sequential, currentStep := 1, title := "Taxi", summary := none,
        temporalWorkflowId := "org:ApprovalProcess:apr_5", createdAt := 0, updatedAt := 0 }
    steps := steps.foldl (fun t x => t.insert (5, x.1) x.2) .empty }

def StepRow.of (assignee : Uuid) (status : StepStatus) : StepRow :=
  { status, approverRole := none, assigneeUserIds := [assignee], slaSeconds := none,
    escalateToRole := some "admin" }

/-- An approval with one step, which its approver decides or which goes to the administrators. -/
def Db.oneStep : Db := .onePending [(1, .of 1 .active)]

end Noxara.Approvals
