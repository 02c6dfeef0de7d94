import Noxara.ApprovalRouting

/-! The statements the approval handlers share: the idempotency store, reads of an approval
with its steps, and updates of both. -/
namespace Noxara.Approvals

open Transaction
open Finance (Uuid AppError PublicId Formats notFound foundOr uniqueViolation)

namespace Idempotency

def answers : AnswerTable Db RowKey StoredResponse where
  rows := Db.idempotency
  keep db t := { db with idempotency := t }
  lock := .idempotency

def replayOr (key : Option String) (scope : String) (answer : StoredResponse → Response)
    (handler : Tx Response) : Tx Response := answers.replayOr key scope answer handler

def record (key : Option String) (scope : String) (status : Int) (body : ApprovalDto) : Tx Unit :=
  answers.record key scope ⟨status, body⟩

theorem replayOr_ok {key : Option String} {scope : String} {answer : StoredResponse → Response}
    {handler : Tx Response} {s t : Db} {r : Response}
    (h : (replayOr key scope answer handler).run s = .ok (r, t)) :
    (t = s ∧ ∃ k stored, key = some k ∧ s.idempotency.find? (scope, k) = some stored) ∨
      handler.run s = .ok (r, t) := by
  rcases AnswerTable.replayOr_ok.mp h with ⟨stored, hstored, heq⟩ | ⟨-, hrun⟩
  · obtain ⟨k, hkey, hfind⟩ := Option.bind_eq_some_iff.mp hstored
    cases heq
    exact .inl ⟨rfl, k, stored, hkey, hfind⟩
  · exact .inr hrun

theorem record_ok {key : Option String} {scope : String} {status : Int} {body : ApprovalDto}
    {s : Db} {r : Unit × Db} (h : (record key scope status body).run s = .ok r) :
    ∃ idempotency, r.2 = { s with idempotency } := by
  rw [(AnswerTable.run_record_ok (t := answers) fun _ => rfl).mp h]
  exact ⟨_, rfl⟩

end Idempotency

def Db.approvalWithPolicy (db : Db) (id : Uuid) : Option (ApprovalRow × PolicyRow) :=
  (db.approvals.find? id).bind fun row => (db.policies.find? row.policyId).map fun policy => (row, policy)

def Db.stepsOf (db : Db) (approvalId : Uuid) : List (Int × StepRow) :=
  (db.steps.rows.filterMap fun r => if r.1.1 = approvalId then some (r.1.2, r.2) else none).insertionSort
    fun a b => a.1 ≤ b.1

def Db.stepOrders (db : Db) (approvalId : Uuid) : List Int :=
  db.steps.rows.filterMap fun r => if r.1.1 = approvalId then some r.1.2 else none

/-- `COALESCE(MAX(step_order), 0)`. -/
def Db.maxStep (db : Db) (approvalId : Uuid) : Int := (db.stepOrders approvalId).max?.getD 0

section
variable [Formats]

def userPub (u : Uuid) : String := (PublicId.mk .user u).asStr

def StepRow.dto (order : Int) (x : StepRow) : ApprovalStepDto where
  order
  status := x.status
  approverRole := x.approverRole
  assigneeUserIds := x.assigneeUserIds.map userPub
  slaSeconds := x.slaSeconds
  escalateToRole := x.escalateToRole
  escalatedAt := x.escalatedAt
  decidedAt := x.decidedAt
  decidedBy := x.decidedBy.map userPub

def ApprovalRow.dto (policyPublicId : String) (steps : List (Int × StepRow)) (a : ApprovalRow) :
    ApprovalDto where
  id := a.publicId
  subjectType := a.subjectType
  subjectId := a.subjectId
  status := a.status
  requesterUserId := userPub a.requesterUserId
  amountMinor := a.amountMinor
  currency := a.currency
  category := a.category
  title := a.title
  summary := a.summary
  mode := a.mode
  currentStep := a.currentStep
  policyId := policyPublicId
  policyVersion := a.policyVersion
  routingSnapshot := a.routingSnapshot
  steps := steps.map fun x => x.2.dto x.1
  decidedAt := a.decidedAt
  decidedBy := a.decidedBy.map userPub
  decisionNote := a.decisionNote
  createdAt := a.createdAt
  updatedAt := a.updatedAt

def fetchApprovalDto (id : Uuid) (missing : AppError) : Tx ApprovalDto := do
  let row ← Prog.query (·.approvalWithPolicy id)
  let row ← Prog.ofExcept (foundOr row missing)
  let steps ← Prog.query (·.stepsOf id)
  pure (row.1.dto row.2.publicId steps)

def answerApproval (id : Uuid) : Tx Response := do
  let dto ← fetchApprovalDto id (notFound "approval")
  pure (.approval 200 dto)

end

def fetchApproval (id : Uuid) : Tx ApprovalRow := do
  let row ← Prog.query (·.approvals.find? id)
  Prog.ofExcept (foundOr row (notFound "approval"))

/-- `UPDATE operations_approval SET .. WHERE id = $2 AND cond`, with the number of rows it hit. -/
def updateApproval (id : Uuid) (cond : ApprovalRow → Bool) (f : ApprovalRow → ApprovalRow) : Tx Nat :=
  Prog.executeReturning (fun v => if (v.approvals.find? id).any cond then [.approval id] else [])
    (fun v => .ok (if (v.approvals.find? id).any cond then 1 else 0))
    fun v db =>
      if (v.approvals.find? id).any cond then { db with approvals := db.approvals.modify id f } else db

def updateStep (approvalId : Uuid) (order : Int) (f : StepRow → StepRow) : Tx Unit :=
  Prog.execute (fun v => if (v.steps.find? (approvalId, order)).isSome then [.step approvalId order] else [])
    (fun _ => .ok ())
    fun _ db => { db with steps := db.steps.modify (approvalId, order) f }

def insertDecision (row : DecisionRow) : Tx Unit :=
  Prog.execute (fun _ => row.idempotencyKey.toList.map (.decision row.approvalId))
    (fun v =>
      if row.idempotencyKey.isSome ∧
          ∃ d ∈ v.decisions, d.approvalId = row.approvalId ∧ d.idempotencyKey = row.idempotencyKey then
        .error (uniqueViolation "operations_approval_decision_idem_idx")
      else .ok ())
    fun _ db => { db with decisions := db.decisions ++ [row] }

section
variable [Formats]

theorem fetchApprovalDto_ok {id : Uuid} {missing : AppError} {s : Db} {r : ApprovalDto × Db}
    (h : (fetchApprovalDto id missing).run s = .ok r) : r.2 = s := by
  simp only [fetchApprovalDto, Prog.run_query_bind, Prog.run_ofExcept_bind_ok] at h
  obtain ⟨_, _, h⟩ := h
  cases h
  rfl

theorem answerApproval_ok {id : Uuid} {s t : Db} {r : Response}
    (h : (answerApproval id).run s = .ok (r, t)) : t = s := by
  obtain ⟨_, _, hd, h⟩ := Prog.run_bind_ok.mp h
  have hs := fetchApprovalDto_ok hd
  cases h
  exact hs

end

theorem run_fetchApproval_bind_ok {β : Type} {id : Uuid} {f : ApprovalRow → Tx β} {s : Db}
    {r : β × Db} : (fetchApproval id >>= f).run s = .ok r ↔
      ∃ row, s.approvals.find? id = some row ∧ (f row).run s = .ok r := by
  simp [fetchApproval, bind_assoc]

theorem updateApproval_bind_ok {β : Type} {id : Uuid} {cond : ApprovalRow → Bool}
    {f : ApprovalRow → ApprovalRow} {g : Nat → Tx β} {s : Db} {r : β × Db} {a : ApprovalRow}
    (h : (updateApproval id cond f >>= g).run s = .ok r) (ha : s.approvals.find? id = some a)
    (hc : cond a = true) :
    (g 1).run { s with approvals := s.approvals.modify id f } = .ok r := by
  have hany : (s.approvals.find? id).any cond = true := by rw [ha]; exact hc
  simpa [updateApproval, Prog.run_bind_ok, hany] using h

end Noxara.Approvals
