import Noxara.FinanceStatements
import Noxara.TransactionRows

/-! Reimbursement batches. Expenses are looked up and added up one after another, and then put into the batch in a
second loop. -/
namespace Noxara.Reimbursements

open Transaction
open Finance (Uuid Timestamp AppError PublicId Formats ExpenseStatus parsePublicId notFound validation
  uniqueViolation)

/-- The table's check constraint on the amount is part of the row. -/
structure ExpenseRow where
  publicId : String
  status : ExpenseStatus
  currency : String
  amountMinor : Int
  reimbursementBatchId : Option Uuid
  updatedAt : Timestamp
  positive : 0 < amountMinor

inductive BatchStatus
  | draft | pendingApproval | approved | rejected | paid
  deriving DecidableEq

def BatchStatus.asStr : BatchStatus → String
  | draft => "draft"
  | pendingApproval => "pending_approval"
  | approved => "approved"
  | rejected => "rejected"
  | paid => "paid"

structure BatchRow where
  publicId : String
  status : BatchStatus
  currency : String
  totalMinor : Int
  ownerUserId : Uuid
  approvalId : Option String := none
  createdAt : Timestamp

structure ReimbursementBatchDto where
  id : String
  status : String
  currency : String
  totalMinor : Int
  expenseIds : List String
  approvalId : Option String
  createdAt : Timestamp
  deriving DecidableEq

structure CreateReimbursementBatchRequest where
  expenseIds : List String
  currency : Option String := none

/-- `finance.reimbursement.batched`. -/
structure Batched where
  id : String
  totalMinor : Int
  expenseCount : ℕ

structure Response where
  status : ℕ
  body : ReimbursementBatchDto

structure Db where
  expenses : Table Uuid ExpenseRow
  batches : Table Uuid BatchRow
  idempotency : Table (String × String) (Int × ReimbursementBatchDto)
  outbox : List Batched

inductive RowKey
  | expense (id : Uuid)
  | batch (id : Uuid)
  | idempotency (scope key : String)
  deriving DecidableEq

abbrev Tx := Prog Db RowKey AppError

/-- `authorize` is the decision of the membership tables, `batchId` the UUID that the request draws and `approval`
the id that the project service answers with, if it does. -/
structure RequestCtx where
  actorUserId : Uuid
  authorize : Except AppError Unit
  idempotencyKey : Option String
  batchId : Uuid
  approval : Option String
  now : Timestamp

namespace Idempotency

def answers : AnswerTable Db RowKey (Int × ReimbursementBatchDto) where
  rows := Db.idempotency
  keep db t := { db with idempotency := t }
  lock := .idempotency

def record (key : Option String) (scope : String) (status : Int) (body : ReimbursementBatchDto) : Tx Unit :=
  answers.record key scope (status, body)

end Idempotency

/-- What the loop has collected: the expenses so far, their sum, and the currency that all of them have to have. -/
structure Collected where
  expenses : List Uuid
  totalMinor : Int
  currency : Option String

section
variable [Formats]

/-- One turn of the loop. The expense is read without a lock and not marked. -/
def collectExpense (raw : String) (acc : Collected) : Tx Collected := do
  let eid ← Prog.ofExcept (parsePublicId .expense raw)
  let row ← Prog.query (·.expenses.find? eid)
  let row ← Prog.okOr row (notFound "expense")
  Prog.require (row.status = .posted ∨ row.status = .approved)
    (validation s!"expense {raw} must be posted or approved (was {row.status.asStr})")
  Prog.require (row.reimbursementBatchId = none) (validation s!"expense {raw} already in a reimbursement batch")
  Prog.require (acc.currency.getD row.currency = row.currency)
    (validation "all expenses in a batch must share currency")
  let totalMinor ← Prog.ofExcept
    ((Finance.checked (acc.totalMinor + row.amountMinor)).mapError fun _ => validation "amount overflow")
  pure ⟨acc.expenses ++ [eid], totalMinor, some (acc.currency.getD row.currency)⟩

def collectExpenses : List String → Collected → Tx Collected
  | [], acc => pure acc
  | raw :: rest, acc => do collectExpenses rest (← collectExpense raw acc)

end

def insertBatch (id : Uuid) (row : BatchRow) : Tx Unit :=
  Prog.execute (fun _ => [.batch id])
    (fun v => if (v.batches.find? id).isSome then .error (uniqueViolation "finance_reimbursement_batch_pkey")
      else .ok ())
    fun _ db => { db with batches := db.batches.insert id row }

def ExpenseRow.join (batchId : Uuid) (now : Timestamp) (row : ExpenseRow) : ExpenseRow :=
  { row with
    reimbursementBatchId := some batchId
    updatedAt := now }

/-- The batch that the reference needs was written by the same transaction. -/
def joinBatch (ctx : RequestCtx) (eid : Uuid) : Tx Unit :=
  Prog.execute (fun v => if (v.expenses.find? eid).isSome then [.expense eid] else []) (fun _ => .ok ())
    fun _ db => { db with expenses := db.expenses.modify eid (·.join ctx.batchId ctx.now) }

def insertEvent (event : Batched) : Tx Unit :=
  Prog.execute (fun _ => []) (fun _ => .ok ()) fun _ db => { db with outbox := db.outbox ++ [event] }

def Db.expensesOf (db : Db) (batchId : Uuid) : List ExpenseRow :=
  db.expenses.values.filter fun x => x.reimbursementBatchId = some batchId

def Db.fetchReimbDto (db : Db) (batchId : Uuid) : Option ReimbursementBatchDto :=
  (db.batches.find? batchId).map fun row =>
    { id := row.publicId
      status := row.status.asStr
      currency := row.currency
      totalMinor := row.totalMinor
      expenseIds := (db.expensesOf batchId).map (·.publicId)
      approvalId := row.approvalId
      createdAt := row.createdAt }

/-- The approval of the batch, linked in a transaction of its own whose errors are dropped. -/
def Db.linkApproval (db : Db) (batchId : Uuid) (approvalId : String) : Db :=
  { db with batches := db.batches.modify batchId fun row => { row with approvalId := some approvalId } }

/-- The stored answer of an earlier request, or the batch. -/
inductive Answer
  | stored (status : Int) (body : ReimbursementBatchDto)
  | created (dto : ReimbursementBatchDto)

section
variable [Formats]

def RequestCtx.batchPublicId (ctx : RequestCtx) : String := PublicId.asStr ⟨.reimbursementBatch, ctx.batchId⟩

def RequestCtx.batchRow (ctx : RequestCtx) (currency : String) (totalMinor : Int) : BatchRow where
  publicId := ctx.batchPublicId
  status := .pendingApproval
  currency := currency
  totalMinor := totalMinor
  ownerUserId := ctx.actorUserId
  createdAt := ctx.now

def createBatch (ctx : RequestCtx) (body : CreateReimbursementBatchRequest) : Tx Answer := do
  let collected ← collectExpenses body.expenseIds ⟨[], 0, body.currency⟩
  insertBatch ctx.batchId (ctx.batchRow (collected.currency.getD "USD") collected.totalMinor)
  Prog.each (joinBatch ctx) collected.expenses
  insertEvent ⟨ctx.batchPublicId, collected.totalMinor, collected.expenses.length⟩
  let dto ← Prog.query fun db => db.fetchReimbDto ctx.batchId
  let dto ← Prog.okOr dto ⟨.internal, "batch missing after insert"⟩
  Idempotency.record ctx.idempotencyKey "reimbursement.batch" 201 dto
  pure (.created dto)

def batchTx (ctx : RequestCtx) (body : CreateReimbursementBatchRequest) : Tx Answer :=
  Idempotency.answers.replayOr ctx.idempotencyKey "reimbursement.batch" (fun stored => .stored stored.1 stored.2)
    (createBatch ctx body)

/-- What the handler answers once its transaction has committed, and the store when the approval is linked. -/
def answerWith (ctx : RequestCtx) (t : Db) : Answer → Response × Db
  | .stored status body => (⟨Finance.Idempotency.statusFromU16 status 201, body⟩, t)
  | .created dto =>
    match ctx.approval with
    | none => (⟨201, dto⟩, t)
    | some approvalId => (⟨201, { dto with approvalId := some approvalId }⟩, t.linkApproval ctx.batchId approvalId)

def createReimbursementBatch (ctx : RequestCtx) (body : CreateReimbursementBatchRequest) (s : Db) :
    Except AppError (Response × Db) := do
  ctx.authorize
  if body.expenseIds.isEmpty then .error (validation "expense_ids required")
  else do
    let r ← (batchTx ctx body).run s
    .ok (answerWith ctx r.2 r.1)

end

end Noxara.Reimbursements
