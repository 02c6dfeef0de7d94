import Noxara.TransactionCover
import Noxara.FinanceSchema
import Noxara.JsonValues

/-! Payroll runs: a run is calculated into payslips, reviewed, approved and paid. Triggers keep an approved
run and the lines of its payslips as they are. -/
namespace Noxara.Payroll

open Transaction
open Finance (Uuid Timestamp Date AppError internal notFound)

inductive RunStatus
  | draft | calculated | inReview | approved | paid
  deriving DecidableEq

def RunStatus.text : RunStatus → String
  | draft => "draft"
  | calculated => "calculated"
  | inReview => "in_review"
  | approved => "approved"
  | paid => "paid"

structure RunRow where
  publicId : String
  status : RunStatus
  periodStart : Date
  periodEnd : Date
  currency : String
  adjustmentOfRunId : Option Uuid
  approvalId : Option String
  journalPublicId : Option String
  journalEntryId : Option Uuid
  employeeCount : Int
  grossMinor : Int
  deductionsMinor : Int
  netMinor : Int
  calculatedAt : Option Timestamp
  approvedAt : Option Timestamp
  paidAt : Option Timestamp
  version : Int
  deriving DecidableEq

inductive PayslipStatus
  | draft | issued
  deriving DecidableEq

structure PayslipRow where
  id : Uuid
  currency : String
  grossMinor : Int
  deductionsMinor : Int
  netMinor : Int
  status : PayslipStatus
  issuedAt : Option Timestamp
  version : Int
  deriving DecidableEq

inductive LineKind
  | earning | deduction
  deriving DecidableEq

structure PayslipLineRow where
  id : Uuid
  payslipId : Uuid
  runId : Uuid
  lineKind : LineKind
  componentCode : String
  label : String
  amountMinor : Int
  currency : String
  sortOrder : Int
  deriving DecidableEq

/-- A payslip is found by its run and employee, of which there is one; the ids of lines are never made up
twice. An answer that was stored for a key is the run it told of. -/
structure Db where
  runs : Table Uuid RunRow
  payslips : Table (Uuid × Uuid) PayslipRow
  lines : List PayslipLineRow
  idempotency : Table (String × String) RunRow

inductive Lock
  | run (id : Uuid)
  | payslip (key : Uuid × Uuid)
  | line (id : Uuid)
  | idempotency (scope key : String)
  deriving DecidableEq

abbrev Tx (α : Type) := Prog Db Lock AppError α

def Db.setRuns (s : Db) (f : Table Uuid RunRow → Table Uuid RunRow) : Db := { s with runs := f s.runs }

def Db.setPayslips (s : Db) (f : Table (Uuid × Uuid) PayslipRow → Table (Uuid × Uuid) PayslipRow) : Db :=
  { s with payslips := f s.payslips }

def Db.setLines (s : Db) (f : List PayslipLineRow → List PayslipLineRow) : Db :=
  { s with lines := f s.lines }

def Db.payslipsOf (runId : Uuid) (s : Db) : List ((Uuid × Uuid) × PayslipRow) :=
  s.payslips.rows.filter fun r => r.1.1 = runId

def Db.linesOf (runId : Uuid) (s : Db) : List PayslipLineRow := s.lines.filter (·.runId = runId)

def fetchRun (runId : Uuid) : Tx RunRow := do
  let row ← .query fun v => v.runs.find? runId
  .okOr row (notFound "payroll run")

/-- The trigger on updates of a run. -/
def payrollRunImmutability (old new : RunRow) : Except AppError Unit :=
  if old.status = .paid then .error (internal "paid payroll runs are immutable")
  else if old.status = .approved then
    if new.status = .paid ∧ new.periodStart = old.periodStart ∧ new.periodEnd = old.periodEnd ∧
        new.currency = old.currency ∧ new.grossMinor = old.grossMinor ∧
        new.deductionsMinor = old.deductionsMinor ∧ new.netMinor = old.netMinor ∧
        new.employeeCount = old.employeeCount ∧ new.adjustmentOfRunId = old.adjustmentOfRunId then .ok ()
    else .error (internal "approved payroll runs are immutable")
  else .ok ()

def updateRunCheck (runId : Uuid) (change : RunRow → RunRow) (v : Db) : Except AppError RunRow :=
  match v.runs.find? runId with
  | none => .error (internal "no rows returned by a query that expected to return at least one row")
  | some old => do
    payrollRunImmutability old (change old)
    if 0 ≤ (change old).grossMinor ∧ 0 ≤ (change old).deductionsMinor ∧ 0 ≤ (change old).netMinor then
      return change old
    else
      .error (internal
        "new row for relation \"people_payroll_run\" violates check constraint \"people_payroll_run_check1\"")

/-- `UPDATE people_payroll_run .. RETURNING`. -/
def updateRun (runId : Uuid) (change : RunRow → RunRow) : Tx RunRow :=
  .executeReturning (fun _ => [.run runId]) (updateRunCheck runId change)
    fun _ s => s.setRuns (·.modify runId change)

/-- The trigger on lines, from the run's status as the statement sees it. -/
def payslipLineGuard (runId : Uuid) (v : Db) : Except AppError Unit :=
  if (v.runs.find? runId).any fun r => r.status = .approved ∨ r.status = .paid then
    .error (internal "payslip lines for approved/paid runs are immutable")
  else .ok ()

/-- A line that another deleted is passed over. -/
def deleteLine (runId lineId : Uuid) : Tx Unit :=
  .execute (fun _ => [.line lineId])
    (fun v => if v.lines.any fun l => l.id = lineId ∧ l.runId = runId then payslipLineGuard runId v else .ok ())
    fun _ s => s.setLines (·.filter fun l => ¬(l.id = lineId ∧ l.runId = runId))

def deletePayslip (key : Uuid × Uuid) : Tx Unit :=
  .execute (fun _ => [.payslip key])
    (fun v =>
      if (v.payslips.find? key).any fun p => v.lines.any (·.payslipId = p.id) then
        .error (internal "update or delete on table \"people_payslip\" violates foreign key constraint \"people_payslip_line_payslip_id_fkey\" on table \"people_payslip_line\"")
      else .ok ())
    fun _ s => s.setPayslips (·.filter fun k _ => decide (k ≠ key))

/-- Each `DELETE` takes the rows that its snapshot has, and locks and deletes them one after another. -/
def clearRunPayslips (runId : Uuid) : Tx Unit := do
  let lines ← .query fun v => (v.linesOf runId).map (·.id)
  Prog.each (deleteLine runId) lines
  let employees ← .query fun v => (v.payslipsOf runId).map (·.1.2)
  Prog.each (fun e => deletePayslip (runId, e)) employees

def insertPayslip (key : Uuid × Uuid) (row : PayslipRow) : Tx Unit :=
  .execute (fun _ => [.payslip key])
    (fun v =>
      if ¬(0 ≤ row.grossMinor ∧ 0 ≤ row.deductionsMinor ∧ 0 ≤ row.netMinor) then
        .error (internal
          "new row for relation \"people_payslip\" violates check constraint \"people_payslip_check\"")
      else if key ∈ v.payslips.keys then
        .error (internal
          "duplicate key value violates unique constraint \"people_payslip_org_id_run_id_employee_id_key\"")
      else .ok ())
    fun _ s => s.setPayslips (·.insert key row)

def insertPayslipLine (row : PayslipLineRow) : Tx Unit :=
  .execute (fun _ => [.line row.id]) (payslipLineGuard row.runId) fun _ s => s.setLines (· ++ [row])

def answers : AnswerTable Db Lock RunRow where
  rows := Db.idempotency
  keep s t := { s with idempotency := t }
  lock := .idempotency

/-- An answer that was stored for the key of the request, before anything else. -/
def replayOr (scope : String) (key : Option String) (body : Tx RunRow) : Tx RunRow :=
  answers.replayOr key scope id body

def putAnswer (scope : String) (key : Option String) (answer : RunRow) : Tx Unit := answers.record key scope answer

end Noxara.Payroll
