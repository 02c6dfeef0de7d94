import Noxara.PayrollRuns

/-! What the handlers of a payroll run do: the figures of a payslip, and the transactions. -/
namespace Noxara.Payroll

open Transaction
open Finance (Uuid Timestamp Date Formats AppError internal validation conflict i64Max saturateI64 wrapI64
  stripPrefix naiveDateMax)

inductive CalcMethod
  | fixedFromComp | rateXHours | unpaidLeaveProration | percentOfGross | fixedAmount
  deriving DecidableEq

structure ComponentRow where
  code : String
  label : String
  lineKind : LineKind
  calcMethod : CalcMethod
  configJson : Json
  sortOrder : Int

def saturatingMul (a b : Int) : Int := saturateI64 (a * b)

def saturatingSub (a b : Int) : Int := saturateI64 (a - b)

/-- `as_i64`. -/
def asI64 : Json → Option Int
  | .number (.posInt n) => if (n : Int) ≤ i64Max then some n else none
  | .number (.negInt n) => some n
  | _ => none

def configI64 (comp : ComponentRow) (field : String) : Int := ((comp.configJson.get field).bind asI64).getD 0

/-- What the queries for one employee found: the salary in force, decrypted, with its currency, the unpaid
leave and the hours worked. -/
structure EmployeeInputs where
  employeeId : Uuid
  salary : Option (Int × String)
  unpaidMilli : Int
  otHoursMilli : Int

def computeLineAmount (comp : ComponentRow) (salary unpaidMilli workingDays otHoursMilli : Int) : Int :=
  match comp.calcMethod with
  | .fixedFromComp => salary
  | .unpaidLeaveProration =>
    let denom := workingDays * 1000
    if denom > 0 then (saturatingMul salary unpaidMilli).tdiv denom else 0
  | .rateXHours => (saturatingMul (configI64 comp "overtime_rate_minor") otHoursMilli).tdiv 1000
  | .fixedAmount => configI64 comp "fixed_amount_minor"
  | .percentOfGross => 0

structure LineDraft where
  lineKind : LineKind
  componentCode : String
  label : String
  amountMinor : Int
  sortOrder : Int

structure SlipDraft where
  grossMinor : Int
  deductionsMinor : Int
  lines : List LineDraft

/-- Unchecked sums are words. -/
def SlipDraft.add (d : SlipDraft) (comp : ComponentRow) (amount : Int) : SlipDraft :=
  let line : LineDraft := ⟨comp.lineKind, comp.code, comp.label, amount, comp.sortOrder⟩
  let gross : SlipDraft := ⟨wrapI64 (d.grossMinor + amount), d.deductionsMinor, d.lines ++ [line]⟩
  let deductions : SlipDraft := ⟨d.grossMinor, wrapI64 (d.deductionsMinor + amount), d.lines ++ [line]⟩
  match comp.calcMethod with
  | .fixedFromComp | .rateXHours => gross
  | .unpaidLeaveProration => ⟨saturatingSub d.grossMinor amount, d.deductionsMinor, d.lines ++ [line]⟩
  | .fixedAmount | .percentOfGross => if comp.lineKind = .earning then gross else deductions

def addFixed (salary workingDays : Int) (e : EmployeeInputs) (d : SlipDraft) (comp : ComponentRow) : SlipDraft :=
  if comp.calcMethod = .percentOfGross then d
  else
    let amount := computeLineAmount comp salary e.unpaidMilli workingDays e.otHoursMilli
    if amount = 0 then d else d.add comp amount

def addPercent (d : SlipDraft) (comp : ComponentRow) : SlipDraft :=
  if comp.calcMethod ≠ .percentOfGross ∨ comp.lineKind ≠ .deduction then d
  else
    let amount := (saturatingMul d.grossMinor (configI64 comp "percent_bps")).tdiv 10000
    if amount = 0 then d
    else ⟨d.grossMinor, wrapI64 (d.deductionsMinor + amount),
      d.lines ++ [⟨.deduction, comp.code, comp.label, amount, comp.sortOrder⟩]⟩

/-- The payslip of one employee; none without a salary in the run's currency, or where nothing is paid. -/
def draftSlip (components : List ComponentRow) (currency : String) (workingDays : Int) (e : EmployeeInputs) :
    Option SlipDraft :=
  e.salary.bind fun salary =>
    if salary.2 ≠ currency then none
    else
      let fixed := components.foldl (addFixed salary.1 workingDays e) ⟨0, 0, []⟩
      let d := components.foldl addPercent fixed
      if d.grossMinor = 0 ∧ d.deductionsMinor = 0 then none else some d

/-- A calculation: the clock, the key of the request, what its queries of the components and of the employees
found, and the ids that it makes up. -/
structure CalculateCtx where
  now : Timestamp
  idemKey : Option String
  components : List ComponentRow
  employees : List EmployeeInputs
  payslipId : Uuid → Uuid
  lineId : Uuid → Nat → Uuid

/-- The sums so far. -/
structure Totals where
  grossMinor : Int
  deductionsMinor : Int
  netMinor : Int
  empCount : Int

def Totals.zero : Totals := ⟨0, 0, 0, 0⟩

def Totals.add (t : Totals) (row : PayslipRow) : Totals :=
  ⟨wrapI64 (t.grossMinor + row.grossMinor), wrapI64 (t.deductionsMinor + row.deductionsMinor),
    wrapI64 (t.netMinor + row.netMinor), t.empCount + 1⟩

def payslipRow (id : Uuid) (currency : String) (d : SlipDraft) : PayslipRow :=
  ⟨id, currency, d.grossMinor, d.deductionsMinor, wrapI64 (d.grossMinor - d.deductionsMinor), .draft, none, 1⟩

def payslipLines (ctx : CalculateCtx) (runId employeeId : Uuid) (currency : String) (d : SlipDraft) :
    List PayslipLineRow :=
  d.lines.zipIdx.map fun l =>
    ⟨ctx.lineId employeeId l.2, ctx.payslipId employeeId, runId, l.1.lineKind, l.1.componentCode, l.1.label,
      l.1.amountMinor, currency, l.1.sortOrder⟩

def insertPayslips (ctx : CalculateCtx) (runId : Uuid) (currency : String) (workingDays : Int) :
    List EmployeeInputs → Totals → Tx Totals
  | [], totals => return totals
  | e :: es, totals =>
    match draftSlip ctx.components currency workingDays e with
    | none => insertPayslips ctx runId currency workingDays es totals
    | some d => do
      let row := payslipRow (ctx.payslipId e.employeeId) currency d
      insertPayslip (runId, e.employeeId) row
      Prog.each insertPayslipLine (payslipLines ctx runId e.employeeId currency d)
      insertPayslips ctx runId currency workingDays es (totals.add row)

def calculatedRun (now : Timestamp) (t : Totals) (r : RunRow) : RunRow :=
  { r with
    status := .calculated
    calculatedAt := some now
    employeeCount := t.empCount
    grossMinor := t.grossMinor
    deductionsMinor := t.deductionsMinor
    netMinor := t.netMinor
    version := r.version + 1 }

def mutableRunStatuses : List RunStatus := [.draft, .calculated]

def clearCalculated (status : RunStatus) (runId : Uuid) : Tx Unit :=
  if status = .calculated then clearRunPayslips runId else return ()

def calculateRun (ctx : CalculateCtx) (runId : Uuid) : Tx RunRow :=
  replayOr "payroll.calculate" ctx.idemKey do
    let run ← fetchRun runId
    .require (run.status ≠ .approved ∧ run.status ≠ .paid)
      (conflict "approved or paid payroll runs cannot be recalculated")
    .require (run.status ∈ mutableRunStatuses)
      (conflict s!"payroll run status {run.status.text} cannot be calculated")
    clearCalculated run.status runId
    -- the count of the weekdays panics where no day follows the last
    .require (run.periodEnd < naiveDateMax) (internal "\x60NaiveDate + TimeDelta\x60 overflowed")
    let workingDays := Date.countWeekdays run.periodStart run.periodEnd
    .require (workingDays ≠ 0) (validation "pay period has no working days")
    let totals ← insertPayslips ctx runId run.currency workingDays ctx.employees .zero
    let updated ← updateRun runId (calculatedRun ctx.now totals)
    putAnswer "payroll.calculate" ctx.idemKey updated
    return updated

/-- `reject_immutable`. -/
def rejectImmutable (status : RunStatus) : Tx Unit :=
  .require (status ≠ .approved ∧ status ≠ .paid) (conflict "approved or paid payroll runs are immutable")

def submittedRun (approvalId : Option String) (r : RunRow) : RunRow :=
  { r with status := .inReview, approvalId := approvalId, version := r.version + 1 }

/-- `approvalId` is the answer of the approval service. -/
def submitRun (approvalId : Option String) (runId : Uuid) : Tx RunRow := do
  let run ← fetchRun runId
  rejectImmutable run.status
  .require (run.status = .calculated) (conflict s!"payroll run status {run.status.text} is not calculated")
  updateRun runId (submittedRun approvalId)

def approvedRun (now : Timestamp) (r : RunRow) : RunRow :=
  { r with status := .approved, approvedAt := some now, version := r.version + 1 }

def doApproveRun (now : Timestamp) (runId : Uuid) : Tx RunRow := updateRun runId (approvedRun now)

def approveRun (now : Timestamp) (idemKey : Option String) (runId : Uuid) : Tx RunRow :=
  replayOr "payroll.approve" idemKey do
    let run ← fetchRun runId
    if run.status = .approved ∨ run.status = .paid then return run
    else do
      .require (run.status = .inReview ∨ run.status = .calculated)
        (conflict s!"payroll run status {run.status.text} cannot be approved")
      let updated ← doApproveRun now runId
      putAnswer "payroll.approve" idemKey updated
      return updated

def returnedRun (r : RunRow) : RunRow := { r with status := .calculated, version := r.version + 1 }

def decideRun (now : Timestamp) (approve : Bool) (runId : Uuid) : Tx RunRow := do
  let run ← fetchRun runId
  if run.status = .approved ∨ run.status = .paid then return run
  else do
    .require (run.status = .inReview ∨ run.status = .calculated)
      (conflict s!"payroll run status {run.status.text} cannot be decided")
    if approve then doApproveRun now runId else updateRun runId returnedRun

structure JournalLine where
  accountCode : String
  debitMinor : Int
  creditMinor : Int
  memo : String
  deriving DecidableEq

/-- A request to post a journal; the source id is sent as text. -/
structure JournalRequest where
  sourceType : String
  sourceId : Uuid
  currency : String
  memo : String
  lines : List JournalLine
  deriving DecidableEq

def payrollJournal (runId : Uuid) (run : RunRow) : JournalRequest where
  sourceType := "payroll"
  sourceId := runId
  currency := run.currency
  memo := s!"Payroll {run.periodStart.display} — {run.periodEnd.display}"
  lines :=
    (if run.grossMinor > 0 then [⟨"5100", run.grossMinor, 0, "Wages"⟩] else []) ++
    (if run.deductionsMinor > 0 then [⟨"2300", 0, run.deductionsMinor, "Deductions"⟩] else []) ++
    (if run.netMinor > 0 then [⟨"2400", 0, run.netMinor, "Net pay"⟩] else [])

/-- How the finance service answers, if its answer arrives. -/
inductive JournalReply
  | posted (id : String)
  | missingId
  | refused (status body : String)
  | lost (arrived : Bool) (error : String)

/-- Did finance post the request? -/
def JournalReply.arrived : JournalReply → Bool
  | posted _ => true
  | missingId => true
  | refused _ _ => false
  | lost arrived _ => arrived

def JournalReply.publicId : JournalReply → Except AppError String
  | posted id => .ok id
  | missingId => .error ⟨.internal, "finance journal response missing id"⟩
  | refused status body => .error ⟨.internal, s!"finance journal post failed: {status} {body}"⟩
  | lost _ e => .error ⟨.internal, s!"finance journal request failed: {e}"⟩

structure PayCtx where
  now : Timestamp
  idemKey : Option String
  reply : JournalReply

def issuedPayslip (now : Timestamp) (p : PayslipRow) : PayslipRow :=
  { p with status := .issued, issuedAt := some now, version := p.version + 1 }

def issuePayslip (now : Timestamp) (key : Uuid × Uuid) : Tx Unit :=
  .execute (fun _ => [.payslip key]) (fun _ => .ok ()) fun _ s =>
    s.setPayslips (·.modify key (issuedPayslip now))

section
variable [Formats]

def paidRun (now : Timestamp) (journalPublicId : String) (r : RunRow) : RunRow :=
  { r with
    status := .paid
    paidAt := some now
    journalPublicId := some journalPublicId
    journalEntryId := (stripPrefix journalPublicId "jrn_").bind Formats.uuidParseStr
    version := r.version + 1 }

/-- The request to finance stands where the reply is looked at. -/
def payRun (ctx : PayCtx) (runId : Uuid) : Tx RunRow :=
  replayOr "payroll.pay" ctx.idemKey do
    let run ← fetchRun runId
    if run.status = .paid then return run
    else do
      .require (run.status = .approved) (conflict s!"payroll run status {run.status.text} is not approved")
      let reply ← .query fun _ => ctx.reply
      let journalPublicId ← .ofExcept reply.publicId
      let updated ← updateRun runId (paidRun ctx.now journalPublicId)
      let employees ← .query fun v => (v.payslipsOf runId).map (·.1.2)
      Prog.each (fun e => issuePayslip ctx.now (runId, e)) employees
      putAnswer "payroll.pay" ctx.idemKey updated
      return updated

inductive PayrollOp
  | calculate (ctx : CalculateCtx) (runId : Uuid)
  | submit (approvalId : Option String) (runId : Uuid)
  | approve (now : Timestamp) (idemKey : Option String) (runId : Uuid)
  | decide (now : Timestamp) (accept : Bool) (runId : Uuid)
  | pay (ctx : PayCtx) (runId : Uuid)

def PayrollOp.body : PayrollOp → Tx RunRow
  | calculate ctx runId => calculateRun ctx runId
  | submit approvalId runId => submitRun approvalId runId
  | approve now idemKey runId => approveRun now idemKey runId
  | decide now accept runId => decideRun now accept runId
  | pay ctx runId => payRun ctx runId

end

end Noxara.Payroll
