import Noxara.FinanceStatements
import Noxara.LeaveCarryForward
import Noxara.LeaveDurations

/-! Requests for leave over the leave ledger: they are written down, submitted, decided and cancelled, and what an
approved request takes is a debit of the ledger. Versions, times, audit rows and outbox rows are left out. -/
namespace Noxara.Leave

open Transaction Words
open Finance (Uuid Date AppError Formats PublicId internal validation notFound conflict parsePublicId
  naiveDateMax)
open Authz (Principal TimeFormats)
open Workspace (forbidden enforceAnyScope)

def RequestStatus.text : RequestStatus → String
  | draft => "draft"
  | pendingApproval => "pending_approval"
  | approved => "approved"
  | rejected => "rejected"
  | cancelled => "cancelled"

/-- The public id of a request is the text of its id (`requestPublicId`). -/
structure LeaveRequestRow where
  employeeId : Uuid
  leaveTypeId : Uuid
  status : RequestStatus
  startDate : Date
  endDate : Date
  startPeriod : Period
  endPeriod : Period
  unitsMilli : Int
  timezone : String
  reason : Option String
  approvalId : Option String
  decisionNote : Option String
  ownerUserId : Uuid
  deleted : Bool
  deriving DecidableEq

structure HolidayRow where
  holidayDate : Date
  isHalfDay : Bool
  deleted : Bool

/-- What a leave type says about its requests. -/
structure TypeRules where
  allowsHalfDay : Bool
  requiresApproval : Bool

structure Employee where
  id : Uuid
  row : EmployeeRow
  userId : Option Uuid

inductive Answer
  | request (id : Uuid) (row : LeaveRequestRow)
  | entry (row : LedgerRow)
  | carryForward (resp : CarryForwardResponse)
  deriving DecidableEq

/-- The leave tables with those of the requests. `userOf` and `rules` are columns of the employees and of the leave
types. -/
structure RequestDb where
  leave : Db
  userOf : Uuid → Option Uuid
  rules : Uuid → TypeRules
  holidays : List HolidayRow
  requests : Table Uuid LeaveRequestRow
  answers : Table (String × String) Answer

inductive RequestLock
  | leave (l : Lock)
  | request (id : Uuid)
  | employee (id : Uuid)
  | answer (scope key : String)
  deriving DecidableEq

/-- How a handler leaves its transaction, or that the loop over the days has not ended. -/
inductive Ended
  | exit (e : Exit)
  | unfinished
  deriving DecidableEq

abbrev RequestTx (α : Type) := Prog RequestDb RequestLock Ended α

/-- A request: its build and caller, what loading the membership gave and what the scope of a row's owner allows,
the fresh id, the turns of the loop over the days, the id of the approval that was asked for, and the dates at its
two looks at the clock. -/
structure RequestCtx where
  build : Build
  actor : Uuid
  idemKey : Option String
  membership : Except AppError Principal
  ownerScope : Uuid → Except AppError Unit
  newId : Uuid
  newId_lt : newId < 2 ^ 128
  turns : ℕ
  approval : Option String
  today : Date
  later : Date

def lift {α : Type} (x : Except AppError α) : RequestTx α := .ofExcept (x.mapError fun e => .exit (.error e))

def ensure (c : Prop) [Decidable c] (e : AppError) : RequestTx Unit := .require c (.exit (.error e))

def orNotFound {α : Type} (x : Option α) (what : String) : RequestTx α := .okOr x (.exit (.error (notFound what)))

def noPanic {α : Type} (x : Option α) : RequestTx α := .okOr x (.exit .panicked)

def onLeaveTables {α : Type} (p : Tx α) : RequestTx α :=
  (p.mapError Ended.exit).zoom (·.leave) (fun f s => { s with leave := f s.leave }) .leave

section
variable [Formats]

def requestPublicId (id : Uuid) : String := (PublicId.mk .leaveRequest id).asStr

def parseLeaveDate (s : String) : Except AppError Date :=
  match Formats.dateParseFromStr s with
  | some d => .ok d
  | none => .error (validation s!"invalid date: {s}")

end

def parsePeriod (raw : Option String) : Except AppError Period :=
  match raw.getD "full" with
  | "full" => .ok .full
  | "am" => .ok .am
  | "pm" => .ok .pm
  | _ => .error (validation "period must be full|am|pm")

/-- A number with zeros in front. -/
def padded (width n : Nat) : String :=
  String.ofList (List.replicate (width - (toString n).length) '0') ++ toString n

def formatDays (unitsMilli : Int) : String :=
  let whole := unitsMilli.natAbs / 1000
  let frac := unitsMilli.natAbs % 1000
  let s :=
    if frac = 0 then s!"{whole}"
    else if frac % 100 = 0 then s!"{whole}.{frac / 100}"
    else if frac % 10 = 0 then s!"{whole}.{padded 2 (frac / 10)}"
    else s!"{whole}.{padded 3 frac}"
  if unitsMilli < 0 then s!"-{s}" else s

example : formatDays (-1050) = "-1.05" := by decide +kernel

def fetchLeaveRequest (id : Uuid) : RequestTx LeaveRequestRow := do
  let found ← .query fun v => (v.requests.find? id).filter (·.deleted = false)
  orNotFound found "leave request"

def fetchEmployeeRow (id : Uuid) : RequestTx (Option Employee) :=
  .query fun v => ((v.leave.employees.find? id).filter (·.deleted = false)).map fun row => ⟨id, row, v.userOf id⟩

/-- `ORDER BY created_at DESC LIMIT 1`. -/
def fetchEmployeeByUser (user : Uuid) : RequestTx (Option Employee) :=
  .query fun v =>
    let own := v.leave.employees.rows.filter fun r => r.2.deleted = false ∧ v.userOf r.1 = some user
    own.getLast?.map fun r => ⟨r.1, r.2, v.userOf r.1⟩

/-- A leave type with its rules, where `usable` says which may be taken. -/
def fetchLeaveType (id : Uuid) (usable : LeaveTypeRow → Bool) : RequestTx (Option (LeaveTypeRow × TypeRules)) :=
  .query fun v => ((v.leave.leaveTypes.find? id).filter usable).map fun lt => (lt, v.rules id)

def loadHolidays (start stop : Date) : RequestTx (List Date × List Date) :=
  .query fun v =>
    let rows := v.holidays.filter fun h => h.deleted = false ∧ start ≤ h.holidayDate ∧ h.holidayDate ≤ stop
    ((rows.filter (·.isHalfDay = false)).map (·.holidayDate), (rows.filter (·.isHalfDay = true)).map
      (·.holidayDate))

def storedAnswer (ctx : RequestCtx) (scope : String) : RequestTx (Option Answer) :=
  .query fun v => ctx.idemKey.bind fun k => v.answers.find? (scope, k)

/-- `ON CONFLICT DO NOTHING`. -/
def keepAnswer (ctx : RequestCtx) (scope : String) (answer : Answer) : RequestTx Unit :=
  match ctx.idemKey with
  | none => return ()
  | some k => .execute (fun _ => [.answer scope k]) (fun _ => .ok ()) fun _ s =>
      { s with answers := s.answers.insert (scope, k) answer }

def RequestDb.setRequests (s : RequestDb) (f : Table Uuid LeaveRequestRow → Table Uuid LeaveRequestRow) : RequestDb :=
  { s with requests := f s.requests }

def insertLeaveRequest (id : Uuid) (row : LeaveRequestRow) : RequestTx Unit :=
  .execute (fun _ => [.request id])
    (fun v =>
      if id ∈ v.requests.keys then
        .error (.exit (.error (Finance.uniqueViolation "people_leave_request_pkey")))
      else .ok ())
    fun _ s => s.setRequests (·.insert id row)

/-- `UPDATE .. RETURNING`, for a row that is there. -/
def updateLeaveRequest (id : Uuid) (change : LeaveRequestRow → LeaveRequestRow) : RequestTx LeaveRequestRow :=
  .executeReturning (fun _ => [.request id])
    (fun v =>
      match v.requests.find? id with
      | some row => .ok (change row)
      | none => .error (.exit (.error (internal
          "no rows returned by a query that expected to return at least one row"))))
    fun _ s => s.setRequests (·.modify id change)

def moveEmployee (id : Uuid) (old new : EmployeeStatus) : RequestTx Unit :=
  .execute (fun _ => [.employee id]) (fun _ => .ok ()) fun _ s =>
    { s with leave := { s.leave with employees := s.leave.employees.modify id fun e =>
        if e.deleted = false ∧ e.status = old then { e with status := new } else e } }

def markOnLeave (row : LeaveRequestRow) (today : Date) : RequestTx Unit :=
  if row.startDate ≤ today ∧ today ≤ row.endDate then moveEmployee row.employeeId .active .onLeave else return ()

def maybeClearOnLeave (employeeId : Uuid) (today : Date) : RequestTx Unit := do
  let current ← .query fun v => (v.requests.rows.filter fun r => r.2.employeeId = employeeId ∧
    r.2.deleted = false ∧
    r.2.status = .approved ∧ r.2.startDate ≤ today ∧ today ≤ r.2.endDate).length
  if current = 0 then moveEmployee employeeId .onLeave .active else return ()

section
variable [Formats]

/-- What an approved request takes. -/
def debitRow (id : Uuid) (row : LeaveRequestRow) (units : Int) (note : String) : LedgerRow :=
  ⟨row.employeeId, row.leaveTypeId, .debit, units, row.startDate, none, some id, some note,
    some (.debit (requestPublicId id)), row.ownerUserId⟩

def creditRow (id : Uuid) (row : LeaveRequestRow) (today : Date) : LedgerRow :=
  ⟨row.employeeId, row.leaveTypeId, .credit, row.unitsMilli, today, none, some id, some "cancellation credit",
    some (.cancel (requestPublicId id)), row.ownerUserId⟩

def postDebit (ctx : RequestCtx) (id : Uuid) (row : LeaveRequestRow) (note : String) : RequestTx Unit := do
  let units ← noPanic (ctx.build.arith i32 (-row.unitsMilli))
  let _ ← onLeaveTables (insertLedgerEntry (debitRow id row units note))
  return ()

/-- A leave that is paid needs the balance for it. -/
def checkBalance (ctx : RequestCtx) (employeeId leaveTypeId : Uuid) (lt : LeaveTypeRow) (row : LeaveRequestRow) :
    RequestTx Unit :=
  if lt.category = .unpaid then return ()
  else do
    let entries ← onLeaveTables (loadLedgerEntries employeeId leaveTypeId)
    let bal ← noPanic (balanceAsOf ctx.build entries row.startDate)
    ensure (row.unitsMilli ≤ bal) (conflict
      s!"insufficient leave balance: have {formatDays bal} days, need {formatDays row.unitsMilli}")

def doSubmit (ctx : RequestCtx) (publicId : String) (leaveTypeId : Uuid) (lt : LeaveTypeRow × TypeRules)
    (employeeId : Uuid) : RequestTx Answer := do
  let rid ← lift (parsePublicId .leaveRequest publicId)
  let row ← fetchLeaveRequest rid
  checkBalance ctx employeeId leaveTypeId lt.1 row
  if lt.2.requiresApproval then do
    let updated ← updateLeaveRequest rid fun r => { r with status := .pendingApproval, approvalId := ctx.approval }
    return .request rid updated
  else do
    let updated ← updateLeaveRequest rid fun r => { r with status := .approved, approvalId := none }
    postDebit ctx rid updated "auto-approved leave"
    return .request rid updated

structure CreateLeaveRequest where
  employeeId : Option String
  leaveTypeId : String
  startDate : String
  endDate : String
  startPeriod : Option String
  endPeriod : Option String
  timezone : Option String
  reason : Option String
  submit : Bool

def resolveEmployee (ctx : RequestCtx) (employeeId : Option String) : RequestTx Employee :=
  match employeeId with
  | none | some "" => do
    let found ← fetchEmployeeByUser ctx.actor
    orNotFound found "employee profile"
  | some s => do
    let eid ← lift (parsePublicId .employee s)
    let found ← fetchEmployeeRow eid
    orNotFound found "employee"

/-- Members ask for themselves only. -/
def checkSubject (ctx : RequestCtx) (principal : Principal) (emp : Employee) : RequestTx Unit :=
  if emp.userId = some ctx.actor then return ()
  else do
    lift (ctx.ownerScope emp.row.ownerUserId)
    ensure (∃ r ∈ principal.roles, r = .owner ∨ r = .admin ∨ r = .manager)
      (forbidden "cannot request leave for another employee")

def draftRequest (emp : Employee) (leaveTypeId : Uuid) (range : LeaveRange) (units : Int)
    (body : CreateLeaveRequest) : LeaveRequestRow :=
  ⟨emp.id, leaveTypeId, .draft, range.start, range.stop, range.startPeriod, range.endPeriod, units,
    body.timezone.getD "UTC", body.reason, none, none, emp.row.ownerUserId, false⟩

def createFor (ctx : RequestCtx) (principal : Principal) (start stop : Date) (startPeriod endPeriod : Period)
    (leaveTypeId : Uuid) (body : CreateLeaveRequest) : RequestTx Answer := do
  let emp ← resolveEmployee ctx body.employeeId
  checkSubject ctx principal emp
  let found ← fetchLeaveType leaveTypeId fun lt => !lt.deleted && lt.isActive
  let lt ← orNotFound found "leave type"
  ensure (lt.2.allowsHalfDay = true ∨ startPeriod = .full ∧ endPeriod = .full)
    (validation "leave type does not allow half-day")
  let holidays ← loadHolidays start stop
  let range : LeaveRange := ⟨start, stop, startPeriod, endPeriod, true, holidays.1, holidays.2⟩
  let counted ← .okOr (leaveUnitsMilli ctx.build naiveDateMax range ctx.turns) .unfinished
  let units ← noPanic counted
  ensure (0 < units) (validation "request covers no working days")
  let row := draftRequest emp leaveTypeId range units body
  insertLeaveRequest ctx.newId row
  if body.submit then doSubmit ctx (requestPublicId ctx.newId) leaveTypeId lt emp.id
  else return .request ctx.newId row

/-- The answer that is kept for the key, or the one that is made and kept now. -/
def answeredOnce (ctx : RequestCtx) (scope : String) (p : RequestTx Answer) : RequestTx Answer := do
  let stored ← storedAnswer ctx scope
  match stored with
  | some answer => return answer
  | none => do
    let answer ← p
    keepAnswer ctx scope answer
    return answer

variable [TimeFormats]

def createLeaveRequest (ctx : RequestCtx) (body : CreateLeaveRequest) : RequestTx Answer := do
  let principal ← lift ctx.membership
  lift (enforceAnyScope principal "hr.leave.write")
  let start ← lift (parseLeaveDate body.startDate)
  let stop ← lift (parseLeaveDate body.endDate)
  ensure (start ≤ stop) (validation "end_date must be >= start_date")
  let startPeriod ← lift (parsePeriod body.startPeriod)
  let endPeriod ← lift (parsePeriod body.endPeriod)
  let leaveTypeId ← lift (parsePublicId .leaveType body.leaveTypeId)
  answeredOnce ctx "leave_request.create" (createFor ctx principal start stop startPeriod endPeriod leaveTypeId body)

def submitRow (ctx : RequestCtx) (rid : Uuid) : RequestTx Answer := do
  let row ← fetchLeaveRequest rid
  lift (ctx.ownerScope row.ownerUserId)
  ensure (row.status = .draft) (conflict s!"leave request status {row.status.text} is not draft")
  let found ← fetchEmployeeRow row.employeeId
  let emp ← orNotFound found "employee"
  let foundType ← fetchLeaveType row.leaveTypeId fun _ => true
  let lt ← .okOr foundType (.exit (.error (internal
    "no rows returned by a query that expected to return at least one row")))
  doSubmit ctx (requestPublicId rid) row.leaveTypeId lt emp.id

def submitLeaveRequest (ctx : RequestCtx) (id : String) : RequestTx Answer := do
  let rid ← lift (parsePublicId .leaveRequest id)
  let principal ← lift ctx.membership
  lift (enforceAnyScope principal "hr.leave.write")
  answeredOnce ctx "leave_request.submit" (submitRow ctx rid)

def cancelLeaveRequest (ctx : RequestCtx) (id : String) : RequestTx Answer := do
  let rid ← lift (parsePublicId .leaveRequest id)
  let principal ← lift ctx.membership
  lift (enforceAnyScope principal "hr.leave.write")
  let row ← fetchLeaveRequest rid
  lift (ctx.ownerScope row.ownerUserId)
  ensure (row.status = .draft ∨ row.status = .pendingApproval ∨ row.status = .approved)
    (conflict s!"cannot cancel leave in status {row.status.text}")
  let updated ← updateLeaveRequest rid fun r => { r with status := .cancelled }
  if row.status = .approved then do
    let _ ← onLeaveTables (insertLedgerEntry (creditRow rid updated ctx.today))
    maybeClearOnLeave updated.employeeId ctx.later
    return .request rid updated
  else return .request rid updated

structure DecideLeaveRequest where
  approve : Bool
  note : Option String

def decideLeaveRequest (ctx : RequestCtx) (id : String) (body : DecideLeaveRequest) : RequestTx Answer := do
  let rid ← lift (parsePublicId .leaveRequest id)
  let principal ← lift ctx.membership
  lift (enforceAnyScope principal "hr.leave.approve")
  let row ← fetchLeaveRequest rid
  let found ← fetchEmployeeRow row.employeeId
  let emp ← orNotFound found "employee"
  ensure (emp.userId ≠ some ctx.actor) (forbidden "cannot approve own leave request")
  if row.status = .pendingApproval then
    if body.approve then do
      let updated ← updateLeaveRequest rid fun r => { r with status := .approved, decisionNote := body.note }
      postDebit ctx rid updated "leave approved"
      markOnLeave updated ctx.today
      return .request rid updated
    else do
      let updated ← updateLeaveRequest rid fun r => { r with status := .rejected, decisionNote := body.note }
      return .request rid updated
  else do
    ensure (if body.approve then row.status = .approved else row.status = .rejected)
      (conflict s!"leave request status {row.status.text} is not pending_approval")
    return .request rid row

structure AccrueLeave where
  employeeId : String
  leaveTypeId : String
  unitsMilli : Option Int
  effectiveDate : Option String
  note : Option String

def accrueFor (employeeId leaveTypeId : Uuid) (effective : Date) (body : AccrueLeave) : RequestTx Answer := do
  let found ← fetchEmployeeRow employeeId
  let emp ← orNotFound found "employee"
  let foundType ← fetchLeaveType leaveTypeId fun lt => !lt.deleted
  let lt ← orNotFound foundType "leave type"
  let units := body.unitsMilli.getD lt.1.accrualUnitsMilli
  ensure (0 < units) (validation "units_milli must be positive")
  let posted ← onLeaveTables (insertLedgerEntry
    ⟨employeeId, leaveTypeId, .accrual, units, effective, none, none, body.note, none, emp.row.ownerUserId⟩)
  return .entry posted

def accrueLeave (ctx : RequestCtx) (body : AccrueLeave) : RequestTx Answer := do
  let principal ← lift ctx.membership
  lift (enforceAnyScope principal "hr.leave.write")
  ensure (principal.roles ≠ [.member]) (forbidden "members cannot post accruals")
  let employeeId ← lift (parsePublicId .employee body.employeeId)
  let leaveTypeId ← lift (parsePublicId .leaveType body.leaveTypeId)
  let effective ← lift (match body.effectiveDate with
    | none | some "" => .ok ctx.today
    | some s => parseLeaveDate s)
  answeredOnce ctx "leave.accrue" (accrueFor employeeId leaveTypeId effective body)

/-- The requests that write the ledger. -/
inductive LeaveOp
  | create (ctx : RequestCtx) (body : CreateLeaveRequest)
  | submit (ctx : RequestCtx) (id : String)
  | cancel (ctx : RequestCtx) (id : String)
  | decide (ctx : RequestCtx) (id : String) (body : DecideLeaveRequest)
  | accrue (ctx : RequestCtx) (body : AccrueLeave)
  | carryForward (ctx : CarryForwardCtx) (year : Int)

def LeaveOp.body : LeaveOp → RequestTx Answer
  | create ctx body => createLeaveRequest ctx body
  | submit ctx id => submitLeaveRequest ctx id
  | cancel ctx id => cancelLeaveRequest ctx id
  | decide ctx id body => decideLeaveRequest ctx id body
  | accrue ctx body => accrueLeave ctx body
  | carryForward ctx year => do
    let resp ← onLeaveTables (runCarryForward ctx year)
    return .carryForward resp

end

end Noxara.Leave
