import Noxara.FinanceStatements
import Noxara.LeaveCarryForward
import Noxara.TransactionRows
import Mathlib.Data.List.Sort

/-! Timesheets of a week and their time entries: a member writes entries into a draft, submits the sheet, and it
is approved or rejected with its entries. Versions, times, audit rows and outbox rows are left out. -/
namespace Noxara.Timesheets

open Transaction
open Finance (Uuid Date AppError Formats validation notFound conflict uniqueViolation trim parsePublicId)
open Authz (Principal TimeFormats)
open Workspace (forbidden enforceAnyScope)
open Leave (Exit plusDays)

inductive Status
  | draft | submitted | approved | rejected
  deriving DecidableEq

def Status.text : Status → String
  | draft => "draft"
  | submitted => "submitted"
  | approved => "approved"
  | rejected => "rejected"

/-- The public id of a timesheet is the text of its id, as is that of an entry. -/
structure TimesheetRow where
  membershipUserId : Uuid
  weekStart : Date
  status : Status
  approvedBy : Option Uuid
  notes : Option String
  deriving DecidableEq

/-- What a request may change of an entry. -/
structure EntryFields where
  projectId : Uuid
  taskId : Option Uuid
  entryDate : Date
  minutes : Int
  billable : Bool
  notes : Option String
  deriving DecidableEq

structure EntryRow where
  membershipUserId : Uuid
  fields : EntryFields
  timesheetId : Option Uuid
  status : Status
  deriving DecidableEq

inductive Answer
  | timesheet (id : Uuid) (row : TimesheetRow) (entries : List (Uuid × EntryRow))
  | entry (id : Uuid) (row : EntryRow)
  deriving DecidableEq

structure Reply where
  status : Nat
  body : Answer
  deriving DecidableEq

/-- The timesheets of an organisation. `projects` and `tasks` are the ones that are not deleted, a task with its
project; the requests here only read them. -/
structure SheetDb where
  projects : List Uuid
  tasks : List (Uuid × Uuid)
  sheets : Table Uuid TimesheetRow
  entries : Table Uuid EntryRow
  replies : Table String Reply

inductive Lock
  | sheet (id : Uuid)
  | week (membershipUserId : Uuid) (weekStart : Date)
  | entry (id : Uuid)
  | reply (key : String)
  deriving DecidableEq

abbrev SheetTx (α : Type) := Prog SheetDb Lock Exit α

/-- A request: its caller and key, what loading the membership gave, and the fresh id. -/
structure SheetCtx where
  actor : Uuid
  idemKey : Option String
  membership : Except AppError Principal
  newId : Uuid

def lift {α : Type} (x : Except AppError α) : SheetTx α := .ofExcept (x.mapError .error)

def orNotFound {α : Type} (x : Option α) (what : String) : SheetTx α := .okOr x (.error (notFound what))

def noPanic {α : Type} (x : Option α) : SheetTx α := .okOr x .panicked

/-- `none` is a panic, here and below. -/
def mondayOf (date : Date) : Option Date := plusDays date (-date.numDaysFromMonday)

def weekEnd (weekStart : Date) : Option Date := plusDays weekStart 6

example : mondayOf ⟨2026, 3, 4, by decide⟩ = some ⟨2026, 3, 2, by decide⟩ := by decide +kernel

/-- A year of more than four places is written with its sign. -/
def displayDate (d : Date) : String :=
  if 0 ≤ d.year ∧ d.year ≤ 9999 then d.display
  else if 0 ≤ d.year then "+" ++ d.display
  else Finance.zeroPad 5 d.year ++ "-" ++ Finance.zeroPad 2 d.month ++ "-" ++ Finance.zeroPad 2 d.day

def dateInWeek (date weekStart : Date) : SheetTx Unit := do
  let stop ← noPanic (weekEnd weekStart)
  .require (weekStart ≤ date ∧ date ≤ stop)
    (.error (validation s!"entry_date must fall within the week {displayDate weekStart}..={displayDate stop}"))

section
variable [Formats]

def parseDate (raw field : String) : Except AppError Date :=
  match Formats.dateParseFromStr raw with
  | some d => .ok d
  | none => .error (validation s!"{field} must be YYYY-MM-DD")

def parseUserRef (raw : String) : Except AppError Uuid :=
  match Formats.uuidParseStr raw with
  | some u => .ok u
  | none => parsePublicId .user raw

end

def canSelfApprove (membership : Principal) : Bool :=
  membership.roles.any fun r => r = .owner || r = .admin || r = .manager

section
variable [TimeFormats]

def canManageOthers (membership : Principal) : Bool :=
  canSelfApprove membership || (Authz.decide membership "operations.timesheet.approve").decision = .allow

def assertCanEditDraft (ctx : SheetCtx) (membership : Principal) (sheet : TimesheetRow) : Except AppError Unit := do
  enforceAnyScope membership "operations.timesheet.write"
  if sheet.status = .draft then
    if sheet.membershipUserId = ctx.actor ∨ canManageOthers membership = true then .ok ()
    else .error (forbidden "cannot edit another member's draft timesheet")
  else if sheet.membershipUserId = ctx.actor then
    .error (conflict s!"timesheet is {sheet.status.text} and cannot be edited by owner")
  else enforceAnyScope membership "operations.timesheet.approve"

end

def SheetDb.entriesOf (s : SheetDb) (timesheetId : Uuid) : List (Uuid × EntryRow) :=
  (s.entries.rows.filter fun r => r.2.timesheetId = some timesheetId).insertionSort
    fun a b => a.2.fields.entryDate ≤ b.2.fields.entryDate

def SheetDb.sheetOf (s : SheetDb) (user : Uuid) (weekStart : Date) : Option (Uuid × TimesheetRow) :=
  s.sheets.rows.find? fun r => r.2.membershipUserId = user ∧ r.2.weekStart = weekStart

def fetchTimesheet (id : Uuid) : SheetTx TimesheetRow := do
  let found ← .query fun v => v.sheets.find? id
  orNotFound found "timesheet"

def fetchEntry (id : Uuid) : SheetTx EntryRow := do
  let found ← .query fun v => v.entries.find? id
  orNotFound found "time entry"

section
variable [Formats]

def resolveProject (projectPublic : String) : SheetTx Uuid := do
  let pid ← lift (parsePublicId .project projectPublic)
  let found ← .query fun v => v.projects.find? (· = pid)
  orNotFound found "project"

def resolveTask (projectId : Uuid) (taskPublic : Option String) : SheetTx (Option Uuid) :=
  match taskPublic.filter fun s => trim s ≠ "" with
  | none => return none
  | some raw => do
    let tid ← lift (parsePublicId .task raw)
    let found ← .query fun v => v.tasks.find? (· = (tid, projectId))
    let task ← orNotFound found "task"
    return some task.1

end

def SheetDb.setSheets (s : SheetDb) (f : Table Uuid TimesheetRow → Table Uuid TimesheetRow) : SheetDb :=
  { s with sheets := f s.sheets }

def SheetDb.setEntries (s : SheetDb) (f : Table Uuid EntryRow → Table Uuid EntryRow) : SheetDb :=
  { s with entries := f s.entries }

/-- `ON CONFLICT DO NOTHING`. -/
def putReply (ctx : SheetCtx) (reply : Reply) : SheetTx Unit :=
  match ctx.idemKey with
  | none => return ()
  | some k => .execute (fun _ => [.reply k]) (fun _ => .ok ()) fun _ s => { s with replies := s.replies.insert k reply }

def insertTimesheet (id : Uuid) (row : TimesheetRow) : SheetTx Unit :=
  .execute (fun _ => [.sheet id, .week row.membershipUserId row.weekStart])
    (fun v =>
      if id ∈ v.sheets.keys then .error (.error (uniqueViolation "operations_timesheet_pkey"))
      else if (v.sheetOf row.membershipUserId row.weekStart).isSome then
        .error (.error (uniqueViolation "operations_timesheet_org_id_membership_user_id_week_start_key"))
      else .ok ())
    fun _ s => s.setSheets (·.insert id row)

def updateTimesheet (id : Uuid) (change : TimesheetRow → TimesheetRow) : SheetTx Unit :=
  .execute (fun _ => [.sheet id]) (fun _ => .ok ()) fun _ s => s.setSheets (·.modify id change)

def insertEntry (id : Uuid) (row : EntryRow) : SheetTx Unit :=
  .execute (fun _ => [.entry id])
    (fun v =>
      if id ∈ v.entries.keys then .error (.error (uniqueViolation "operations_time_entry_pkey")) else .ok ())
    fun _ s => s.setEntries (·.insert id row)

def updateEntry (id : Uuid) (fields : EntryFields) : SheetTx Unit :=
  .execute (fun _ => [.entry id]) (fun _ => .ok ()) fun _ s =>
    s.setEntries (·.modify id fun e => { e with fields := fields })

/-- A row that is moved is looked at again under its lock. -/
def moveEntry (timesheetId : Uuid) (old new : Status) (id : Uuid) : SheetTx Unit :=
  .execute (fun _ => [.entry id]) (fun _ => .ok ()) fun _ s =>
    s.setEntries (·.modify id fun e =>
      if e.timesheetId = some timesheetId ∧ e.status = old then { e with status := new } else e)

/-- `UPDATE .. WHERE timesheet_id = $2 AND status = ..`. -/
def moveEntries (timesheetId : Uuid) (old new : Status) : SheetTx Unit := do
  let rows ← .query fun v => (v.entriesOf timesheetId).filter fun r => r.2.status = old
  .each (moveEntry timesheetId old new) (rows.map Prod.fst)

def fullTimesheet (id : Uuid) : SheetTx Answer := do
  let row ← fetchTimesheet id
  let entries ← .query (·.entriesOf id)
  return .timesheet id row entries

structure CreateTimesheetRequest where
  weekStart : String
  membershipUserId : Option String
  notes : Option String

structure UpsertTimeEntryRequest where
  id : Option String
  projectId : String
  taskId : Option String
  entryDate : String
  minutes : Int
  billable : Option Bool
  notes : Option String

structure PatchTimeEntryRequest where
  projectId : Option String
  taskId : Option String
  entryDate : Option String
  minutes : Option Int
  billable : Option Bool
  notes : Option String

def openWeek (ctx : SheetCtx) (user : Uuid) (weekStart : Date) (notes : Option String) : SheetTx Reply := do
  let existing ← .query (·.sheetOf user weekStart)
  match existing with
  | some (id, row) => do
    let entries ← .query (·.entriesOf id)
    putReply ctx ⟨200, .timesheet id row entries⟩
    return ⟨200, .timesheet id row entries⟩
  | none => do
    insertTimesheet ctx.newId ⟨user, weekStart, .draft, none, notes⟩
    let row ← fetchTimesheet ctx.newId
    putReply ctx ⟨201, .timesheet ctx.newId row []⟩
    return ⟨201, .timesheet ctx.newId row []⟩

/-- What an update without an id writes down. -/
def newEntry (timesheetId : Uuid) (sheet : TimesheetRow) (fields : EntryFields) : EntryRow :=
  ⟨sheet.membershipUserId, fields, some timesheetId, .draft⟩

def sameSheet (existing : EntryRow) (timesheetId : Uuid) : SheetTx Unit :=
  .require (existing.timesheetId = some timesheetId) (.error (validation "entry does not belong to this timesheet"))

def draftOnly (existing : EntryRow) (sheet : TimesheetRow) (detail : String) : SheetTx Unit :=
  .require (existing.status = .draft ∨ sheet.status = .draft) (.error (conflict detail))

section
variable [Formats] [TimeFormats]

def targetUser (ctx : SheetCtx) (membership : Principal) (raw : Option String) : Except AppError Uuid :=
  match raw with
  | none => .ok ctx.actor
  | some s => do
    let uid ← parseUserRef s
    if uid ≠ ctx.actor ∧ canManageOthers membership = false then
      .error (forbidden "cannot create timesheet for another member")
    else .ok uid

def createTimesheet (ctx : SheetCtx) (body : CreateTimesheetRequest) : SheetTx Reply := do
  let membership ← lift ctx.membership
  lift (enforceAnyScope membership "operations.timesheet.write")
  let date ← lift (parseDate body.weekStart "week_start")
  let weekStart ← noPanic (mondayOf date)
  let user ← lift (targetUser ctx membership body.membershipUserId)
  let stored ← .query fun v => ctx.idemKey.bind v.replies.find?
  match stored with
  | some reply => return reply
  | none => openWeek ctx user weekStart body.notes

def writeEntry (ctx : SheetCtx) (tid : Uuid) (sheet : TimesheetRow) (id : Option String) (fields : EntryFields) :
    SheetTx Reply :=
  match id with
  | some raw => do
    let eid ← lift (parsePublicId .timeEntry raw)
    let existing ← fetchEntry eid
    sameSheet existing tid
    draftOnly existing sheet "only draft entries can be updated"
    updateEntry eid fields
    let updated ← fetchEntry eid
    return ⟨200, .entry eid updated⟩
  | none => do
    insertEntry ctx.newId (newEntry tid sheet fields)
    let created ← fetchEntry ctx.newId
    return ⟨201, .entry ctx.newId created⟩

def upsertEntry (ctx : SheetCtx) (id : String) (body : UpsertTimeEntryRequest) : SheetTx Reply := do
  let membership ← lift ctx.membership
  let tid ← lift (parsePublicId .timesheet id)
  .require (0 < body.minutes) (.error (validation "minutes must be > 0"))
  let entryDate ← lift (parseDate body.entryDate "entry_date")
  let sheet ← fetchTimesheet tid
  lift (assertCanEditDraft ctx membership sheet)
  dateInWeek entryDate sheet.weekStart
  let projectId ← resolveProject body.projectId
  let taskId ← resolveTask projectId body.taskId
  writeEntry ctx tid sheet body.id ⟨projectId, taskId, entryDate, body.minutes, body.billable.getD true, body.notes⟩

def patchedProject (existing : EntryRow) (projectId : Option String) : SheetTx Uuid :=
  match projectId with
  | some p => resolveProject p
  | none => return existing.fields.projectId

def patchedTask (existing : EntryRow) (projectId : Uuid) (taskId : Option String) : SheetTx (Option Uuid) :=
  if taskId.isSome then resolveTask projectId taskId else return existing.fields.taskId

def patchedDate (existing : EntryRow) (weekStart : Date) (entryDate : Option String) : SheetTx Date :=
  match entryDate with
  | some s => do
    let d ← lift (parseDate s "entry_date")
    dateInWeek d weekStart
    return d
  | none => return existing.fields.entryDate

def patchedMinutes (existing : EntryRow) (minutes : Option Int) : Except AppError Int :=
  match minutes with
  | some m => if 0 < m then .ok m else .error (validation "minutes must be > 0")
  | none => .ok existing.fields.minutes

def patchEntry (ctx : SheetCtx) (id entryId : String) (body : PatchTimeEntryRequest) : SheetTx Reply := do
  let membership ← lift ctx.membership
  let tid ← lift (parsePublicId .timesheet id)
  let eid ← lift (parsePublicId .timeEntry entryId)
  let sheet ← fetchTimesheet tid
  lift (assertCanEditDraft ctx membership sheet)
  let existing ← fetchEntry eid
  sameSheet existing tid
  draftOnly existing sheet "only draft entries can be patched"
  .require (existing.membershipUserId = ctx.actor ∨ canManageOthers membership = true)
    (.error (forbidden "only the entry owner can patch a draft entry"))
  let projectId ← patchedProject existing body.projectId
  let taskId ← patchedTask existing projectId body.taskId
  let entryDate ← patchedDate existing sheet.weekStart body.entryDate
  let minutes ← lift (patchedMinutes existing body.minutes)
  updateEntry eid ⟨projectId, taskId, entryDate, minutes, body.billable.getD existing.fields.billable,
    body.notes.or existing.fields.notes⟩
  let updated ← fetchEntry eid
  return ⟨200, .entry eid updated⟩

def submitTimesheet (ctx : SheetCtx) (id : String) : SheetTx Reply := do
  let membership ← lift ctx.membership
  lift (enforceAnyScope membership "operations.timesheet.submit")
  let tid ← lift (parsePublicId .timesheet id)
  let sheet ← fetchTimesheet tid
  .require (sheet.membershipUserId = ctx.actor ∨ canManageOthers membership = true)
    (.error (forbidden "can only submit own timesheet unless manager"))
  .require (sheet.status = .draft ∨ sheet.status = .rejected)
    (.error (conflict s!"timesheet is {sheet.status.text} and cannot be submitted"))
  updateTimesheet tid fun row => { row with status := .submitted, approvedBy := none }
  moveEntries tid .draft .submitted
  let answer ← fullTimesheet tid
  return ⟨200, answer⟩

def decided (approve : Bool) : Status := if approve then .approved else .rejected

def decideTimesheet (ctx : SheetCtx) (id : String) (approve : Bool) (note : Option String) : SheetTx Reply := do
  let membership ← lift ctx.membership
  lift (enforceAnyScope membership "operations.timesheet.approve")
  let tid ← lift (parsePublicId .timesheet id)
  let sheet ← fetchTimesheet tid
  .require (sheet.membershipUserId ≠ ctx.actor ∨ canSelfApprove membership = true)
    (.error (forbidden "cannot approve own timesheet without being manager"))
  .require (sheet.status = .submitted)
    (.error (conflict s!"timesheet is {sheet.status.text} and cannot be decided"))
  updateTimesheet tid fun row =>
    { row with status := decided approve, approvedBy := some ctx.actor, notes := note.or row.notes }
  moveEntries tid .submitted (decided approve)
  let answer ← fullTimesheet tid
  return ⟨200, answer⟩

inductive SheetOp
  | create (ctx : SheetCtx) (body : CreateTimesheetRequest)
  | upsert (ctx : SheetCtx) (id : String) (body : UpsertTimeEntryRequest)
  | patch (ctx : SheetCtx) (id entryId : String) (body : PatchTimeEntryRequest)
  | submit (ctx : SheetCtx) (id : String)
  | approve (ctx : SheetCtx) (id : String) (note : Option String)
  | reject (ctx : SheetCtx) (id : String) (note : Option String)

def SheetOp.body : SheetOp → SheetTx Reply
  | create ctx body => createTimesheet ctx body
  | upsert ctx id body => upsertEntry ctx id body
  | patch ctx id entryId body => patchEntry ctx id entryId body
  | submit ctx id => submitTimesheet ctx id
  | approve ctx id note => decideTimesheet ctx id true note
  | reject ctx id note => decideTimesheet ctx id false note

end

end Noxara.Timesheets
