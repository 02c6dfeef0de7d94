import Noxara.FinanceSchema
import Noxara.LeaveBalances
import Noxara.TransactionProgram
import Mathlib.Data.List.Sort

/-! The leave tables of one organisation, and the statements on its ledger, which only grows. Columns that no
modelled handler reads, audit rows and outbox rows are left out. -/
namespace Noxara.Leave

open Transaction Words
open Finance (Uuid Date AppError internal)

inductive LeaveCategory
  | annual | sick | unpaid | custom
  deriving DecidableEq

/-- Of a request for leave. -/
inductive RequestStatus
  | draft | pendingApproval | approved | rejected | cancelled
  deriving DecidableEq

inductive AccrualCadence
  | none | monthly | yearly | onHire
  deriving DecidableEq

inductive EmployeeStatus
  | draft | onboarding | active | onLeave | offboarding | terminated
  deriving DecidableEq

structure AccrualPolicy where
  accrualCadence : AccrualCadence
  accrualUnitsMilli : Int
  carryForwardCapMilli : Option Int
  expiryDays : Option Int

structure LeaveTypeRow where
  publicId : String
  category : LeaveCategory
  accrualCadence : AccrualCadence
  accrualUnitsMilli : Int
  carryForwardCapMilli : Option Int
  expiryDays : Option Int
  isActive : Bool
  deleted : Bool
  deriving DecidableEq

def LeaveTypeRow.policy (lt : LeaveTypeRow) : AccrualPolicy :=
  ⟨lt.accrualCadence, lt.accrualUnitsMilli, lt.carryForwardCapMilli, lt.expiryDays⟩

structure EmployeeRow where
  ownerUserId : Uuid
  status : EmployeeStatus
  deleted : Bool
  deriving DecidableEq

/-- What posted an entry: `debit:{request}`, `cancel:{request}`, `cf-zero:{year}:{leave type}` or
`cf:{year}:{leave type}`. -/
inductive SourceKey
  | debit (leaveRequest : String)
  | cancel (leaveRequest : String)
  | cfZero (year : Int) (leaveType : String)
  | cf (year : Int) (leaveType : String)
  deriving DecidableEq

structure LedgerRow where
  employeeId : Uuid
  leaveTypeId : Uuid
  entryKind : EntryKind
  unitsMilli : Int
  effectiveDate : Date
  expiresOn : Option Date
  leaveRequestId : Option Uuid
  note : Option String
  sourceKey : Option SourceKey
  ownerUserId : Uuid
  deriving DecidableEq

def LedgerRow.entry (row : LedgerRow) : LedgerEntry :=
  ⟨row.entryKind, row.unitsMilli, row.effectiveDate, row.expiresOn⟩

inductive RunStatus
  | running | completed | failed
  deriving DecidableEq

def RunStatus.text : RunStatus → String
  | running => "running"
  | completed => "completed"
  | failed => "failed"

structure CarryForwardRunRow where
  workflowId : String
  status : RunStatus
  entriesPosted : Int

structure CarryForwardResponse where
  workflowId : String
  year : Int
  status : String
  entriesPosted : Int
  idempotentReplay : Bool
  deriving DecidableEq

/-- The ledger has its rows in the order they were inserted; a year has one run. -/
structure Db where
  leaveTypes : Table Uuid LeaveTypeRow
  employees : Table Uuid EmployeeRow
  ledger : List LedgerRow
  carryForwardRuns : Table Int CarryForwardRunRow
  idempotency : Table (String × String) CarryForwardResponse

inductive Lock
  | ledgerKey (employeeId leaveTypeId : Uuid) (key : SourceKey)
  | year (year : Int)
  | idempotency (scope key : String)
  deriving DecidableEq

/-- How a handler leaves its transaction without committing. -/
inductive Exit
  | error (e : AppError)
  | panicked
  deriving DecidableEq

abbrev Tx (α : Type) := Prog Db Lock Exit α

def orPanic {α : Type} (x : Option α) : Tx α := .okOr x .panicked

def Db.appended (s : Db) (rows : List LedgerRow) : Db := { s with ledger := s.ledger ++ rows }

def Db.rowsOf (s : Db) (employeeId leaveTypeId : Uuid) : List LedgerRow :=
  s.ledger.filter fun r => r.employeeId = employeeId ∧ r.leaveTypeId = leaveTypeId

def Db.rowByKey (s : Db) (employeeId leaveTypeId : Uuid) (key : SourceKey) : Option LedgerRow :=
  (s.rowsOf employeeId leaveTypeId).find? (·.sourceKey = some key)

/-- `ORDER BY effective_date, created_at`. -/
def Db.ledgerEntries (s : Db) (employeeId leaveTypeId : Uuid) : List LedgerEntry :=
  ((s.rowsOf employeeId leaveTypeId).insertionSort fun a b => a.effectiveDate ≤ b.effectiveDate).map (·.entry)

def loadLedgerEntries (employeeId leaveTypeId : Uuid) : Tx (List LedgerEntry) :=
  .query (·.ledgerEntries employeeId leaveTypeId)

/-- The unique index on the keys that are set. -/
def insertLedgerRow (row : LedgerRow) : Tx LedgerRow :=
  .executeReturning (fun _ => row.sourceKey.toList.map (.ledgerKey row.employeeId row.leaveTypeId))
    (fun v =>
      if row.sourceKey.any fun key => (v.rowByKey row.employeeId row.leaveTypeId key).isSome then
        .error (.error (internal
          "duplicate key value violates unique constraint \"people_leave_ledger_source_key_uidx\""))
      else .ok row)
    fun _ s => s.appended [row]

/-- A key that is there already is answered with its row. -/
def insertLedgerEntry (row : LedgerRow) : Tx LedgerRow :=
  match row.sourceKey with
  | none => insertLedgerRow row
  | some key => do
    let existing ← .query (·.rowByKey row.employeeId row.leaveTypeId key)
    match existing with
    | some found => return found
    | none => insertLedgerRow row

variable {s : Db} {e l : Uuid}

theorem rowsOf_appended (s : Db) (rows : List LedgerRow) (e l : Uuid) :
    (s.appended rows).rowsOf e l = s.rowsOf e l ++ rows.filter fun r => r.employeeId = e ∧ r.leaveTypeId = l :=
  List.filter_append _ _

theorem rowsOf_appended_own {rows : List LedgerRow} (h : ∀ row ∈ rows, row.employeeId = e ∧ row.leaveTypeId = l) :
    (s.appended rows).rowsOf e l = s.rowsOf e l ++ rows := by
  rw [rowsOf_appended, List.filter_eq_self.mpr fun row hrow => decide_eq_true (h row hrow)]

/-- Rows of other pairs are not among those of a pair. -/
theorem rowsOf_appended_other {rows : List LedgerRow}
    (h : ∀ row ∈ rows, ¬(row.employeeId = e ∧ row.leaveTypeId = l)) :
    (s.appended rows).rowsOf e l = s.rowsOf e l := by
  rw [rowsOf_appended, List.filter_eq_nil_iff.mpr fun row hrow => by simpa using h row hrow, List.append_nil]

theorem appended_appended (s : Db) (rows more : List LedgerRow) :
    (s.appended rows).appended more = s.appended (rows ++ more) := by
  unfold Db.appended
  rw [List.append_assoc]

theorem appended_nil (s : Db) : s.appended [] = s := by
  unfold Db.appended
  rw [List.append_nil]

theorem rowByKey_eq_none {key : SourceKey} (h : ∀ row ∈ s.rowsOf e l, row.sourceKey ≠ some key) :
    s.rowByKey e l key = none :=
  List.find?_eq_none.mpr fun row hrow => by simpa using h row hrow

theorem countedUnits_ledgerEntries (s : Db) (e l : Uuid) (d : Date) :
    countedUnits (s.ledgerEntries e l) d = countedUnits ((s.rowsOf e l).map (·.entry)) d := by
  unfold countedUnits Db.ledgerEntries
  exact (((List.perm_insertionSort _ _).map _).map _).sum_eq

theorem run_insertLedgerEntry {row : LedgerRow} {r : LedgerRow × Db}
    (h : (insertLedgerEntry row).run s = .ok r) :
    r.2 = s ∨ r.2 = s.appended [row] := by
  unfold insertLedgerEntry insertLedgerRow at h
  split at h
  · exact Or.inr (Prog.run_executeReturning_ok.mp h).2
  · next key _ =>
    rw [Prog.run_query_bind] at h
    cases hfound : s.rowByKey row.employeeId row.leaveTypeId key with
    | some found =>
      rw [hfound] at h
      cases h
      exact Or.inl rfl
    | none =>
      rw [hfound] at h
      exact Or.inr (Prog.run_executeReturning_ok.mp h).2

/-- A key that is not there yet is posted. -/
theorem run_insertLedgerEntry_fresh {row : LedgerRow} {r : LedgerRow × Db}
    (h : (insertLedgerEntry row).run s = .ok r)
    (hfresh : ∀ key ∈ row.sourceKey, s.rowByKey row.employeeId row.leaveTypeId key = none) :
    r.2 = s.appended [row] := by
  unfold insertLedgerEntry insertLedgerRow at h
  split at h
  · exact (Prog.run_executeReturning_ok.mp h).2
  · next key hkey =>
    rw [Prog.run_query_bind, hfresh key hkey] at h
    exact (Prog.run_executeReturning_ok.mp h).2

end Noxara.Leave
