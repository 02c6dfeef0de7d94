import Noxara.FinanceStatements
import Mathlib.Algebra.Order.Group.Unbundled.Int
import Mathlib.Data.List.Infix
import Mathlib.Data.List.Sort

/-! Bank reconciliation: the unmatched lines of a statement are matched with payments, each line first by its
reference and then without it. -/
namespace Noxara.Bank

open Transaction
open Finance (Uuid AppError PublicId Formats Date InI64 wrapI64 i64Max parsePublicId notFound internal
  uniqueViolation)

structure BankAccountRow where
  publicId : String

structure BankStatementRow where
  publicId : String
  bankAccountId : Uuid

inductive LineStatus
  | unmatched | matched | ignored
  deriving DecidableEq

structure StatementLineRow where
  statementId : Uuid
  lineNo : Int
  txnDate : Date
  amountMinor : Int
  currency : String
  reference : Option String
  status : LineStatus
  word : InI64 amountMinor

/-- `receivedDate` is the day of `received_at` in UTC. The table's check constraint on the amount is part of the
row. -/
structure PaymentRow where
  publicId : String
  currency : String
  amountMinor : Int
  receivedDate : Date
  positive : 0 < amountMinor
  word : amountMinor ≤ i64Max

inductive MatchKind
  | payment | journalLine | expense | manual
  deriving DecidableEq

structure ReconciliationRow where
  publicId : String
  bankAccountId : Uuid
  statementLineId : Uuid
  matchKind : MatchKind
  matchedPaymentId : Option Uuid
  amountMinor : Int
  autoMatched : Bool
  matchedBy : Option Uuid

structure ReconciliationDto where
  id : String
  bankAccountId : String
  statementLineId : String
  matchKind : String
  matchedPaymentId : Option String
  amountMinor : Int
  autoMatched : Bool

/-- The rate before it is rounded to a float. -/
structure ReconcileResponse where
  matched : Int
  unmatched : Int
  matchRate : Rat
  reconciliations : List ReconciliationDto

/-- `finance.reconciliation.matched`. -/
structure ReconciliationMatched where
  statementId : String
  matched : Int
  unmatched : Int

structure Db where
  bankAccounts : Table Uuid BankAccountRow
  statements : Table Uuid BankStatementRow
  lines : Table Uuid StatementLineRow
  payments : Table Uuid PaymentRow
  reconciliations : Table Uuid ReconciliationRow
  outbox : List ReconciliationMatched

inductive RowKey
  | line (id : Uuid)
  | reconciliation (id : Uuid)
  deriving DecidableEq

abbrev Tx := Prog Db RowKey AppError

/-- A payment that no reconciliation names yet. -/
structure PaymentCand where
  id : Uuid
  publicId : String
  amountMinor : Int
  receivedDate : Date
  deriving DecidableEq

structure LineRow where
  id : Uuid
  txnDate : Date
  amountMinor : Int
  reference : Option String
  deriving DecidableEq

/-- `authorize` is the decision of the membership tables, `fresh` the UUIDs that the request draws and `scan` the
order in which the query without one returns the payments. -/
structure RequestCtx where
  actorUserId : Uuid
  authorize : Except AppError Unit
  fresh : ℕ → Uuid
  scan : List PaymentCand → List PaymentCand
  scan_perm : ∀ l, (scan l).Perm l

/-- `ORDER BY line_no`. -/
def Db.unmatchedLines (db : Db) (stmtId : Uuid) : List LineRow :=
  ((db.lines.rows.filter fun r => r.2.statementId = stmtId ∧ r.2.status = .unmatched).insertionSort
    fun a b => a.2.lineNo ≤ b.2.lineNo).map fun r => ⟨r.1, r.2.txnDate, r.2.amountMinor, r.2.reference⟩

def Db.Unreconciled (db : Db) (paymentId : Uuid) : Prop :=
  ∀ r ∈ db.reconciliations.rows, r.2.matchedPaymentId ≠ some paymentId

instance (db : Db) (paymentId : Uuid) : Decidable (db.Unreconciled paymentId) :=
  inferInstanceAs (Decidable (∀ r ∈ db.reconciliations.rows, r.2.matchedPaymentId ≠ some paymentId))

def Db.candidates (db : Db) : List PaymentCand :=
  (db.payments.rows.filter fun r => db.Unreconciled r.1).map fun r =>
    ⟨r.1, r.2.publicId, r.2.amountMinor, r.2.receivedDate⟩

/-- The amounts, and days that are at most three apart. `abs` of the least word is that word. -/
def agrees (line : LineRow) (pay : PaymentCand) : Bool :=
  wrapI64 |line.amountMinor| = pay.amountMinor &&
    |line.txnDate.dayNumber - pay.receivedDate.dayNumber| ≤ 3

def containsText (text part : String) : Bool := part.toList <:+: text.toList

/-- Without a reference, amount and date are enough. -/
def refOk (line : LineRow) (pay : PaymentCand) : Bool :=
  match line.reference with
  | some r => r = "" || containsText r pay.publicId
  | none => true

def firstPass (line : LineRow) (payments : List PaymentCand) (used : List Uuid) : Option PaymentCand :=
  payments.find? fun pay => !used.contains pay.id && (agrees line pay && refOk line pay)

/-- The reference is looked at once more here, and nothing follows from it. -/
def secondPass (line : LineRow) (payments : List PaymentCand) (used : List Uuid) : Option PaymentCand :=
  payments.find? fun pay => !used.contains pay.id && agrees line pay

def best (line : LineRow) (payments : List PaymentCand) (used : List Uuid) : Option PaymentCand :=
  match firstPass line payments used with
  | some pay => some pay
  | none => secondPass line payments used

def insertReconciliation (id : Uuid) (row : ReconciliationRow) : Tx Unit :=
  Prog.execute (fun _ => [.reconciliation id])
    (fun v =>
      if (v.reconciliations.find? id).isSome then .error (uniqueViolation "finance_bank_reconciliation_pkey")
      else if v.reconciliations.values.any fun r => r.statementLineId = row.statementLineId then
        .error (uniqueViolation "finance_bank_reconciliation_statement_line_id_key")
      else .ok ())
    fun _ db => { db with reconciliations := db.reconciliations.insert id row }

def StatementLineRow.markMatched (row : StatementLineRow) : StatementLineRow := { row with status := .matched }

def updateLine (id : Uuid) (f : StatementLineRow → StatementLineRow) : Tx Unit :=
  Prog.execute (fun v => if (v.lines.find? id).isSome then [.line id] else []) (fun _ => .ok ())
    fun _ db => { db with lines := db.lines.modify id f }

/-- What the loop has done so far. -/
structure MatchState where
  usedPayments : List Uuid
  reconciliations : List ReconciliationDto
  matchedCount : Int

/-- The bank account of the statement, by its id and its public id. -/
structure BankRef where
  id : Uuid
  publicId : String

section
variable [Formats]

def reconciliationRow (ctx : RequestCtx) (bank : BankRef) (recId : Uuid) (line : LineRow) (pay : PaymentCand) :
    ReconciliationRow where
  publicId := PublicId.asStr ⟨.bankReconciliation, recId⟩
  bankAccountId := bank.id
  statementLineId := line.id
  matchKind := .payment
  matchedPaymentId := some pay.id
  amountMinor := wrapI64 |line.amountMinor|
  autoMatched := true
  matchedBy := some ctx.actorUserId

def MatchState.add (bank : BankRef) (recId : Uuid) (line : LineRow) (pay : PaymentCand) (st : MatchState) :
    MatchState where
  usedPayments := pay.id :: st.usedPayments
  reconciliations := st.reconciliations ++
    [{ id := PublicId.asStr ⟨.bankReconciliation, recId⟩
       bankAccountId := bank.publicId
       statementLineId := Formats.uuidDisplay line.id
       matchKind := "payment"
       matchedPaymentId := some pay.publicId
       amountMinor := wrapI64 |line.amountMinor|
       autoMatched := true }]
  matchedCount := st.matchedCount + 1

def matchLine (ctx : RequestCtx) (bank : BankRef) (payments : List PaymentCand) (line : LineRow)
    (st : MatchState) : Tx MatchState :=
  match best line payments st.usedPayments with
  | none => pure st
  | some pay => do
    let recId := ctx.fresh st.reconciliations.length
    insertReconciliation recId (reconciliationRow ctx bank recId line pay)
    updateLine line.id StatementLineRow.markMatched
    pure (st.add bank recId line pay)

def matchLines (ctx : RequestCtx) (bank : BankRef) (payments : List PaymentCand) :
    List LineRow → MatchState → Tx MatchState
  | [], st => pure st
  | line :: lines, st => do matchLines ctx bank payments lines (← matchLine ctx bank payments line st)

def insertEvent (event : ReconciliationMatched) : Tx Unit :=
  Prog.execute (fun _ => []) (fun _ => .ok ()) fun _ db => { db with outbox := db.outbox ++ [event] }

def autoMatchStatement (ctx : RequestCtx) (id : String) : Tx ReconcileResponse := do
  let stmtId ← Prog.ofExcept (parsePublicId .bankStatement id)
  Prog.ofExcept ctx.authorize
  let stmt ← Prog.query (·.statements.find? stmtId)
  let stmt ← Prog.okOr stmt (notFound "bank statement")
  let account ← Prog.query (·.bankAccounts.find? stmt.bankAccountId)
  let account ← Prog.okOr account
    (internal "no rows returned by a query that expected to return at least one row")
  let unmatched ← Prog.query (·.unmatchedLines stmtId)
  let payments ← Prog.query fun db => ctx.scan db.candidates
  let st ← matchLines ctx ⟨stmt.bankAccountId, account.publicId⟩ payments unmatched ⟨[], [], 0⟩
  let totalLines : Int := unmatched.length
  insertEvent ⟨stmt.publicId, st.matchedCount, totalLines - st.matchedCount⟩
  pure
    { matched := st.matchedCount
      unmatched := totalLines - st.matchedCount
      matchRate := if totalLines = 0 then 1 else st.matchedCount / totalLines
      reconciliations := st.reconciliations }

end

end Noxara.Bank
