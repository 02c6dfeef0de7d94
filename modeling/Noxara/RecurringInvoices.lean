import Noxara.CalendarMonths
import Noxara.FinanceInvoices
import Noxara.TransactionRows

/-! Recurring invoices: a draft for each template that is due, whose next date is then moved past the clock. -/
namespace Noxara.Recurring

open Transaction
open Finance (Uuid AppError PublicId Formats DateTime CreateInvoiceRequest InvoiceLineInput InvoiceRow LineTotals
  DocumentTotals TxExit validation parseCurrency lineInputs computeDocumentTotals)

inductive Cadence
  | monthly | quarterly | yearly
  deriving DecidableEq

/-- The column has no other value. -/
def Cadence.months : Cadence → ℕ
  | monthly => 1
  | quarterly => 3
  | yearly => 12

def advanceNextRun (start : DateTime) (cadence : Cadence) : DateTime := start.addMonths cadence.months

/-- `template` is what the reader makes of the JSON column. -/
structure RecurringRow where
  publicId : String
  customerId : Uuid
  ownerUserId : Uuid
  cadence : Cadence
  nextRunAt : DateTime
  active : Bool
  template : Except String CreateInvoiceRequest
  lastInvoiceId : Option Uuid

/-- `finance.invoice.created`. -/
structure InvoiceCreated where
  id : String
  fromRecurring : String

structure RunDueResponse where
  createdInvoiceIds : List String
  processed : Int

/-- The recurring invoices beside the other tables of the service. -/
structure Db where
  finance : Finance.Db
  recurring : Table Uuid RecurringRow
  outbox : List InvoiceCreated

inductive RowKey
  | finance (key : Finance.RowKey)
  | recurring (id : Uuid)
  deriving DecidableEq

abbrev Tx := Prog Db RowKey TxExit

/-- `now` is the time of the transaction, `clock` what the clock shows when a template is handled, `invoiceId` and
`lineId` the UUIDs drawn for it. -/
structure RunDue where
  authorize : Except AppError Unit
  now : DateTime
  clock : Uuid → DateTime
  clock_le : ∀ id, now ≤ clock id
  invoiceId : Uuid → Uuid
  lineId : Uuid → ℕ → Uuid

def onFinance {α : Type} (p : Finance.Tx α) : Tx α :=
  p.zoom (·.finance) (fun f db => { db with finance := f db.finance }) RowKey.finance

/-- `ORDER BY next_run_at`. -/
def Db.due (db : Db) (now : DateTime) : List (Uuid × RecurringRow) :=
  (db.recurring.rows.filter fun r => r.2.active ∧ r.2.nextRunAt ≤ now).mergeSort
    fun a b => a.2.nextRunAt ≤ b.2.nextRunAt

def selectDue (now : DateTime) : Tx (List (Uuid × RecurringRow)) :=
  Prog.queryForUpdate (fun v => (v.due now).map fun r => .recurring r.1) (·.due now)

def RecurringRow.advance (next : DateTime) (invoiceId : Uuid) (row : RecurringRow) : RecurringRow :=
  { row with
    nextRunAt := next
    lastInvoiceId := some invoiceId }

def updateRecurring (id : Uuid) (f : RecurringRow → RecurringRow) : Tx Unit :=
  Prog.execute (fun _ => [.recurring id]) (fun _ => .ok ())
    fun _ db => { db with recurring := db.recurring.modify id f }

def insertEvent (event : InvoiceCreated) : Tx Unit :=
  Prog.execute (fun _ => []) (fun _ => .ok ()) fun _ db => { db with outbox := db.outbox ++ [event] }

def passClock (clock : DateTime) (cadence : Cadence) : ℕ → DateTime → DateTime
  | 0, next => next
  | fuel + 1, next => if next ≤ clock then passClock clock cadence fuel (advanceNextRun next cadence) else next

/-- Each turn of the loop goes on by a month at least, so this many turns are enough. -/
def turns (clock next : DateTime) : ℕ := (clock.date.monthIndex - next.date.monthIndex + 1).toNat

def nextAfter (clock : DateTime) (cadence : Cadence) (nextRunAt : DateTime) : DateTime :=
  let next := advanceNextRun nextRunAt cadence
  passClock clock cadence (turns clock next) next

section
variable [Formats]

def draftRow (op : RunDue) (id : Uuid) (row : RecurringRow) (template : CreateInvoiceRequest)
    (doc : DocumentTotals) : InvoiceRow where
  publicId := (PublicId.mk .invoice (op.invoiceId id)).asStr
  customerId := row.customerId
  ownerUserId := row.ownerUserId
  status := .draft
  invoiceNumber := none
  currency := template.currency
  baseCurrency := template.baseCurrency
  fxRateNum := none
  fxRateDen := none
  fxRateDate := none
  subtotalMinor := doc.subtotalMinor
  discountMinor := doc.discountMinor
  taxMinor := doc.taxMinor
  totalMinor := doc.totalMinor
  baseTotalMinor := 0
  amountPaidMinor := 0
  amountCreditedMinor := 0
  balanceMinor := 0
  issueDate := none
  dueDate := none
  paymentUrl := none
  sourceQuotePublicId := none
  notes := template.notes
  terms := template.terms
  entityId := none
  version := 1
  createdAt := op.now.timestamp
  updatedAt := op.now.timestamp

/-- The lines of the draft, without the tax rates that the template names. -/
def insertDraftLines (op : RunDue) (id : Uuid) : ℕ → List (InvoiceLineInput × LineTotals) → Tx Unit
  | _, [] => pure ()
  | position, (line, totals) :: rest => do
    onFinance (Finance.insertLine (op.lineId id position)
      (line.row totals (op.invoiceId id) (op.lineId id position) position none none))
    insertDraftLines op id (position + 1) rest

/-- Insert the draft and move the template past the clock. -/
def createDraft (op : RunDue) (id : Uuid) (row : RecurringRow) (template : CreateInvoiceRequest)
    (computed : List LineTotals) (doc : DocumentTotals) : Tx (Option String) := do
  onFinance (Finance.insertInvoice (op.invoiceId id) (draftRow op id row template doc))
  insertDraftLines op id 0 (template.lines.zip computed)
  updateRecurring id (RecurringRow.advance (nextAfter (op.clock id) row.cadence row.nextRunAt) (op.invoiceId id))
  insertEvent ⟨(PublicId.mk .invoice (op.invoiceId id)).asStr, row.publicId⟩
  pure (some (PublicId.mk .invoice (op.invoiceId id)).asStr)

/-- A template without lines is passed over, and stays due. -/
def runTemplate (op : RunDue) (id : Uuid) (row : RecurringRow) : Tx (Option String) := do
  let template ← onFinance (Finance.lift (row.template.mapError fun e => validation s!"bad recurring template: {e}"))
  let currency ← onFinance (Finance.lift (parseCurrency "currency" template.currency))
  if template.lines = [] then pure none
  else do
    let (computed, doc) ← onFinance (Finance.lift
      ((computeDocumentTotals (lineInputs template.lines) currency).mapError fun e =>
        validation s!"invalid totals: {e.display}"))
    createDraft op id row template computed doc

def runTemplates (op : RunDue) : List (Uuid × RecurringRow) → Tx (List String)
  | [] => pure []
  | (id, row) :: rest => do
    let created ← runTemplate op id row
    let more ← runTemplates op rest
    pure (created.toList ++ more)

def runDue (op : RunDue) : Tx RunDueResponse := do
  onFinance (Finance.lift op.authorize)
  onFinance Finance.ensureLedgerAccounts
  let due ← selectDue op.now
  let created ← runTemplates op due
  pure ⟨created, created.length⟩

end

end Noxara.Recurring
