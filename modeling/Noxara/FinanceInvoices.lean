import Noxara.FinanceJournal

/-! Invoices: draft creation and edits, issue, send, void, and the document numbers. -/
namespace Noxara.Finance

open Transaction

/-- Take the next number of a sequence row, creating the row at 1. -/
def nextSeqNumber (seqYear : Int) : Tx Int := do
  Prog.execute (fun v => if (v.invoiceSeq.find? seqYear).isSome then [] else [.invoiceSeq seqYear])
    (fun _ => .ok ())
    fun _ db => { db with invoiceSeq := db.invoiceSeq.insert seqYear 1 }
  Prog.executeReturning (fun _ => [.invoiceSeq seqYear])
    (fun v => match v.invoiceSeq.find? seqYear with
      | some n => do
        ensure (n + 1 ≤ i64Max) (databaseError "bigint out of range")
        .ok n
      | none => .error (.error (internal
          "no rows returned by a query that expected to return at least one row")))
    fun _ db => { db with invoiceSeq := db.invoiceSeq.modify seqYear (· + 1) }

def invoiceNumber (year n : Int) : String := s!"INV-{year}-{zeroPad 6 n}"

def nextInvoiceNumber (year : Int) : Tx String := do
  let n ← nextSeqNumber year
  pure (invoiceNumber year n)

/-- Credit notes number from their own row of the table, 100000 years later. -/
def nextCreditNumber (year : Int) : Tx String := do
  let n ← nextSeqNumber (year + 100000)
  pure s!"CN-{year}-{zeroPad 6 n}"

structure InvoiceLineInput where
  description : String
  quantity : Int
  unitPriceMinor : Int
  discountMinor : Int := 0
  taxRateBps : Int := 0
  taxRateId : Option String := none
  taxGroupId : Option String := none

def lineInputs (lines : List InvoiceLineInput) : List LineInput :=
  lines.map fun l => ⟨l.quantity, l.unitPriceMinor, l.discountMinor, l.taxRateBps⟩

def lineTotalsError {α : Type} (x : Except MoneyError α) : Except AppError α :=
  x.mapError fun e => validation s!"invalid line totals: {e.display}"

section Handlers
variable [Formats]

def InvoiceLineInput.row (line : InvoiceLineInput) (totals : LineTotals) (invoiceId lineId : Uuid)
    (position : Nat) (taxRate taxGroup : Option Uuid) : InvoiceLineRow where
  invoiceId
  publicId := s!"inl_{Formats.uuidDisplay lineId}"
  position
  description := line.description
  quantity := line.quantity
  unitPriceMinor := line.unitPriceMinor
  discountMinor := line.discountMinor
  taxRateBps := line.taxRateBps
  taxMinor := totals.taxMinor
  lineTotalMinor := totals.lineTotalMinor
  taxRateId := taxRate
  taxGroupId := taxGroup

def insertLine (id : Uuid) (row : InvoiceLineRow) : Tx Unit :=
  Prog.execute (fun _ => [.invoiceLine id])
    (fun v => do
      ensure (v.LinesOpen row.invoiceId)
        (databaseError "finance immutability: cannot mutate lines of issued invoice")
      ensure (v.invoiceLines.find? id = none) (uniqueViolation "finance_invoice_line_pkey")
      ensure (∀ t, row.taxRateId = some t → (v.taxRates.find? t).isSome)
        (databaseError "insert or update on table \"finance_invoice_line\" violates foreign key constraint \"finance_invoice_line_tax_rate_id_fkey\"")
      ensure (∀ t, row.taxGroupId = some t → (v.taxGroups.find? t).isSome)
        (databaseError "insert or update on table \"finance_invoice_line\" violates foreign key constraint \"finance_invoice_line_tax_group_id_fkey\""))
    fun _ db => { db with invoiceLines := db.invoiceLines.insert id row }

def insertLines (ctx : RequestCtx) (invoiceId : Uuid) :
    Nat → List (InvoiceLineInput × LineTotals) → Tx Unit
  | _, [] => pure ()
  | position, (line, totals) :: rest => do
    let taxRate ← lift (parseOptionalPublicId .taxRate line.taxRateId)
    let taxGroup ← lift (parseOptionalPublicId .taxGroup line.taxGroupId)
    let lineId := ctx.fresh (10 + position)
    insertLine lineId (line.row totals invoiceId lineId position taxRate taxGroup)
    insertLines ctx invoiceId (position + 1) rest

/-- The ids of the lines a `DELETE .. WHERE invoice_id` finds. -/
def Db.lineIds (db : Db) (invoiceId : Uuid) : List Uuid :=
  (db.invoiceLines.rows.filter fun r => r.2.invoiceId = invoiceId).map Prod.fst

def deleteLines (invoiceId : Uuid) : Tx Unit :=
  Prog.execute (fun v => (v.lineIds invoiceId).map .invoiceLine)
    (fun v => ensure (v.lineIds invoiceId = [] ∨ v.LinesOpen invoiceId)
      (databaseError "finance immutability: cannot delete lines of issued invoice"))
    fun v db => { db with
      invoiceLines := db.invoiceLines.filter fun id _ => !(v.lineIds invoiceId).contains id }

def Db.findCustomer (db : Db) (publicId : String) : Option Uuid :=
  (db.customers.rows.find? fun r => r.2.publicId = publicId).map Prod.fst

def resolveCustomerId (customerPublicId : String) : Tx Uuid := do
  let _ ← lift (parsePublicId .customer customerPublicId)
  let row ← Prog.query (·.findCustomer customerPublicId)
  lift (foundOr row (notFound "customer"))

def ensureDefaultEntity (ctx : RequestCtx) : Tx Uuid := do
  match ← Prog.query fun db => db.entities.rows.find? fun r => r.2.isDefault with
  | some row => pure row.1
  | none => do
    let id := ctx.fresh 3
    Prog.execute (fun _ => [.entity id, .entityCode "DEFAULT"])
      (fun v => do
        ensure (v.entities.find? id = none) (uniqueViolation "finance_entity_pkey")
        ensure (∀ r ∈ v.entities.rows, r.2.code ≠ "DEFAULT")
          (uniqueViolation "finance_entity_org_id_code_key"))
      fun _ db => { db with
        entities := db.entities.insert id ⟨(PublicId.mk .financeEntity id).asStr, "DEFAULT", true⟩ }
    pure id

/-- The entity with a public id, falling back to the org default. -/
def resolveEntityId (ctx : RequestCtx) (entityPublicId : Option String) : Tx Uuid :=
  match entityPublicId.filter fun s => trim s ≠ "" with
  | some raw => do
    let uuid ← lift (parsePublicId .financeEntity raw)
    let row ← Prog.query fun db => db.entities.find? uuid
    let _ ← lift (foundOr row (notFound "entity"))
    pure uuid
  | none => ensureDefaultEntity ctx

/-- The rate of a line as of a date: an explicit rate whatever its validity, or the group's
rate that became valid last. -/
def Db.resolveRateBps (db : Db) (taxGroupId taxRateId : Option Uuid) (asOf : Date) :
    Option (Uuid × Int) :=
  match taxRateId with
  | some rateId => (db.taxRates.find? rateId).map fun r => (rateId, r.rateBps)
  | none =>
    match taxGroupId with
    | none => none
    | some groupId =>
      ((db.taxRates.rows.filter fun r =>
          r.2.taxGroupId = some groupId ∧ r.2.isComponent = false ∧ r.2.validFrom ≤ asOf ∧
            ∀ last, r.2.validTo = some last → asOf ≤ last).mergeSort
        fun a b => b.2.validFrom ≤ a.2.validFrom).head?.map fun r => (r.1, r.2.rateBps)

omit [Formats] in
structure RatedLine where
  lineId : Uuid
  rateId : Option Uuid
  input : LineInput

omit [Formats] in
def rateLine (db : Db) (issueDate : Date) (id : Uuid) (line : InvoiceLineRow) : RatedLine :=
  let input (bps : Int) : LineInput :=
    ⟨line.quantity, line.unitPriceMinor, line.discountMinor, bps⟩
  if line.taxGroupId.isSome ∨ line.taxRateId.isSome then
    match db.resolveRateBps line.taxGroupId line.taxRateId issueDate with
    | some (rid, bps) => ⟨id, some rid, input bps⟩
    | none => ⟨id, line.taxRateId, input line.taxRateBps⟩
  else ⟨id, line.taxRateId, input line.taxRateBps⟩

def rateLines (issueDate : Date) : List (Uuid × InvoiceLineRow) → Tx (List RatedLine)
  | [] => pure []
  | (id, line) :: rest => do
    let rated ← Prog.query fun db => rateLine db issueDate id line
    let others ← rateLines issueDate rest
    pure (rated :: others)

omit [Formats] in
/-- What issue writes into a line: `COALESCE` keeps a rate that was not resolved. -/
def RatedLine.apply (rated : RatedLine) (totals : LineTotals) (row : InvoiceLineRow) :
    InvoiceLineRow :=
  { row with
    taxRateBps := rated.input.taxRateBps
    taxRateId := rated.rateId.or row.taxRateId
    taxMinor := totals.taxMinor
    lineTotalMinor := totals.lineTotalMinor }

def updateLine (rated : RatedLine) (totals : LineTotals) : Tx Unit :=
  Prog.execute
    (fun v => if (v.invoiceLines.find? rated.lineId).isSome then [.invoiceLine rated.lineId] else [])
    (fun v => match v.invoiceLines.find? rated.lineId with
      | some row => ensure (v.LinesOpen row.invoiceId)
          (databaseError "finance immutability: cannot mutate lines of issued invoice")
      | none => .ok ())
    fun _ db => { db with invoiceLines := db.invoiceLines.modify rated.lineId (rated.apply totals) }

def updateLines : List (RatedLine × LineTotals) → Tx Unit
  | [] => pure ()
  | (rated, totals) :: rest => do
    updateLine rated totals
    updateLines rest

omit [Formats] in
def DocumentTotals.apply (doc : DocumentTotals) (row : InvoiceRow) : InvoiceRow :=
  { row with
    subtotalMinor := doc.subtotalMinor
    discountMinor := doc.discountMinor
    taxMinor := doc.taxMinor
    totalMinor := doc.totalMinor }

/-- At issue: resolve tax references as of the issue date into `tax_rate_bps` snapshots and
recompute line and document totals. -/
def snapshotTaxesAtIssue (invoiceId : Uuid) (issueDate : Date) (row : InvoiceRow) :
    Tx DocumentTotals := do
  let rawLines ← Prog.query (·.fetchLines invoiceId)
  let inputs ← rateLines issueDate rawLines
  let currency ← lift (parseCurrency "currency" row.currency)
  let (computed, doc) ← lift (lineTotalsError
    (computeDocumentTotals (inputs.map (·.input)) currency))
  updateLines (inputs.zip computed)
  updateInvoice invoiceId (fun _ => true) doc.apply
  pure doc

structure CreateInvoiceRequest where
  customerId : String
  currency : String
  baseCurrency : String := "USD"
  lines : List InvoiceLineInput
  dueDate : Option String := none
  notes : Option String := none
  terms : Option String := none
  entityId : Option String := none

def CreateInvoiceRequest.row (body : CreateInvoiceRequest) (ctx : RequestCtx) (doc : DocumentTotals)
    (id customerId entityId : Uuid) (dueDate : Option Date) : InvoiceRow where
  publicId := (PublicId.mk .invoice id).asStr
  customerId
  ownerUserId := ctx.actorUserId
  status := .draft
  invoiceNumber := none
  currency := body.currency
  baseCurrency := body.baseCurrency
  fxRateNum := none
  fxRateDen := none
  fxRateDate := none
  subtotalMinor := doc.subtotalMinor
  discountMinor := doc.discountMinor
  taxMinor := doc.taxMinor
  totalMinor := doc.totalMinor
  baseTotalMinor := 0
  amountPaidMinor := 0
  amountCreditedMinor := 0
  balanceMinor := 0
  issueDate := none
  dueDate
  paymentUrl := none
  sourceQuotePublicId := none
  notes := body.notes
  terms := body.terms
  entityId := some entityId
  version := 1
  createdAt := ctx.now
  updatedAt := ctx.now

def insertInvoice (id : Uuid) (row : InvoiceRow) : Tx Unit :=
  Prog.execute (fun _ => [.invoice id])
    (fun v => ensure (v.invoices.find? id = none) (uniqueViolation "finance_invoice_pkey"))
    fun _ db => { db with invoices := db.invoices.insert id row }

def createInvoice (ctx : RequestCtx) (body : CreateInvoiceRequest) : Tx Response := do
  lift (ctx.authorize .invoiceCreate)
  Prog.require (body.lines ≠ []) (.error (validation "invoice requires at least one line"))
  let currency ← lift (parseCurrency "currency" body.currency)
  let _ ← lift (parseCurrency "base_currency" body.baseCurrency)
  let dueDate ← lift (parseDate body.dueDate "due_date")
  let (computed, doc) ← lift (lineTotalsError
    (computeDocumentTotals (lineInputs body.lines) currency))
  let id := ctx.fresh 2
  ensureLedgerAccounts
  Idempotency.replayOr ctx.idempotencyKey "invoice.create" 201 do
    let customerId ← resolveCustomerId body.customerId
    let entityId ← resolveEntityId ctx body.entityId
    insertInvoice id (body.row ctx doc id customerId entityId dueDate)
    insertLines ctx id 0 (body.lines.zip computed)
    let dto ← Prog.query (·.fetchInvoiceDto id)
    let dto ← lift (foundOr dto ⟨.internal, "invoice missing after insert"⟩)
    Idempotency.record ctx.idempotencyKey "invoice.create" 201 (.invoice dto)
    pure ⟨201, .invoice dto⟩

/-- The document of an invoice after a handler changed it. -/
def answerInvoice (invoiceId : Uuid) : Tx InvoiceDto := do
  let dto ← Prog.query (·.fetchInvoiceDto invoiceId)
  lift (foundOr dto (notFound "invoice"))

structure UpdateInvoiceRequest where
  lines : Option (List InvoiceLineInput) := none
  dueDate : Option String := none
  notes : Option String := none
  terms : Option String := none

/-- The totals an edit writes: those of the new lines, which replace the stored ones, or the
ones that were read. -/
def replaceLines (ctx : RequestCtx) (invoiceId : Uuid) (row : InvoiceRow) :
    Option (List InvoiceLineInput) → Tx DocumentTotals
  | none => pure ⟨row.subtotalMinor, row.discountMinor, row.taxMinor, row.totalMinor⟩
  | some lines => do
    Prog.require (lines ≠ []) (.error (validation "invoice requires at least one line"))
    let currency ← lift (parseCurrency "currency" row.currency)
    let (computed, doc) ← lift (lineTotalsError (computeDocumentTotals (lineInputs lines) currency))
    deleteLines invoiceId
    insertLines ctx invoiceId 0 (lines.zip computed)
    pure doc

/-- Draft only; requires the `If-Match` version. -/
def updateInvoiceHandler (ctx : RequestCtx) (id : String) (body : UpdateInvoiceRequest) :
    Tx Response := do
  let invoiceId ← lift (parsePublicId .invoice id)
  let expected ← Prog.okOr ctx.ifMatch (.error (validation "If-Match version required"))
  lift (ctx.authorize .invoiceUpdate)
  ensureLedgerAccounts
  let row ← Prog.query (·.fetchInvoiceRow invoiceId)
  let row ← lift (foundOr row (notFound "invoice"))
  lift (ctx.authorizeOwner .invoiceUpdate row.ownerUserId)
  Prog.require (row.status = .draft) (.error (conflict "only draft invoices can be updated"))
  Prog.require (row.version = expected)
    (.error (conflict s!"version mismatch: expected {expected}, got {row.version}"))
  let dueDate ← lift
    (if body.dueDate.isSome then parseDate body.dueDate "due_date" else .ok row.dueDate)
  let doc ← replaceLines ctx invoiceId row body.lines
  updateInvoice invoiceId (fun r => r.status = .draft ∧ r.version = expected) fun r =>
    { doc.apply r with
      dueDate
      notes := body.notes.or row.notes
      terms := body.terms.or row.terms
      version := r.version + 1
      updatedAt := ctx.now }
  let dto ← answerInvoice invoiceId
  pure ⟨200, .invoice dto⟩

structure IssueInvoiceRequest where
  fxRateNum : Int := 1
  fxRateDen : Int := 1
  fxRateDate : Option String := none
  issueDate : Option String := none
  dueDate : Option String := none

def issueScope (id : String) : String := s!"invoice.issue.{id}"

def IssueInvoiceRequest.apply (body : IssueInvoiceRequest) (ctx : RequestCtx) (number : String)
    (doc : DocumentTotals) (baseTotal : Int) (issueDate fxDate : Date) (dueDate : Option Date)
    (r : InvoiceRow) : InvoiceRow :=
  { r with
    status := .issued
    invoiceNumber := some number
    fxRateNum := some body.fxRateNum
    fxRateDen := some body.fxRateDen
    fxRateDate := some fxDate
    baseTotalMinor := baseTotal
    taxMinor := doc.taxMinor
    totalMinor := doc.totalMinor
    balanceMinor := doc.totalMinor
    issueDate := some issueDate
    dueDate := dueDate.or r.dueDate
    version := r.version + 1
    updatedAt := ctx.now }

def issueInvoice (ctx : RequestCtx) (id : String) (body : IssueInvoiceRequest) : Tx Response := do
  let invoiceId ← lift (parsePublicId .invoice id)
  lift (ctx.authorize .invoiceIssue)
  Prog.require (0 < body.fxRateNum ∧ 0 < body.fxRateDen)
    (.error (validation "fx_rate_num/den must be positive"))
  ensureLedgerAccounts
  Idempotency.replayOr ctx.idempotencyKey (issueScope id) 200 do
    let row ← Prog.query (·.fetchInvoiceRow invoiceId)
    let row ← lift (foundOr row (notFound "invoice"))
    lift (ctx.authorizeOwner .invoiceIssue row.ownerUserId)
    Prog.require (row.status = .draft) (.error (conflict "only draft invoices can be issued"))
    Prog.require (0 < row.totalMinor) (.error (validation "cannot issue zero-total invoice"))
    let issueDate ← lift (parseDate body.issueDate "issue_date")
    let issueDate := issueDate.getD ctx.today
    let dueDate ← lift (parseDate body.dueDate "due_date")
    let fxDate ← lift (parseDate body.fxRateDate "fx_rate_date")
    let baseCurrency ← lift (parseCurrency "base_currency" row.baseCurrency)
    let number ← nextInvoiceNumber ctx.today.year
    let doc ← snapshotTaxesAtIssue invoiceId issueDate row
    Prog.require (0 < doc.totalMinor) (.error (validation "cannot issue zero-total invoice"))
    let baseTotal ← lift
      ((convertToBase doc.totalMinor body.fxRateNum body.fxRateDen baseCurrency).mapError
        fun e => validation s!"fx conversion failed: {e.display}")
    let currency ← lift (parseCurrency "currency" row.currency)
    let journal ← lift (journalError (invoiceIssueEntry invoiceId currency
      (doc.totalMinor - doc.taxMinor) doc.taxMinor doc.totalMinor))
    let _ ← postJournal ctx
      { journal with entityId := row.entityId, entryDate := some issueDate }
    updateInvoice invoiceId (fun r => r.status = .draft) (body.apply ctx number doc baseTotal
      issueDate (fxDate.getD issueDate) (dueDate.or row.dueDate))
    let dto ← answerInvoice invoiceId
    Idempotency.record ctx.idempotencyKey (issueScope id) 200 (.invoice dto)
    pure ⟨200, .invoice dto⟩

omit [Formats] in
def InvoiceRow.markSent (now : Timestamp) (paymentUrl : String) (r : InvoiceRow) : InvoiceRow :=
  { r with
    status := .sent
    paymentUrl := some paymentUrl
    version := r.version + 1
    updatedAt := now }

def sendInvoice (ctx : RequestCtx) (id : String) : Tx Response := do
  let invoiceId ← lift (parsePublicId .invoice id)
  lift (ctx.authorize .invoiceSend)
  ensureLedgerAccounts
  let row ← Prog.query (·.fetchInvoiceRow invoiceId)
  let row ← lift (foundOr row (notFound "invoice"))
  lift (ctx.authorizeOwner .invoiceSend row.ownerUserId)
  Prog.require (row.status = .issued ∨ row.status = .sent)
    (.error (conflict "only issued invoices can be marked sent"))
  updateInvoice invoiceId (fun _ => true) (InvoiceRow.markSent ctx.now s!"/pay/{row.publicId}")
  let dto ← answerInvoice invoiceId
  pure ⟨200, .invoice dto⟩

omit [Formats] in
def InvoiceRow.markVoid (now : Timestamp) (r : InvoiceRow) : InvoiceRow :=
  { r with
    status := .void
    balanceMinor := 0
    version := r.version + 1
    updatedAt := now }

def voidInvoice (ctx : RequestCtx) (id : String) : Tx Response := do
  let invoiceId ← lift (parsePublicId .invoice id)
  lift (ctx.authorize .invoiceVoid)
  ensureLedgerAccounts
  let row ← Prog.query (·.fetchInvoiceRow invoiceId)
  let row ← lift (foundOr row (notFound "invoice"))
  lift (ctx.authorizeOwner .invoiceVoid row.ownerUserId)
  Prog.require (row.status ≠ .void ∧ row.status ≠ .paid)
    (.error (conflict s!"cannot void invoice in status {row.status.asStr}"))
  Prog.require (row.amountPaidMinor ≤ 0) (.error (conflict
    "cannot void invoice with payments applied; issue a credit note"))
  updateInvoice invoiceId (fun _ => true) (InvoiceRow.markVoid ctx.now)
  let dto ← answerInvoice invoiceId
  pure ⟨200, .invoice dto⟩

end Handlers

end Noxara.Finance
