import Noxara.FinanceInvoices

/-! Receipts against invoices: payments recorded, allocated late or reported by the payment
provider's webhook, and credit notes. -/
namespace Noxara.Finance

open Transaction

/-- Recompute invoice balance and payment status after a payment or a credit. -/
def balanceAndStatus (totalMinor amountPaidMinor amountCreditedMinor : Int)
    (currentStatus : InvoiceStatus) : Int × InvoiceStatus :=
  let balance := totalMinor - amountPaidMinor - amountCreditedMinor
  let status :=
    if balance ≤ 0 then .paid
    else if amountPaidMinor > 0 then .partiallyPaid
    else match currentStatus with
      | .sent | .overdue | .issued | .partiallyPaid => currentStatus
      | _ => .issued
  (max balance 0, status)

/-- The invoice after `amount` more was paid, from the row that was read. -/
def InvoiceRow.pay (read : InvoiceRow) (now : Timestamp) (amount : Int) (r : InvoiceRow) :
    InvoiceRow :=
  let newPaid := read.amountPaidMinor + amount
  let next := balanceAndStatus read.totalMinor newPaid read.amountCreditedMinor read.status
  { r with
    amountPaidMinor := newPaid
    balanceMinor := next.1
    status := next.2
    version := r.version + 1
    updatedAt := now }

/-- The payment after `amount` of it was allocated. -/
def PaymentRow.allocate (amount : Int) (p : PaymentRow) : PaymentRow :=
  { p with
    amountAllocatedMinor := p.amountAllocatedMinor + amount
    amountUnappliedMinor := p.amountUnappliedMinor - amount }

/-- `SELECT .. FROM finance_invoice .. FOR UPDATE`. -/
def lockInvoice (invoiceId : Uuid) : Tx (Option InvoiceRow) :=
  Prog.queryForUpdate
    (fun v => if (v.invoices.find? invoiceId).isSome then [.invoice invoiceId] else [])
    (·.invoices.find? invoiceId)

def insertAllocation (id paymentId invoiceId : Uuid) (amount : Int) : Tx Unit :=
  Prog.execute (fun _ => [.allocation id])
    (fun v => do
      ensure (v.allocations.find? id = none) (uniqueViolation "finance_payment_allocation_pkey")
      ensure (0 < amount) (databaseError
        "new row for relation \"finance_payment_allocation\" violates check constraint \"finance_payment_allocation_amount_minor_check\""))
    fun _ db =>
      if h : 0 < amount then
        { db with allocations := db.allocations.insert id ⟨paymentId, invoiceId, amount, h⟩ }
      else db

def updatePayment (paymentId : Uuid) (f : PaymentRow → PaymentRow) : Tx Unit :=
  Prog.execute (fun v => if (v.payments.find? paymentId).isSome then [.payment paymentId] else [])
    (fun v => ensure (∀ p, v.payments.find? paymentId = some p →
        InI64 (f p).amountAllocatedMinor ∧ InI64 (f p).amountUnappliedMinor)
      (databaseError "bigint out of range"))
    fun _ db => { db with payments := db.payments.modify paymentId f }

/-- Apply `amount` of a payment to an invoice; update invoice paid, balance and status. -/
def applyAllocation (ctx : RequestCtx) (paymentId invoiceId : Uuid) (amount : Int) : Tx Unit := do
  Prog.require (0 < amount) (.error (validation "allocation amount must be positive"))
  let inv ← lockInvoice invoiceId
  let inv ← lift (foundOr inv (notFound "invoice"))
  Prog.require (inv.status ≠ .draft ∧ inv.status ≠ .void)
    (.error (conflict s!"cannot allocate to invoice in status {inv.status.asStr}"))
  Prog.require (amount ≤ inv.balanceMinor) (.error (validation
    s!"allocation {amount} exceeds invoice balance {inv.balanceMinor}"))
  let pay ← Prog.queryForUpdate
    (fun v => if (v.payments.find? paymentId).isSome then [.payment paymentId] else [])
    fun db => db.payments.find? paymentId
  let pay ← lift (foundOr pay (notFound "payment"))
  Prog.require (amount ≤ pay.amountUnappliedMinor) (.error (validation
    s!"allocation {amount} exceeds unapplied {pay.amountUnappliedMinor}"))
  insertAllocation (ctx.fresh 4) paymentId invoiceId amount
  updatePayment paymentId (PaymentRow.allocate amount)
  updateInvoice invoiceId (fun _ => true) (inv.pay ctx.now amount)

def PaymentRow.dto (p : PaymentRow) (c : CustomerRow) : PaymentDto :=
  ⟨p.publicId, c.publicId, p.currency, p.amountMinor, p.amountAllocatedMinor, p.amountUnappliedMinor,
    p.method, p.provider, p.receivedAt, p.notes⟩

def Db.fetchPaymentDto (db : Db) (id : Uuid) : Option PaymentDto :=
  (db.payments.find? id).bind fun p => (db.customers.find? p.customerId).map p.dto

def Db.ProviderEventFree (db : Db) (row : PaymentRow) : Prop :=
  row.providerEventId = none ∨
    ∀ r ∈ db.payments.rows, ¬(r.2.provider = row.provider ∧ r.2.providerEventId = row.providerEventId)

instance (db : Db) (row : PaymentRow) : Decidable (db.ProviderEventFree row) := by
  unfold Db.ProviderEventFree
  infer_instance

def insertPayment (id : Uuid) (row : PaymentRow) (duplicateEvent : AppError) : Tx Unit :=
  Prog.execute
    (fun _ => .payment id :: match row.provider, row.providerEventId with
      | some p, some e => [.providerEvent p e]
      | _, _ => [])
    (fun v => do
      ensure (v.payments.find? id = none) (uniqueViolation "finance_payment_pkey")
      ensure (v.ProviderEventFree row) duplicateEvent
      ensure (0 < row.amountMinor) (databaseError
        "new row for relation \"finance_payment\" violates check constraint \"finance_payment_amount_minor_check\""))
    fun _ db => { db with payments := db.payments.insert id row }

section Handlers
variable [Formats]

structure RecordPaymentRequest where
  customerId : String
  currency : String
  amountMinor : Int
  invoiceId : Option String := none
  notes : Option String := none
  receivedAt : Option String := none

def parseOptionalInvoice : Option String → Except AppError (Option Uuid)
  | some s => (parsePublicId .invoice s).map some
  | none => .ok none

def parseReceivedAt (now : Timestamp) : Option String → Except AppError Timestamp
  | none => .ok now
  | some s =>
    match Formats.parseFromRfc3339 s with
    | some t => .ok t
    | none => .error (validation "received_at must be RFC3339")

/-- How much of a new payment goes to the invoice it names. -/
def recordAllocation (customerId : Uuid) (amountMinor : Int) : Option Uuid → Tx Int
  | none => pure 0
  | some invoiceId => do
    let inv ← Prog.query (·.invoices.find? invoiceId)
    let inv ← lift (foundOr inv (notFound "invoice"))
    Prog.require (inv.customerId = customerId)
      (.error (validation "invoice does not belong to customer"))
    Prog.require (inv.status ≠ .draft ∧ inv.status ≠ .void)
      (.error (conflict s!"cannot pay invoice in status {inv.status.asStr}"))
    pure (min amountMinor inv.balanceMinor)

def allocateTo (ctx : RequestCtx) (paymentId : Uuid) (amount : Int) : Option Uuid → Tx Unit
  | some invoiceId => if 0 < amount then applyAllocation ctx paymentId invoiceId amount else pure ()
  | none => pure ()

def recordPayment (ctx : RequestCtx) (body : RecordPaymentRequest) : Tx Response := do
  lift (ctx.authorize .paymentCreate)
  Prog.require (0 < body.amountMinor) (.error (validation "amount_minor must be positive"))
  let currency ← lift (parseCurrency "currency" body.currency)
  let _ ← lift (parsePublicId .customer body.customerId)
  let invoiceId ← lift (parseOptionalInvoice body.invoiceId)
  let receivedAt ← lift (parseReceivedAt ctx.now body.receivedAt)
  let id := ctx.fresh 2
  ensureLedgerAccounts
  Idempotency.replayOr ctx.idempotencyKey "payment.record" 201 do
    let customerId ← Prog.query (·.findCustomer body.customerId)
    let customerId ← lift (foundOr customerId (notFound "customer"))
    let allocateAmount ← recordAllocation customerId body.amountMinor invoiceId
    insertPayment id
      { publicId := (PublicId.mk .payment id).asStr
        customerId
        ownerUserId := ctx.actorUserId
        currency := body.currency
        amountMinor := body.amountMinor
        amountAllocatedMinor := 0
        amountUnappliedMinor := body.amountMinor
        method := .manual
        provider := none
        providerEventId := none
        receivedAt
        notes := body.notes }
      (uniqueViolation "finance_payment_provider_event_uidx")
    let journal ← lift (journalError
      (paymentEntry id currency allocateAmount (body.amountMinor - allocateAmount)))
    let _ ← postJournal ctx journal
    allocateTo ctx id allocateAmount invoiceId
    let dto ← Prog.query (·.fetchPaymentDto id)
    let dto ← lift (foundOr dto ⟨.internal, "payment missing after insert"⟩)
    Idempotency.record ctx.idempotencyKey "payment.record" 201 (.payment dto)
    pure ⟨201, .payment dto⟩

structure AllocatePaymentRequest where
  invoiceId : String
  amountMinor : Int

def allocateScope (id : String) : String := s!"payment.allocate.{id}"

/-- Reclassify a late allocation: from customer credits to receivables. -/
def allocationEntry (paymentId : Uuid) (currency : Currency) (amountMinor : Int) :
    Except MoneyError JournalDraft :=
  JournalDraft.balanced
    { memo := s!"Allocate payment {Formats.uuidDisplay paymentId}"
      sourceType := .payment
      sourceId := paymentId
      currency
      lines := [⟨codes.CUSTOMER_CREDITS, amountMinor, 0, some "Apply customer credit"⟩,
        ⟨codes.AR, 0, amountMinor, some "AR settlement from credit"⟩] }

def allocatePayment (ctx : RequestCtx) (id : String) (body : AllocatePaymentRequest) :
    Tx Response := do
  let paymentId ← lift (parsePublicId .payment id)
  let invoiceId ← lift (parsePublicId .invoice body.invoiceId)
  lift (ctx.authorize .paymentAllocate)
  Prog.require (0 < body.amountMinor) (.error (validation "amount_minor must be positive"))
  ensureLedgerAccounts
  Idempotency.replayOr ctx.idempotencyKey (allocateScope id) 200 do
    let pay ← Prog.query (·.payments.find? paymentId)
    let pay ← lift (foundOr pay (notFound "payment"))
    let currency ← lift (parseCurrency "currency" pay.currency)
    applyAllocation ctx paymentId invoiceId body.amountMinor
    let journal ← lift (journalError (allocationEntry paymentId currency body.amountMinor))
    let _ ← postJournal ctx journal
    let dto ← Prog.query (·.fetchPaymentDto paymentId)
    let dto ← lift (foundOr dto (notFound "payment"))
    Idempotency.record ctx.idempotencyKey (allocateScope id) 200 (.payment dto)
    pure ⟨200, .payment dto⟩

structure CreateCreditNoteRequest where
  invoiceId : String
  lines : List InvoiceLineInput
  reason : Option String := none

def insertCreditNote (id : Uuid) (row : CreditNoteRow) : Tx Unit :=
  Prog.execute (fun _ => [.creditNote id, .creditNumber row.creditNumber])
    (fun v => do
      ensure (v.creditNotes.find? id = none) (uniqueViolation "finance_credit_note_pkey")
      ensure (∀ r ∈ v.creditNotes.rows, r.2.creditNumber ≠ row.creditNumber)
        (uniqueViolation "finance_credit_note_org_id_credit_number_key"))
    fun _ db => { db with creditNotes := db.creditNotes.insert id row }

/-- The invoice after `amount` more was credited, from the row that was read. -/
def InvoiceRow.credit (read : InvoiceRow) (now : Timestamp) (amount : Int) (r : InvoiceRow) :
    InvoiceRow :=
  let newCredited := read.amountCreditedMinor + amount
  let next := balanceAndStatus read.totalMinor read.amountPaidMinor newCredited read.status
  { r with
    amountCreditedMinor := newCredited
    balanceMinor := next.1
    status := next.2
    version := r.version + 1
    updatedAt := now }

def createCreditNote (ctx : RequestCtx) (body : CreateCreditNoteRequest) : Tx Response := do
  let invoiceId ← lift (parsePublicId .invoice body.invoiceId)
  lift (ctx.authorize .creditNoteCreate)
  Prog.require (body.lines ≠ []) (.error (validation "credit note requires lines"))
  ensureLedgerAccounts
  Idempotency.replayOr ctx.idempotencyKey "credit_note.create" 201 do
    let inv ← lockInvoice invoiceId
    let inv ← lift (foundOr inv (notFound "invoice"))
    Prog.require (inv.status ≠ .draft ∧ inv.status ≠ .void)
      (.error (conflict s!"cannot credit invoice in status {inv.status.asStr}"))
    let currency ← lift (parseCurrency "currency" inv.currency)
    let (_, doc) ← lift (lineTotalsError (computeDocumentTotals (lineInputs body.lines) currency))
    Prog.require (0 < doc.totalMinor) (.error (validation "credit total must be positive"))
    Prog.require (doc.totalMinor ≤ inv.balanceMinor) (.error (validation
      s!"credit total {doc.totalMinor} exceeds invoice balance {inv.balanceMinor}"))
    let id := ctx.fresh 2
    let creditNumber ← nextCreditNumber ctx.today.year
    insertCreditNote id ⟨invoiceId, inv.customerId, creditNumber, inv.currency,
      doc.subtotalMinor - doc.discountMinor, doc.taxMinor, doc.totalMinor⟩
    let journal ← lift (journalError (creditNoteEntry id currency (doc.totalMinor - doc.taxMinor)
      doc.taxMinor doc.totalMinor))
    let _ ← postJournal ctx journal
    updateInvoice invoiceId (fun _ => true) (inv.credit ctx.now doc.totalMinor)
    let customer ← Prog.query (·.customers.find? inv.customerId)
    let customer ← lift (foundOr customer (internal
      "no rows returned by a query that expected to return at least one row"))
    let dto : CreditNoteDto :=
      ⟨(PublicId.mk .creditNote id).asStr, inv.publicId, customer.publicId, creditNumber,
        inv.currency, doc.subtotalMinor - doc.discountMinor, doc.taxMinor, doc.totalMinor,
        body.reason, ctx.now⟩
    Idempotency.record ctx.idempotencyKey "credit_note.create" 201 (.creditNote dto)
    pure ⟨201, .creditNote dto⟩

structure StripePaymentObject where
  id : String
  amount : Int
  currency : String
  customerId : String
  invoiceId : Option String := none

/-- A webhook call after its secret, development headers or token were checked. -/
structure StripeWebhookRequest where
  authed : Bool
  id : String
  typeField : String
  object : StripePaymentObject

/-- The upper case of a letter. Listed are the letters outside ASCII whose upper case is
ASCII; the upper case of any other stays outside and is no currency code. -/
def upperChars : Char → List Char
  | 'ı' => ['I']
  | 'ſ' => ['S']
  | 'ß' => ['S', 'S']
  | 'ﬀ' => ['F', 'F']
  | 'ﬁ' => ['F', 'I']
  | 'ﬂ' => ['F', 'L']
  | 'ﬃ' => ['F', 'F', 'I']
  | 'ﬄ' => ['F', 'F', 'L']
  | 'ﬅ' => ['S', 'T']
  | 'ﬆ' => ['S', 'T']
  | c => [c.toUpper]

def toUppercase (s : String) : String := String.ofList (s.toList.flatMap upperChars)

/-- How much of a provider's payment goes to the invoice it names: nothing when the invoice
cannot be paid. -/
def webhookAllocation (amount : Int) : Option Uuid → Tx Int
  | none => pure 0
  | some invoiceId => do
    let inv ← Prog.query (·.invoices.find? invoiceId)
    match inv with
    | some inv =>
      if inv.status ≠ .draft ∧ inv.status ≠ .void then pure (min amount inv.balanceMinor) else pure 0
    | none => pure 0

/-- The row of the event. A failed `INSERT` aborts the database transaction, so what the
duplicate answer commits is nothing. -/
def insertWebhookEvent (body : StripeWebhookRequest) : Tx Unit :=
  Prog.execute (fun _ => [.webhookEvent body.id])
    (fun v => if v.webhookEvents.find? body.id = none then .ok ()
      else .error (.answered ⟨200, .webhook ⟨true, true, none⟩⟩))
    fun _ db => { db with webhookEvents := db.webhookEvents.insert body.id body.typeField }

def receiveStripePayment (ctx : RequestCtx) (body : StripeWebhookRequest) : Tx Unit := do
  let obj := body.object
  Prog.require (0 < obj.amount) (.error (validation "payment amount must be positive"))
  let currency ← lift (parseCurrency "currency" (toUppercase obj.currency))
  let _ ← lift (parsePublicId .customer obj.customerId)
  let customerId ← Prog.query (·.findCustomer obj.customerId)
  let customerId ← lift (foundOr customerId (notFound "customer"))
  let invoiceId ← lift (parseOptionalInvoice obj.invoiceId)
  let id := ctx.fresh 2
  let allocateAmount ← webhookAllocation obj.amount invoiceId
  insertPayment id
    { publicId := (PublicId.mk .payment id).asStr
      customerId
      ownerUserId := ctx.actorUserId
      currency := toUppercase obj.currency
      amountMinor := obj.amount
      amountAllocatedMinor := 0
      amountUnappliedMinor := obj.amount
      method := .stripeWebhook
      provider := some "stripe"
      providerEventId := some body.id
      receivedAt := ctx.now
      notes := some s!"stripe {obj.id}" }
    (conflict "duplicate provider event payment")
  let journal ← lift (journalError
    (paymentEntry id currency allocateAmount (obj.amount - allocateAmount)))
  let _ ← postJournal ctx journal
  allocateTo ctx id allocateAmount invoiceId

def StripeWebhookRequest.Succeeded (body : StripeWebhookRequest) : Prop :=
  body.typeField = "payment_intent.succeeded" ∨ body.typeField = "payment.succeeded" ∨
    body.typeField = "charge.succeeded"

instance (body : StripeWebhookRequest) : Decidable body.Succeeded :=
  inferInstanceAs (Decidable (_ ∨ _))

def stripeWebhook (ctx : RequestCtx) (body : StripeWebhookRequest) : Tx Response := do
  Prog.require (body.authed = true)
    (.error ⟨.unauthorized, "webhook requires auth or FINANCE_WEBHOOK_SECRET"⟩)
  ensureLedgerAccounts
  insertWebhookEvent body
  if body.Succeeded then do
    receiveStripePayment ctx body
    pure ⟨200, .webhook ⟨true, false, some (PublicId.mk .payment (ctx.fresh 2)).asStr⟩⟩
  else pure ⟨200, .webhook ⟨true, false, none⟩⟩

end Handlers

end Noxara.Finance
