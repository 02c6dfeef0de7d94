import Noxara.FinanceReceipts

/-! Vendor bills, whose payment debits accounts payable and credits cash, and the gate of the ledger: every handler
that seeds the ledger accounts locks the row of account 1000 before it reads anything, and holds it until it ends. -/
namespace Noxara.Finance

open Transaction

def VendorBillRow.dto (b : VendorBillRow) : VendorBillDto :=
  ⟨b.publicId, b.supplierRef, b.sourceType, b.sourceId, b.currency, b.amountMinor, b.amountPaidMinor,
    b.status, b.memo, b.paymentJournalPublicId, b.createdAt, b.updatedAt, b.version⟩

def updateBill (id : Uuid) (f : VendorBillRow → VendorBillRow) : Tx Unit :=
  Prog.execute (fun v => if (v.vendorBills.find? id).isSome then [.vendorBill id] else [])
    (fun v => ensure (∀ b, v.vendorBills.find? id = some b → (f b).version ≤ i32Max)
      (databaseError "integer out of range"))
    fun _ db => { db with vendorBills := db.vendorBills.modify id f }

def fetchBill (id : Uuid) : Tx VendorBillRow := do
  let row ← Prog.query (·.vendorBills.find? id)
  lift (foundOr row (notFound "vendor bill"))

section Handlers
variable [Formats]

structure PayVendorBillRequest where
  amountMinor : Option Int := none
  memo : Option String := none

/-- Dr Accounts Payable — Vendors, Cr Cash. -/
def vendorPaymentEntry (ctx : RequestCtx) (billId : Uuid) (row : VendorBillRow) (currency : Currency)
    (memo : Option String) (payAmount : Int) : JournalDraft where
  memo := memo.getD s!"Vendor payment for bill {row.publicId}"
  sourceType := .vendorPayment
  sourceId := billId
  currency
  postedBy := some ctx.actorUserId
  lines := [LedgerLine.debit codes.AP_VENDORS payAmount (some "AP settlement"),
    LedgerLine.credit codes.CASH payAmount (some "Cash paid")]

def payVendorBill (ctx : RequestCtx) (id : String) (body : PayVendorBillRequest) : Tx Response := do
  let billId ← lift (parsePublicId .vendorBill id)
  lift (ctx.authorize .journalPost)
  ensureLedgerAccounts
  Idempotency.replayOr ctx.idempotencyKey "vendor_bill.pay" 200 do
    let row ← fetchBill billId
    if row.status = .paid then pure ⟨200, .vendorBill row.dto⟩
    else do
      Prog.require (row.status ≠ .void) (.error (validation "vendor bill is void"))
      let outstanding := row.amountMinor - row.amountPaidMinor
      let payAmount := body.amountMinor.getD outstanding
      Prog.require (0 < payAmount ∧ payAmount ≤ outstanding)
        (.error (validation s!"amount_minor must be between 1 and {outstanding}"))
      let currency ← lift ((Currency.new row.currency).mapError fun _ => ⟨.internal, "bad currency"⟩)
      let draft ← lift
        (journalError (vendorPaymentEntry ctx billId row currency body.memo payAmount).balanced)
      let entryId ← postJournal ctx draft
      let newPaid := row.amountPaidMinor + payAmount
      updateBill billId fun b =>
        { b with
          amountPaidMinor := newPaid
          status := if newPaid ≥ row.amountMinor then .paid else .partiallyPaid
          paymentJournalPublicId := some (journalPublicId entryId)
          version := b.version + 1
          updatedAt := ctx.now }
      let row ← fetchBill billId
      Idempotency.record ctx.idempotencyKey "vendor_bill.pay" 200 (.vendorBill row.dto)
      pure ⟨200, .vendorBill row.dto⟩

end Handlers

/-- The row of cash, the first account that is seeded. -/
def ledgerGate : RowKey := .account codes.CASH

variable [Formats]

theorem updateInvoiceHandler_gated (ctx : RequestCtx) (id : String) (body : UpdateInvoiceRequest) :
    (updateInvoiceHandler ctx id body).Gated ledgerGate := by
  unfold updateInvoiceHandler
  refine gated_lift_bind fun _ _ => ?_
  refine .okOr_bind fun _ _ => ?_
  refine gated_lift_bind fun _ _ => ?_
  exact ensureLedgerAccounts_gated _

theorem issueInvoice_gated (ctx : RequestCtx) (id : String) (body : IssueInvoiceRequest) :
    (issueInvoice ctx id body).Gated ledgerGate := by
  unfold issueInvoice
  refine gated_lift_bind fun _ _ => ?_
  refine gated_lift_bind fun _ _ => ?_
  refine .require_bind fun _ => ?_
  exact ensureLedgerAccounts_gated _

theorem sendInvoice_gated (ctx : RequestCtx) (id : String) :
    (sendInvoice ctx id).Gated ledgerGate := by
  unfold sendInvoice
  refine gated_lift_bind fun _ _ => ?_
  refine gated_lift_bind fun _ _ => ?_
  exact ensureLedgerAccounts_gated _

theorem voidInvoice_gated (ctx : RequestCtx) (id : String) :
    (voidInvoice ctx id).Gated ledgerGate := by
  unfold voidInvoice
  refine gated_lift_bind fun _ _ => ?_
  refine gated_lift_bind fun _ _ => ?_
  exact ensureLedgerAccounts_gated _

theorem recordPayment_gated (ctx : RequestCtx) (body : RecordPaymentRequest) :
    (recordPayment ctx body).Gated ledgerGate := by
  unfold recordPayment
  refine gated_lift_bind fun _ _ => ?_
  refine .require_bind fun _ => ?_
  refine gated_lift_bind fun _ _ => ?_
  refine gated_lift_bind fun _ _ => ?_
  refine gated_lift_bind fun _ _ => ?_
  refine gated_lift_bind fun _ _ => ?_
  exact ensureLedgerAccounts_gated _

theorem allocatePayment_gated (ctx : RequestCtx) (id : String) (body : AllocatePaymentRequest) :
    (allocatePayment ctx id body).Gated ledgerGate := by
  unfold allocatePayment
  refine gated_lift_bind fun _ _ => ?_
  refine gated_lift_bind fun _ _ => ?_
  refine gated_lift_bind fun _ _ => ?_
  refine .require_bind fun _ => ?_
  exact ensureLedgerAccounts_gated _

theorem createCreditNote_gated (ctx : RequestCtx) (body : CreateCreditNoteRequest) :
    (createCreditNote ctx body).Gated ledgerGate := by
  unfold createCreditNote
  refine gated_lift_bind fun _ _ => ?_
  refine gated_lift_bind fun _ _ => ?_
  refine .require_bind fun _ => ?_
  exact ensureLedgerAccounts_gated _

end Noxara.Finance
