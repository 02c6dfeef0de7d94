import Noxara.MoneyArithmetic
import Noxara.PublicIds
import Noxara.TableRows

/-! The finance tables of one organisation, the documents the handlers answer with, and the
errors they refuse with. Columns that no modelled handler reads are left out. -/
namespace Noxara.Finance

inductive InvoiceStatus
  | draft | issued | sent | partiallyPaid | paid | overdue | void
  deriving DecidableEq

def InvoiceStatus.asStr : InvoiceStatus → String
  | draft => "draft"
  | issued => "issued"
  | sent => "sent"
  | partiallyPaid => "partially_paid"
  | paid => "paid"
  | overdue => "overdue"
  | void => "void"

inductive PeriodStatus
  | open | closed | locked
  deriving DecidableEq

def PeriodStatus.asStr : PeriodStatus → String
  | .open => "open"
  | .closed => "closed"
  | .locked => "locked"

inductive BillStatus
  | open | partiallyPaid | paid | void
  deriving DecidableEq

inductive ExpenseStatus
  | submitted | pendingApproval | approved | rejected | posted
  deriving DecidableEq

def ExpenseStatus.asStr : ExpenseStatus → String
  | submitted => "submitted"
  | pendingApproval => "pending_approval"
  | approved => "approved"
  | rejected => "rejected"
  | posted => "posted"

inductive PaymentMethod
  | manual | stripeWebhook | other
  deriving DecidableEq

inductive AccountType
  | asset | liability | equity | revenue | income | expense
  deriving DecidableEq

inductive SourceType
  | invoiceIssue | payment | creditNote | expense | manual | payroll | inventoryReceipt
  | inventoryCogs | inventoryDepreciation | vendorBill | vendorPayment | intercompany
  deriving DecidableEq

def SourceType.asStr : SourceType → String
  | invoiceIssue => "invoice_issue"
  | payment => "payment"
  | creditNote => "credit_note"
  | expense => "expense"
  | manual => "manual"
  | payroll => "payroll"
  | inventoryReceipt => "inventory_receipt"
  | inventoryCogs => "inventory_cogs"
  | inventoryDepreciation => "inventory_depreciation"
  | vendorBill => "vendor_bill"
  | vendorPayment => "vendor_payment"
  | intercompany => "intercompany"

structure CustomerRow where
  publicId : String

structure EntityRow where
  publicId : String
  code : String
  isDefault : Bool

structure TaxGroupRow where
  publicId : String

structure TaxRateRow where
  publicId : String
  rateBps : Int
  taxGroupId : Option Uuid
  isComponent : Bool
  validFrom : Date
  validTo : Option Date

structure AccountRow where
  name : String
  accountType : AccountType
  isActive : Bool

structure InvoiceRow where
  publicId : String
  customerId : Uuid
  ownerUserId : Uuid
  status : InvoiceStatus
  invoiceNumber : Option String
  currency : String
  baseCurrency : String
  fxRateNum : Option Int
  fxRateDen : Option Int
  fxRateDate : Option Date
  subtotalMinor : Int
  discountMinor : Int
  taxMinor : Int
  totalMinor : Int
  baseTotalMinor : Int
  amountPaidMinor : Int
  amountCreditedMinor : Int
  balanceMinor : Int
  issueDate : Option Date
  dueDate : Option Date
  paymentUrl : Option String
  sourceQuotePublicId : Option String
  notes : Option String
  terms : Option String
  entityId : Option Uuid
  version : Int
  createdAt : Timestamp
  updatedAt : Timestamp

structure InvoiceLineRow where
  invoiceId : Uuid
  publicId : String
  position : Nat
  description : String
  quantity : Int
  unitPriceMinor : Int
  discountMinor : Int
  taxRateBps : Int
  taxMinor : Int
  lineTotalMinor : Int
  taxRateId : Option Uuid
  taxGroupId : Option Uuid

structure CreditNoteRow where
  invoiceId : Uuid
  customerId : Uuid
  creditNumber : String
  currency : String
  subtotalMinor : Int
  taxMinor : Int
  totalMinor : Int

structure PaymentRow where
  publicId : String
  customerId : Uuid
  ownerUserId : Uuid
  currency : String
  amountMinor : Int
  amountAllocatedMinor : Int
  amountUnappliedMinor : Int
  method : PaymentMethod
  provider : Option String
  providerEventId : Option String
  receivedAt : Timestamp
  notes : Option String

/-- The table's check constraint is part of the row. -/
structure AllocationRow where
  paymentId : Uuid
  invoiceId : Uuid
  amountMinor : Int
  positive : 0 < amountMinor

structure PeriodRow where
  publicId : String
  code : String
  name : String
  startDate : Date
  endDate : Date
  status : PeriodStatus
  checklist : String
  closedAt : Option Timestamp
  reopenedAt : Option Timestamp
  reopenReason : Option String

structure JournalEntryRow where
  publicId : String
  entryDate : Date
  memo : String
  sourceType : SourceType
  sourceId : Uuid
  currency : String
  periodId : Uuid
  reversesEntryId : Option Uuid
  postedBy : Option Uuid
  entityId : Option Uuid

/-- A journal line refers to its account by the account's code, which is unique. -/
structure JournalLineRow where
  entryId : Uuid
  accountCode : String
  debitMinor : Int
  creditMinor : Int
  memo : Option String
  deriving DecidableEq

structure VendorBillRow where
  publicId : String
  supplierRef : String
  sourceType : String
  sourceId : Option String
  currency : String
  amountMinor : Int
  amountPaidMinor : Int
  status : BillStatus
  memo : Option String
  paymentJournalPublicId : Option String
  createdAt : Timestamp
  updatedAt : Timestamp
  version : Int

structure ExpenseCategoryRow where
  code : String

structure ExpenseRow where
  publicId : String
  ownerUserId : Uuid
  categoryId : Option Uuid
  status : ExpenseStatus
  currency : String
  amountMinor : Int
  description : String
  receiptUrl : Option String
  incurredAt : Date
  decidedBy : Option Uuid
  decidedAt : Option Timestamp
  decisionNote : Option String
  approvalId : Option String
  createdAt : Timestamp
  updatedAt : Timestamp

structure PaymentDto where
  id : String
  customerId : String
  currency : String
  amountMinor : Int
  amountAllocatedMinor : Int
  amountUnappliedMinor : Int
  method : PaymentMethod
  provider : Option String
  receivedAt : Timestamp
  notes : Option String
  deriving DecidableEq

structure InvoiceLineDto where
  id : String
  description : String
  quantity : Int
  unitPriceMinor : Int
  discountMinor : Int
  taxRateBps : Int
  taxMinor : Int
  lineTotalMinor : Int
  taxRateId : Option String
  taxGroupId : Option String
  deriving DecidableEq

structure InvoiceDto where
  id : String
  customerId : String
  status : InvoiceStatus
  invoiceNumber : Option String
  currency : String
  baseCurrency : String
  fxRateNum : Option Int
  fxRateDen : Option Int
  fxRateDate : Option Date
  subtotalMinor : Int
  discountMinor : Int
  taxMinor : Int
  totalMinor : Int
  baseTotalMinor : Int
  amountPaidMinor : Int
  amountCreditedMinor : Int
  balanceMinor : Int
  issueDate : Option Date
  dueDate : Option Date
  paymentUrl : Option String
  sourceQuoteId : Option String
  notes : Option String
  terms : Option String
  entityId : Option String
  version : Int
  lines : List InvoiceLineDto
  createdAt : Timestamp
  updatedAt : Timestamp
  deriving DecidableEq

structure CreditNoteDto where
  id : String
  invoiceId : String
  customerId : String
  creditNumber : String
  currency : String
  subtotalMinor : Int
  taxMinor : Int
  totalMinor : Int
  reason : Option String
  issuedAt : Timestamp
  deriving DecidableEq

structure FiscalPeriodDto where
  id : String
  code : String
  name : String
  startDate : Date
  endDate : Date
  status : PeriodStatus
  checklist : String
  closedAt : Option Timestamp
  reopenedAt : Option Timestamp
  reopenReason : Option String
  deriving DecidableEq

structure VendorBillDto where
  id : String
  supplierRef : String
  sourceType : String
  sourceId : Option String
  currency : String
  amountMinor : Int
  amountPaidMinor : Int
  status : BillStatus
  memo : Option String
  paymentJournalPublicId : Option String
  createdAt : Timestamp
  updatedAt : Timestamp
  version : Int
  deriving DecidableEq

structure ExpenseDto where
  id : String
  status : ExpenseStatus
  currency : String
  amountMinor : Int
  description : String
  categoryCode : Option String
  receiptUrl : Option String
  incurredAt : Date
  createdAt : Timestamp
  approvalId : Option String
  deriving DecidableEq

structure JournalLineInput where
  accountCode : String
  debitMinor : Int
  creditMinor : Int
  memo : Option String
  deriving DecidableEq

structure JournalEntryDto where
  id : String
  memo : String
  sourceType : SourceType
  sourceId : String
  currency : String
  lines : List JournalLineInput
  entryDate : Date
  periodId : Option String
  entityId : Option String
  deriving DecidableEq

structure WebhookAck where
  received : Bool
  duplicate : Bool
  paymentId : Option String
  deriving DecidableEq

structure TrialBalanceRow where
  accountCode : String
  accountName : String
  accountType : AccountType
  debitMinor : Int
  creditMinor : Int
  deriving DecidableEq

structure TrialBalance where
  currency : String
  periodId : Option String := none
  rows : List TrialBalanceRow
  totalDebitMinor : Int
  totalCreditMinor : Int
  balanced : Bool
  deriving DecidableEq

structure PnLSummary where
  revenueMinor : Int
  expenseMinor : Int
  netIncomeMinor : Int
  deriving DecidableEq

structure BsSummary where
  assetsMinor : Int
  liabilitiesMinor : Int
  equityMinor : Int
  deriving DecidableEq

structure EntityStatementPack where
  entityId : String
  entityCode : String
  trialBalance : TrialBalance
  profitAndLoss : PnLSummary
  balanceSheet : BsSummary
  deriving DecidableEq

structure EliminationLine where
  accountCode : String
  debitMinor : Int
  creditMinor : Int
  memo : String
  deriving DecidableEq

structure ConsolidationStatements where
  entityStatements : List EntityStatementPack
  consolidatedTrialBalance : TrialBalance
  eliminations : List EliminationLine
  deriving DecidableEq

structure ConsolidationRunDto extends ConsolidationStatements where
  id : String
  currency : String
  asOf : Date
  status : String
  eliminatedMinor : Int
  deriving DecidableEq

structure ConsolidationRunRow where
  publicId : String
  currency : String
  asOf : Date
  status : String
  entityIds : List Uuid
  eliminatedMinor : Int
  statements : ConsolidationStatements
  createdBy : Uuid

inductive Body
  | payment (dto : PaymentDto)
  | invoice (dto : InvoiceDto)
  | creditNote (dto : CreditNoteDto)
  | period (dto : FiscalPeriodDto)
  | vendorBill (dto : VendorBillDto)
  | expense (dto : ExpenseDto)
  | journal (dto : JournalEntryDto)
  | webhook (ack : WebhookAck)
  deriving DecidableEq

structure Response where
  status : Nat
  body : Body
  deriving DecidableEq

/-- What a handler is given in every service: who calls and when, and the ids that it draws. -/
structure Caller where
  actorUserId : Uuid
  now : Timestamp
  fresh : ℕ → Uuid

/-- A row of the idempotency table. -/
structure StoredResponse where
  responseStatus : Int
  responseBody : Body
  deriving DecidableEq

inductive ErrorCode
  | validationFailed | notFound | conflict | unauthorized | forbidden | internal
  deriving DecidableEq

structure AppError where
  code : ErrorCode
  detail : String
  deriving DecidableEq

def internal (e : String) : AppError := ⟨.internal, s!"db error: {e}"⟩

def notFound (what : String) : AppError := ⟨.notFound, s!"{what} not found"⟩

def validation (detail : String) : AppError := ⟨.validationFailed, detail⟩

def conflict (detail : String) : AppError := ⟨.conflict, detail⟩

section
variable [Formats]

/-- An id of this kind; each service has its own words for what it refuses. -/
def parseIdOfKind (invalid wrongKind : String) (kind : IdKind) (raw : String) : Except AppError Uuid :=
  match PublicId.fromStr raw with
  | .error _ => .error (validation invalid)
  | .ok pid => if pid.kind ≠ kind then .error (validation wrongKind) else .ok pid.uuid

theorem parseIdOfKind_ok {invalid wrongKind raw : String} {kind : IdKind} {u : Uuid} :
    parseIdOfKind invalid wrongKind kind raw = .ok u ↔ PublicId.fromStr raw = .ok ⟨kind, u⟩ := by
  unfold parseIdOfKind
  cases PublicId.fromStr raw with
  | error e => simp
  | ok pid =>
    obtain ⟨k, id⟩ := pid
    by_cases hk : k = kind <;> simp [hk]

end

structure Db where
  customers : Table Uuid CustomerRow
  entities : Table Uuid EntityRow
  taxGroups : Table Uuid TaxGroupRow
  taxRates : Table Uuid TaxRateRow
  accounts : Table String AccountRow
  invoiceSeq : Table Int Int
  invoices : Table Uuid InvoiceRow
  invoiceLines : Table Uuid InvoiceLineRow
  creditNotes : Table Uuid CreditNoteRow
  payments : Table Uuid PaymentRow
  allocations : Table Uuid AllocationRow
  periods : Table Uuid PeriodRow
  journalEntries : Table Uuid JournalEntryRow
  journalLines : List JournalLineRow
  vendorBills : Table Uuid VendorBillRow
  expenseCategories : Table Uuid ExpenseCategoryRow
  expenses : Table Uuid ExpenseRow
  idempotency : Table (String × String) StoredResponse
  webhookEvents : Table String String
  consolidationRuns : Table Uuid ConsolidationRunRow

def Db.empty : Db :=
  ⟨.empty, .empty, .empty, .empty, .empty, .empty, .empty, .empty, .empty, .empty, .empty, .empty,
    .empty, [], .empty, .empty, .empty, .empty, .empty, .empty⟩

end Noxara.Finance
