import Noxara.FinanceStatements
import Noxara.TransactionRows

/-! Quotes of the CRM: a header with its lines. A quote is drafted, sent, and accepted or rejected; one
with a large discount waits for an approval before it is sent. Lines of one quote are written together,
in the order of their positions. -/
namespace Noxara.Sales

open Transaction
open Finance (Uuid Timestamp Date Formats PublicId AppError internal notFound validation conflict
  uniqueViolation databaseError parsePublicId parseOptionalPublicId parseDate parseCurrency Currency
  LineInput LineTotals DocumentTotals computeDocumentTotals sumDocument i32Max i64Min i64Max)

inductive QuoteStatus
  | draft | sent | accepted | rejected | expired | pendingApproval
  deriving DecidableEq

def QuoteStatus.text : QuoteStatus → String
  | draft => "draft"
  | sent => "sent"
  | accepted => "accepted"
  | rejected => "rejected"
  | expired => "expired"
  | pendingApproval => "pending_approval"

structure QuoteRow where
  publicId : String
  dealId : Option Uuid
  customerId : Uuid
  quoteNumber : String
  status : QuoteStatus
  versionNumber : Int
  previousQuoteId : Option Uuid
  currency : String
  totals : DocumentTotals
  notes : Option String
  validUntil : Option Date
  acceptedAt : Option Timestamp
  ownerUserId : Option Uuid
  version : Int
  approvalId : Option String
  discountApprovalThresholdBps : Option Int
  deriving DecidableEq

structure QuoteLineRow where
  publicId : String
  quoteId : Uuid
  position : Nat
  productId : Option Uuid
  description : String
  quantity : Int
  unitPriceMinor : Int
  discountMinor : Int
  taxRateBps : Int
  taxMinor : Int
  lineTotalMinor : Int
  deriving DecidableEq

structure QuoteDto where
  row : QuoteRow
  lines : List QuoteLineRow
  deriving DecidableEq

/-- Events in the outbox, by the public id of the quote they tell of. -/
inductive QuoteEvent
  | created (id : String) (totalMinor : Int) (currency : String)
  | accepted (id : String) (totalMinor : Int) (currency : String)
  deriving DecidableEq

/-- The rows of other tables that quotes refer to are there with their ids only. -/
structure QuoteDb where
  quotes : Table Uuid QuoteRow
  lines : List QuoteLineRow
  events : List QuoteEvent
  idempotency : Table (String × String) (Int × QuoteDto)
  customers : List Uuid
  deals : List Uuid
  products : List Uuid
  users : List Uuid

def QuoteDb.empty : QuoteDb := ⟨.empty, [], [], .empty, [], [], [], []⟩

inductive QuoteLock
  | quote (id : Uuid)
  | quoteNumber (number : String) (version : Int)
  | idempotency (scope key : String)
  deriving DecidableEq

abbrev QuoteTx (α : Type) := Prog QuoteDb QuoteLock AppError α

namespace QuoteDb

def setQuotes (s : QuoteDb) (f : Table Uuid QuoteRow → Table Uuid QuoteRow) : QuoteDb :=
  { s with quotes := f s.quotes }

def setLines (s : QuoteDb) (f : List QuoteLineRow → List QuoteLineRow) : QuoteDb :=
  { s with lines := f s.lines }

def linesOf (quoteId : Uuid) (s : QuoteDb) : List QuoteLineRow := s.lines.filter (·.quoteId = quoteId)

@[simp] theorem setQuotes_quotes (s : QuoteDb) (f : Table Uuid QuoteRow → Table Uuid QuoteRow) :
    (s.setQuotes f).quotes = f s.quotes := rfl

@[simp] theorem setQuotes_linesOf (s : QuoteDb) (f : Table Uuid QuoteRow → Table Uuid QuoteRow)
    (quoteId : Uuid) : (s.setQuotes f).linesOf quoteId = s.linesOf quoteId := rfl

@[simp] theorem setQuotes_events (s : QuoteDb) (f : Table Uuid QuoteRow → Table Uuid QuoteRow) :
    (s.setQuotes f).events = s.events := rfl

@[simp] theorem setLines_quotes (s : QuoteDb) (f : List QuoteLineRow → List QuoteLineRow) :
    (s.setLines f).quotes = s.quotes := rfl

@[simp] theorem setLines_events (s : QuoteDb) (f : List QuoteLineRow → List QuoteLineRow) :
    (s.setLines f).events = s.events := rfl

end QuoteDb

/-- What a handler takes from outside its body and its tables: `anyScope` and `rowScope` are the two
permission checks, the second on the owner of the row, and `fresh` the UUIDs the request draws. -/
structure RequestCtx extends Finance.Caller where
  anyScope : Except AppError Unit
  rowScope : Option Uuid → Except AppError Unit
  idempotencyKey : Option String
  ifMatch : Option Int

def RequestCtx.nth (n : Nat) : RequestCtx where
  actorUserId := 2
  anyScope := .ok ()
  rowScope := fun _ => .ok ()
  idempotencyKey := none
  ifMatch := none
  now := n
  fresh k := 100 * n + k

def ensure (c : Prop) [Decidable c] (e : AppError) : Except AppError Unit := if c then .ok () else .error e

@[simp] theorem ensure_ok {c : Prop} [Decidable c] {e : AppError} : ensure c e = .ok () ↔ c := by
  unfold ensure
  split_ifs with h <;> simp [h]

@[simp] theorem ensure_bind_ok {c : Prop} [Decidable c] {e : AppError} {β : Type}
    {f : Unit → Except AppError β} {b : β} : (ensure c e >>= f) = .ok b ↔ c ∧ f () = .ok b := by
  unfold ensure
  split_ifs with h <;> simp [h, bind, Except.bind]

/-- A field of a request, or what stands for it where it is missing. -/
def givenOr {α : Type} (raw : Option String) (parse : String → Except AppError α) (otherwise : α) :
    Except AppError α :=
  match raw with
  | some s => parse s
  | none => .ok otherwise

def foreignKey (table constraint : String) : AppError :=
  databaseError s!"insert or update on table \"{table}\" violates foreign key constraint \"{constraint}\""

def fetchQuoteRow (quoteId : Uuid) : QuoteTx (Option QuoteRow) := .query fun v => v.quotes.find? quoteId

def fetchLines (quoteId : Uuid) : QuoteTx (List QuoteLineRow) := .query fun v => v.linesOf quoteId

def fetchQuoteDto (quoteId : Uuid) (missing : AppError) : QuoteTx QuoteDto := do
  let row ← fetchQuoteRow quoteId
  let row ← .okOr row missing
  let lines ← fetchLines quoteId
  return ⟨row, lines⟩

def insertQuote (id : Uuid) (row : QuoteRow) : QuoteTx Unit :=
  .execute (fun _ => [.quote id, .quoteNumber row.quoteNumber row.versionNumber])
    (fun v => do
      ensure (v.quotes.find? id = none) (uniqueViolation "sales_quote_pkey")
      ensure (∀ r ∈ v.quotes.rows, ¬(r.2.quoteNumber = row.quoteNumber ∧ r.2.versionNumber = row.versionNumber))
        (uniqueViolation "sales_quote_org_number_version_unique_idx")
      ensure (∀ d, row.dealId = some d → d ∈ v.deals) (foreignKey "sales_quote" "sales_quote_deal_id_fkey")
      ensure (row.customerId ∈ v.customers) (foreignKey "sales_quote" "sales_quote_customer_id_fkey")
      ensure (∀ u, row.ownerUserId = some u → u ∈ v.users)
        (foreignKey "sales_quote" "sales_quote_owner_user_id_fkey"))
    fun _ s => s.setQuotes (·.insert id row)

/-- `UPDATE sales_quote .. WHERE org_id = $1 AND id = $2`. -/
def updateQuoteRow (quoteId : Uuid) (change : QuoteRow → QuoteRow) : QuoteTx Unit :=
  .execute (fun _ => [.quote quoteId])
    (fun v => do
      ensure (∀ r, v.quotes.find? quoteId = some r → (change r).version ≤ i32Max)
        (databaseError "integer out of range")
      ensure (∀ r, v.quotes.find? quoteId = some r → ∀ u, (change r).ownerUserId = some u → u ∈ v.users)
        (foreignKey "sales_quote" "sales_quote_owner_user_id_fkey"))
    fun _ s => s.setQuotes (·.modify quoteId change)

def deleteLines (quoteId : Uuid) : QuoteTx Unit :=
  .execute (fun _ => []) (fun _ => .ok ()) fun _ s => s.setLines (·.filter fun l => ¬l.quoteId = quoteId)

def insertLine (line : QuoteLineRow) : QuoteTx Unit :=
  .execute (fun _ => [])
    (fun v => ensure (∀ p, line.productId = some p → p ∈ v.products)
      (foreignKey "sales_quote_line" "sales_quote_line_product_id_fkey"))
    fun _ s => s.setLines (· ++ [line])

def insertEvent (event : QuoteEvent) : QuoteTx Unit :=
  .execute (fun _ => []) (fun _ => .ok ()) fun _ s => { s with events := s.events ++ [event] }

def quoteAnswers : AnswerTable QuoteDb QuoteLock (Int × QuoteDto) where
  rows := QuoteDb.idempotency
  keep s t := { s with idempotency := t }
  lock := .idempotency

def putAnswer (scope : String) (key : Option String) (status : Int) (answer : QuoteDto) : QuoteTx Unit :=
  quoteAnswers.record key scope (status, answer)

structure CreateQuoteLineRequest where
  productId : Option String := none
  description : String := ""
  quantity : Int
  unitPriceMinor : Int
  discountMinor : Int := 0
  taxRateBps : Int := 0
  deriving DecidableEq

def CreateQuoteLineRequest.input (l : CreateQuoteLineRequest) : LineInput :=
  ⟨l.quantity, l.unitPriceMinor, l.discountMinor, l.taxRateBps⟩

def QuoteLineRow.input (l : QuoteLineRow) : LineInput :=
  ⟨l.quantity, l.unitPriceMinor, l.discountMinor, l.taxRateBps⟩

/-- The same arithmetic as for the lines of invoices. -/
abbrev computeQuoteTotals := computeDocumentTotals

def quoteTotalsError (e : Finance.MoneyError) : AppError := validation s!"invalid quote totals: {e.display}"

def computeLines (lines : List CreateQuoteLineRequest) (currency : Currency) :
    Except AppError (List LineTotals) := do
  let (computed, _) ← (computeQuoteTotals (lines.map (·.input)) currency).mapError quoteTotalsError
  return computed

section Handlers
variable [Formats]

def parseLineProductIds (lines : List CreateQuoteLineRequest) : Except AppError (List (Option Uuid)) :=
  lines.mapM fun l => parseOptionalPublicId .product l.productId

structure PricedLines where
  productIds : List (Option Uuid)
  computed : List LineTotals
  doc : DocumentTotals

def priceLines (lines : List CreateQuoteLineRequest) (currency : Currency) : Except AppError PricedLines := do
  let productIds ← parseLineProductIds lines
  let computed ← computeLines lines currency
  let doc ← (sumDocument computed).mapError quoteTotalsError
  return ⟨productIds, computed, doc⟩

/-- The line written at a position; its id is drawn after the id of its quote. -/
def quoteLine (ctx : RequestCtx) (quoteId : Uuid) (position : Nat) (line : CreateQuoteLineRequest)
    (productId : Option Uuid) (totals : LineTotals) : QuoteLineRow where
  publicId := "qtl_" ++ Formats.uuidDisplay (ctx.fresh (position + 1))
  quoteId
  position
  productId
  description := line.description
  quantity := line.quantity
  unitPriceMinor := line.unitPriceMinor
  discountMinor := line.discountMinor
  taxRateBps := line.taxRateBps
  taxMinor := totals.taxMinor
  lineTotalMinor := totals.lineTotalMinor

def quoteLines (ctx : RequestCtx) (quoteId : Uuid) (lines : List CreateQuoteLineRequest)
    (priced : PricedLines) : List QuoteLineRow :=
  ((lines.zip priced.productIds).zip priced.computed).zipIdx.map fun x =>
    quoteLine ctx quoteId x.2 x.1.1.1 x.1.1.2 x.1.2

def insertLines (ctx : RequestCtx) (quoteId : Uuid) (lines : List CreateQuoteLineRequest)
    (priced : PricedLines) : QuoteTx Unit :=
  Prog.each insertLine (quoteLines ctx quoteId lines priced)

structure CreateQuoteRequest where
  dealId : Option String := none
  customerId : String
  quoteNumber : Option String := none
  currency : Option String := none
  notes : Option String := none
  validUntil : Option String := none
  ownerUserId : Option String := none
  lines : List CreateQuoteLineRequest := []

/-- The quote that a request asks for. The number is made of the first eight digits of its id. -/
def draftQuote (ctx : RequestCtx) (body : CreateQuoteRequest) : Except AppError (QuoteRow × PricedLines) := do
  let customerId ← parsePublicId .customer body.customerId
  let dealId ← parseOptionalPublicId .deal body.dealId
  let ownerUserId ← givenOr body.ownerUserId (parsePublicId .user) ctx.actorUserId
  let currencyCode := body.currency.getD "USD"
  let currency ← parseCurrency "currency" currencyCode
  let validUntil ← parseDate body.validUntil "valid_until"
  let priced ← priceLines body.lines currency
  return ({
    publicId := (PublicId.mk .quote (ctx.fresh 0)).asStr
    dealId
    customerId
    quoteNumber := body.quoteNumber.getD
      ("Q-" ++ (String.ofList ((Formats.uuidDisplay (ctx.fresh 0)).toList.take 8)).toUpper)
    status := .draft
    versionNumber := 1
    previousQuoteId := none
    currency := currencyCode
    totals := priced.doc
    notes := body.notes
    validUntil
    acceptedAt := none
    ownerUserId := some ownerUserId
    version := 1
    approvalId := none
    discountApprovalThresholdBps := none }, priced)

def createQuote (ctx : RequestCtx) (body : CreateQuoteRequest) : QuoteTx (Nat × QuoteDto) := do
  .ofExcept ctx.anyScope
  let (row, priced) ← .ofExcept (draftQuote ctx body)
  quoteAnswers.replayOr ctx.idempotencyKey "quote.create"
      (fun stored => (Finance.Idempotency.statusFromU16 stored.1 201, stored.2)) do
    insertQuote (ctx.fresh 0) row
    insertLines ctx (ctx.fresh 0) body.lines priced
    insertEvent (.created row.publicId priced.doc.totalMinor row.currency)
    let dto ← fetchQuoteDto (ctx.fresh 0) ⟨.internal, "quote missing after insert"⟩
    putAnswer "quote.create" ctx.idempotencyKey 201 dto
    return (201, dto)

/-- The quote that a request names, where its caller may work on it. -/
def namedQuote (ctx : RequestCtx) (id : String) : QuoteTx (Uuid × QuoteRow) := do
  let quoteId ← .ofExcept (parsePublicId .quote id)
  .ofExcept ctx.anyScope
  let row ← fetchQuoteRow quoteId
  let row ← .okOr row (notFound "quote")
  .ofExcept (ctx.rowScope row.ownerUserId)
  return (quoteId, row)

structure UpdateQuoteRequest where
  notes : Option String := none
  validUntil : Option String := none
  currency : Option String := none
  ownerUserId : Option String := none
  lines : Option (List CreateQuoteLineRequest) := none

/-- The header fields of an edit. -/
structure QuoteHead where
  currencyCode : String
  currency : Currency
  notes : Option String
  validUntil : Option Date
  ownerUserId : Option Uuid

def updatedHead (row : QuoteRow) (body : UpdateQuoteRequest) : Except AppError QuoteHead := do
  let currencyCode := body.currency.getD row.currency
  let currency ← parseCurrency "currency" currencyCode
  let notes := body.notes.or row.notes
  let validUntil ← givenOr body.validUntil (fun s => parseDate (some s) "valid_until") row.validUntil
  let ownerUserId ← givenOr body.ownerUserId (fun s => (parsePublicId .user s).map some) row.ownerUserId
  return { currencyCode, currency, notes, validUntil, ownerUserId }

def QuoteLineRow.request (l : QuoteLineRow) : CreateQuoteLineRequest where
  productId := l.productId.map fun u => (PublicId.mk .product u).asStr
  description := l.description
  quantity := l.quantity
  unitPriceMinor := l.unitPriceMinor
  discountMinor := l.discountMinor
  taxRateBps := l.taxRateBps

def newVersion (ctx : RequestCtx) (quoteId : Uuid) (row : QuoteRow) (head : QuoteHead)
    (doc : DocumentTotals) : QuoteRow :=
  { row with
    publicId := (PublicId.mk .quote (ctx.fresh 0)).asStr
    status := .draft
    versionNumber := row.versionNumber + 1
    previousQuoteId := some quoteId
    currency := head.currencyCode
    totals := doc
    notes := head.notes
    validUntil := head.validUntil
    acceptedAt := none
    ownerUserId := head.ownerUserId
    version := 1
    approvalId := none
    discountApprovalThresholdBps := none }

/-- An edit in place. -/
def editHead (head : QuoteHead) (doc : DocumentTotals) (r : QuoteRow) : QuoteRow :=
  { r with
    currency := head.currencyCode
    totals := doc
    notes := head.notes
    validUntil := head.validUntil
    ownerUserId := head.ownerUserId
    version := r.version + 1 }

def forkQuote (ctx : RequestCtx) (quoteId : Uuid) (row : QuoteRow) (head : QuoteHead)
    (lines : List CreateQuoteLineRequest) (priced : PricedLines) : QuoteTx (Nat × QuoteDto) := do
  insertQuote (ctx.fresh 0) (newVersion ctx quoteId row head priced.doc)
  insertLines ctx (ctx.fresh 0) lines priced
  let dto ← fetchQuoteDto (ctx.fresh 0) ⟨.internal, "quote missing after insert"⟩
  return (201, dto)

/-- The lines are written anew where the request has some. -/
def replaceLines (ctx : RequestCtx) (quoteId : Uuid) (lines : Option (List CreateQuoteLineRequest))
    (priced : PricedLines) : QuoteTx Unit :=
  match lines with
  | none => return ()
  | some lines => do
    deleteLines quoteId
    insertLines ctx quoteId lines priced

def updateQuote (ctx : RequestCtx) (id : String) (body : UpdateQuoteRequest) : QuoteTx (Nat × QuoteDto) := do
  let (quoteId, row) ← namedQuote ctx id
  let head ← .ofExcept (updatedHead row body)
  let existing ← fetchLines quoteId
  let lineRequests := body.lines.getD (existing.map QuoteLineRow.request)
  let priced ← .ofExcept (priceLines lineRequests head.currency)
  if row.status = .accepted then
    forkQuote ctx quoteId row head lineRequests priced
  else
    updateQuoteRow quoteId (editHead head priced.doc)
    replaceLines ctx quoteId body.lines priced
    let dto ← fetchQuoteDto quoteId ⟨.internal, "quote missing after update"⟩
    return (200, dto)

def saturatingMul (a b : Int) : Int := max i64Min (min i64Max (a * b))

/-- The discount in basis points of the subtotal, as it is computed. -/
def discountBps (totals : DocumentTotals) : Int :=
  if 0 < totals.subtotalMinor then (saturatingMul totals.discountMinor 10000).tdiv totals.subtotalMinor else 0

/-- A discount that has to be approved before its quote is sent. -/
def HeldForApproval (thresholdBps : Int) (totals : DocumentTotals) : Prop :=
  thresholdBps ≤ discountBps totals ∧ 0 < totals.discountMinor

instance (thresholdBps : Int) (totals : DocumentTotals) : Decidable (HeldForApproval thresholdBps totals) :=
  inferInstanceAs (Decidable (_ ∧ _))

def linkNote (tag : String) (row : QuoteRow) : String :=
  let acceptLink := s!"/api/v1/sales/quotes/{row.publicId}/accept"
  match row.notes with
  | some existing => s!"{existing}\n[{tag}] accept link: {acceptLink}"
  | none => s!"[{tag}] accept link: {acceptLink}"

def holdQuote (approvalId : Option String) (thresholdBps : Int) (r : QuoteRow) : QuoteRow :=
  { r with
    status := .pendingApproval
    approvalId
    discountApprovalThresholdBps := some (thresholdBps.bmod 4294967296)
    version := r.version + 1 }

def sentQuote (notes : String) (r : QuoteRow) : QuoteRow :=
  { r with
    status := .sent
    notes := some notes
    version := r.version + 1 }

/-- `approval` is the id that the approval engine answers with, if it does. -/
def sendQuote (thresholdBps : Int) (ctx : RequestCtx) (id : String) (approval : Option String) :
    QuoteTx (Nat × QuoteDto) := do
  let (quoteId, row) ← namedQuote ctx id
  .require (¬(row.status = .accepted ∨ row.status = .rejected ∨ row.status = .pendingApproval))
    (conflict s!"quote is {row.status.text}, cannot send")
  if HeldForApproval thresholdBps row.totals then
    updateQuoteRow quoteId (holdQuote approval thresholdBps)
    let dto ← fetchQuoteDto quoteId ⟨.internal, "quote missing after hold"⟩
    return (200, dto)
  else
    updateQuoteRow quoteId (sentQuote (linkNote "sent" row))
    let dto ← fetchQuoteDto quoteId ⟨.internal, "quote missing after send"⟩
    return (200, dto)

/-- What the approval engine calls: a quote that waits for an approval is changed, another is answered as
it is. The owner of the row is not checked. -/
def concludeApproval (ctx : RequestCtx) (id : String) (change : QuoteRow → QuoteRow → QuoteRow) :
    QuoteTx (Nat × QuoteDto) := do
  let quoteId ← .ofExcept (parsePublicId .quote id)
  .ofExcept ctx.anyScope
  let row ← fetchQuoteRow quoteId
  let row ← .okOr row (notFound "quote")
  if row.status = .pendingApproval then
    updateQuoteRow quoteId (change row)
  let dto ← fetchQuoteDto quoteId (notFound "quote")
  return (200, dto)

def approvalComplete (ctx : RequestCtx) (id : String) : QuoteTx (Nat × QuoteDto) :=
  concludeApproval ctx id fun row => sentQuote (linkNote "approved" row)

def rejectedQuote (r : QuoteRow) : QuoteRow :=
  { r with
    status := .rejected
    version := r.version + 1 }

def approvalReject (ctx : RequestCtx) (id : String) : QuoteTx (Nat × QuoteDto) :=
  concludeApproval ctx id fun _ => rejectedQuote

def acceptedQuote (now : Timestamp) (r : QuoteRow) : QuoteRow :=
  { r with
    status := .accepted
    acceptedAt := some now
    version := r.version + 1 }

def acceptQuote (ctx : RequestCtx) (id : String) : QuoteTx (Nat × QuoteDto) := do
  let (quoteId, row) ← namedQuote ctx id
  if row.status = .accepted then
    -- Idempotent: already accepted, no second event.
    let dto ← fetchQuoteDto quoteId ⟨.internal, "quote missing"⟩
    return (200, dto)
  else
    .require (row.status ≠ .rejected) (conflict "quote already rejected")
    .require (row.status ≠ .pendingApproval) (conflict "quote discount is pending approval; cannot accept yet")
    updateQuoteRow quoteId (acceptedQuote ctx.now)
    insertEvent (.accepted row.publicId row.totals.totalMinor row.currency)
    let dto ← fetchQuoteDto quoteId ⟨.internal, "quote missing after accept"⟩
    return (200, dto)

def rejectNotes (notes reason : Option String) : Option String :=
  match notes, reason with
  | some existing, some reason => some s!"{existing}\n[rejected] {reason}"
  | none, some reason => some s!"[rejected] {reason}"
  | existing, none => existing

def rejectedWithNotes (notes : Option String) (r : QuoteRow) : QuoteRow := { rejectedQuote r with notes }

def rejectQuote (ctx : RequestCtx) (id : String) (reason : Option String) : QuoteTx (Nat × QuoteDto) := do
  let (quoteId, row) ← namedQuote ctx id
  .require (row.status ≠ .accepted) (conflict "accepted quote cannot be rejected")
  if row.status = .rejected then
    let dto ← fetchQuoteDto quoteId ⟨.internal, "quote missing"⟩
    return (200, dto)
  else
    updateQuoteRow quoteId (rejectedWithNotes (rejectNotes row.notes reason))
    let dto ← fetchQuoteDto quoteId ⟨.internal, "quote missing after reject"⟩
    return (200, dto)

inductive QuoteRequest
  | create (ctx : RequestCtx) (body : CreateQuoteRequest)
  | update (ctx : RequestCtx) (id : String) (body : UpdateQuoteRequest)
  | send (ctx : RequestCtx) (id : String) (approval : Option String)
  | approvalComplete (ctx : RequestCtx) (id : String)
  | approvalReject (ctx : RequestCtx) (id : String)
  | accept (ctx : RequestCtx) (id : String)
  | reject (ctx : RequestCtx) (id : String) (reason : Option String)

/-- `thresholdBps` is the setting of the service. -/
def QuoteRequest.body (thresholdBps : Int) : QuoteRequest → QuoteTx (Nat × QuoteDto)
  | create ctx body => createQuote ctx body
  | update ctx id body => updateQuote ctx id body
  | send ctx id approval => sendQuote thresholdBps ctx id approval
  | approvalComplete ctx id => Sales.approvalComplete ctx id
  | approvalReject ctx id => Sales.approvalReject ctx id
  | accept ctx id => acceptQuote ctx id
  | reject ctx id reason => rejectQuote ctx id reason

end Handlers

end Noxara.Sales
