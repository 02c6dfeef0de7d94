import Noxara.FinanceSchema
import Noxara.TransactionProgram

/-! The statements and checks the finance handlers share: request context, row locks,
identifier parsing, the idempotency store, and reads and updates of invoices under the
immutability triggers. -/
namespace Noxara.Finance

open Transaction

/-- What a statement locks: a row, or the place of a row in a unique index. -/
inductive RowKey
  | account (code : String)
  | entity (id : Uuid)
  | entityCode (code : String)
  | invoiceSeq (year : Int)
  | invoice (id : Uuid)
  | invoiceNumber (number : String)
  | invoiceLine (id : Uuid)
  | creditNote (id : Uuid)
  | creditNumber (number : String)
  | payment (id : Uuid)
  | providerEvent (provider eventId : String)
  | allocation (id : Uuid)
  | period (id : Uuid)
  | periodCode (code : String)
  | journalEntry (id : Uuid)
  | payrollSource (sourceId : Uuid)
  | vendorBill (id : Uuid)
  | expense (id : Uuid)
  | idempotency (scope key : String)
  | webhookEvent (eventId : String)
  | consolidationRun (id : Uuid)
  deriving DecidableEq

/-- How a handler leaves its transaction without committing: with an error, or with a
success response whose transaction is dropped. -/
inductive TxExit
  | error (e : AppError)
  | answered (r : Response)
  deriving DecidableEq

abbrev Tx := Prog Db RowKey TxExit

inductive Permission
  | invoiceCreate | invoiceUpdate | invoiceIssue | invoiceSend | invoiceVoid | paymentCreate
  | paymentAllocate | creditNoteCreate | journalPost | periodClose | periodReopen
  | consolidationRun | expenseApprove
  deriving DecidableEq

/-- What a handler takes from outside its body and its tables. `authorize` and
`authorizeOwner` are the decisions of the membership tables, and `pick` is the row a `LIMIT 1`
without an order returns. -/
structure RequestCtx extends Caller where
  authorize : Permission → Except AppError Unit
  authorizeOwner : Permission → Uuid → Except AppError Unit
  idempotencyKey : Option String
  ifMatch : Option Int
  today : Date
  pick : Nat → Nat

def ensure (c : Prop) [Decidable c] (e : AppError) : Except TxExit Unit :=
  if c then .ok () else .error (.error e)

@[simp] theorem ensure_ok {c : Prop} [Decidable c] {e : AppError} :
    ensure c e = .ok () ↔ c := by
  unfold ensure
  split_ifs with h <;> simp [h]

@[simp] theorem ensure_bind_ok {c : Prop} [Decidable c] {e : AppError} {β : Type}
    {f : Unit → Except TxExit β} {b : β} :
    (ensure c e >>= f) = .ok b ↔ c ∧ f () = .ok b := by
  unfold ensure
  split_ifs with h <;> simp [h, bind, Except.bind]

def lift {α : Type} (x : Except AppError α) : Tx α := Prog.ofExcept (x.mapError .error)

@[simp] theorem mapError_ok {ε δ α : Type} {x : Except ε α} {f : ε → δ} {a : α} :
    x.mapError f = .ok a ↔ x = .ok a := by
  cases x <;> simp [Except.mapError]

@[simp] theorem run_lift_bind_ok {α β : Type} {x : Except AppError α} {g : α → Tx β} {s : Db}
    {r : β × Db} : (lift x >>= g).run s = .ok r ↔ ∃ a, x = .ok a ∧ (g a).run s = .ok r := by
  simp [lift]

@[simp] theorem run_lift_ok {α : Type} {x : Except AppError α} {s : Db} {r : α × Db} :
    (lift x).run s = .ok r ↔ x = .ok r.1 ∧ r.2 = s := by
  simp [lift]

theorem gated_lift_bind {k : RowKey} {α β : Type} {x : Except AppError α} {f : α → Tx β}
    (hf : ∀ a, x = .ok a → (f a).Gated k) : (lift x >>= f).Gated k :=
  .ofExcept_bind fun a h => hf a (mapError_ok.mp h)

def TxExit.IsError : TxExit → Prop
  | .error _ => True
  | .answered _ => False

theorem exits_lift {α : Type} (x : Except AppError α) : (lift x).Exits TxExit.IsError := by
  cases x <;> trivial

theorem ensure_isError {c : Prop} [Decidable c] {e : AppError} {x : TxExit}
    (h : ensure c e = .error x) : x.IsError := by
  unfold ensure at h
  split_ifs at h
  cases h
  trivial

theorem ensure_bind_isError {c : Prop} [Decidable c] {e : AppError} {β : Type}
    {f : Unit → Except TxExit β} (hf : ∀ x, f () = .error x → x.IsError) {x : TxExit}
    (h : (ensure c e >>= f) = .error x) : x.IsError := by
  unfold ensure at h
  split_ifs at h
  · exact hf x h
  · cases h
    trivial

def uniqueViolation (constraint : String) : AppError :=
  internal s!"error returned from database: duplicate key value violates unique constraint \"{constraint}\""

def databaseError (message : String) : AppError :=
  internal s!"error returned from database: {message}"

def foundOr {α : Type} (x : Option α) (e : AppError) : Except AppError α :=
  match x with | some a => .ok a | none => .error e

@[simp] theorem foundOr_ok {α : Type} {x : Option α} {e : AppError} {a : α} :
    foundOr x e = .ok a ↔ x = some a := by
  cases x <;> simp [foundOr]

section Parsing
variable [Formats]

def parsePublicId (kind : IdKind) (raw : String) : Except AppError Uuid :=
  parseIdOfKind s!"invalid id: {raw}" s!"id {raw} is not a {kind.spec.1} id" kind raw

def parseOptionalPublicId (kind : IdKind) : Option String → Except AppError (Option Uuid)
  | none => .ok none
  | some s => if trim s = "" then .ok none else (parsePublicId kind s).map some

def parseDate (raw : Option String) (field : String) : Except AppError (Option Date) :=
  match raw with
  | none => .ok none
  | some s =>
    match Formats.dateParseFromStr s with
    | some d => .ok (some d)
    | none => .error (validation s!"{field} must be YYYY-MM-DD")

end Parsing

def parseCurrency (field code : String) : Except AppError Currency :=
  (Currency.new code).mapError fun e => validation s!"invalid {field}: {e.display}"

namespace Idempotency

def answers : AnswerTable Db RowKey StoredResponse where
  rows := Db.idempotency
  keep db t := { db with idempotency := t }
  lock := .idempotency

def get (scope key : String) : Tx (Option StoredResponse) := answers.get scope key

/-- `StatusCode::from_u16` of a stored status, or the endpoint's own status. -/
def statusFromU16 (status : Int) (default : Nat) : Nat :=
  let u := (status % 65536).toNat
  if 100 ≤ u ∧ u ≤ 999 then u else default

def replayOr (key : Option String) (scope : String) (default : Nat) (handler : Tx Response) :
    Tx Response :=
  answers.replayOr key scope (fun stored => ⟨statusFromU16 stored.responseStatus default, stored.responseBody⟩)
    handler

def record (key : Option String) (scope : String) (status : Int) (body : Body) : Tx Unit :=
  answers.record key scope ⟨status, body⟩

theorem exits_record (key : Option String) (scope : String) (status : Int) (body : Body) :
    (record key scope status body).Exits TxExit.IsError := answers.exits_record key scope _

def lookup (db : Db) (key : Option String) (scope : String) : Option StoredResponse :=
  answers.lookup db key scope

theorem lookup_key {db : Db} {key : Option String} {scope k : String} (h : key = some k) :
    lookup db key scope = db.idempotency.find? (scope, k) := by
  rw [h]
  rfl

theorem replayOr_ok {key : Option String} {scope : String} {default : Nat} {handler : Tx Response}
    {s : Db} {r : Response × Db} :
    (replayOr key scope default handler).run s = .ok r ↔
      (∃ stored, lookup s key scope = some stored ∧
        r = (⟨statusFromU16 stored.responseStatus default, stored.responseBody⟩, s)) ∨
      (lookup s key scope = none ∧ handler.run s = .ok r) := AnswerTable.replayOr_ok

def recorded (db : Db) (key : Option String) (scope : String) (status : Int) (body : Body) :
    Table (String × String) StoredResponse := answers.recorded db key scope ⟨status, body⟩

@[simp] theorem run_record_bind_ok {β : Type} {key : Option String} {scope : String} {status : Int}
    {body : Body} {g : Unit → Tx β} {s : Db} {r : β × Db} :
    (record key scope status body >>= g).run s = .ok r ↔
      (g ()).run { s with idempotency := recorded s key scope status body } = .ok r := by
  rw [Prog.run_bind_ok]
  simp only [record, AnswerTable.run_record_ok (t := answers) fun _ => rfl]
  constructor
  · rintro ⟨_, _, ⟨⟩, h⟩
    exact h
  · exact fun h => ⟨_, _, rfl, h⟩

end Idempotency

/-- The trigger on updates of `finance_invoice`. -/
def invoiceGuard (old new : InvoiceRow) : Prop :=
  old.status = .draft ∨
    (new.publicId = old.publicId ∧ new.customerId = old.customerId ∧
      new.invoiceNumber = old.invoiceNumber ∧ new.currency = old.currency ∧
      new.subtotalMinor = old.subtotalMinor ∧ new.discountMinor = old.discountMinor ∧
      new.taxMinor = old.taxMinor ∧ new.totalMinor = old.totalMinor ∧
      new.baseTotalMinor = old.baseTotalMinor ∧ new.fxRateNum = old.fxRateNum ∧
      new.fxRateDen = old.fxRateDen ∧ new.sourceQuotePublicId = old.sourceQuotePublicId)

instance (old new : InvoiceRow) : Decidable (invoiceGuard old new) := by
  unfold invoiceGuard
  infer_instance

def Db.NumberFree (db : Db) (id : Uuid) (number : Option String) : Prop :=
  number = none ∨ ∀ r ∈ db.invoices.rows, r.1 ≠ id → r.2.invoiceNumber ≠ number

instance (db : Db) (id : Uuid) (number : Option String) : Decidable (db.NumberFree id number) := by
  unfold Db.NumberFree
  infer_instance

/-- What the constraints and the trigger ask of an update of an invoice. -/
def Db.InvoiceUpdate (db : Db) (id : Uuid) (old new : InvoiceRow) : Prop :=
  invoiceGuard old new ∧ db.NumberFree id new.invoiceNumber ∧ new.version ≤ i32Max

/-- `UPDATE finance_invoice SET .. WHERE id = $2 AND cond`: no effect on no row. -/
def updateInvoice (id : Uuid) (cond : InvoiceRow → Bool) (f : InvoiceRow → InvoiceRow) : Tx Unit :=
  Prog.execute
    (fun v => match v.invoices.find? id with
      | some r => if cond r then [.invoice id] else []
      | none => [])
    (fun v => match v.invoices.find? id with
      | some r =>
        if cond r then do
          ensure (invoiceGuard r (f r))
            (databaseError "finance immutability: cannot mutate issued invoice document fields")
          ensure (v.NumberFree id (f r).invoiceNumber)
            (uniqueViolation "finance_invoice_org_id_invoice_number_key")
          ensure ((f r).version ≤ i32Max) (databaseError "integer out of range")
        else .ok ()
      | none => .ok ())
    fun v db => match v.invoices.find? id with
      | some r => if cond r then { db with invoices := db.invoices.modify id f } else db
      | none => db

/-- An update whose row is there and meets its condition. -/
theorem run_updateInvoice_ok {id : Uuid} {cond : InvoiceRow → Bool} {f : InvoiceRow → InvoiceRow}
    {s : Db} {r : Unit × Db} {inv : InvoiceRow} (h : s.invoices.find? id = some inv)
    (hc : cond inv = true) :
    (updateInvoice id cond f).run s = .ok r ↔
      s.InvoiceUpdate id inv (f inv) ∧ r = ((), { s with invoices := s.invoices.modify id f }) := by
  simp only [updateInvoice, Prog.run_execute_ok, h, hc, if_true, ensure_bind_ok, ensure_ok,
    Db.InvoiceUpdate]

theorem run_updateInvoice_bind_ok {β : Type} {id : Uuid} {cond : InvoiceRow → Bool}
    {f : InvoiceRow → InvoiceRow} {g : Unit → Tx β} {s : Db} {r : β × Db} {inv : InvoiceRow}
    (h : s.invoices.find? id = some inv) (hc : cond inv = true) :
    (updateInvoice id cond f >>= g).run s = .ok r ↔
      s.InvoiceUpdate id inv (f inv) ∧
        (g ()).run { s with invoices := s.invoices.modify id f } = .ok r := by
  simp only [updateInvoice, Prog.run_execute_bind_ok, h, hc, if_true, ensure_bind_ok, ensure_ok,
    Db.InvoiceUpdate]

/-- The trigger on `finance_invoice_line`: the lines of an issued invoice are immutable. -/
def Db.LinesOpen (db : Db) (invoiceId : Uuid) : Prop :=
  match db.invoices.find? invoiceId with
  | some inv => inv.status = .draft
  | none => True

instance (db : Db) (invoiceId : Uuid) : Decidable (db.LinesOpen invoiceId) := by
  unfold Db.LinesOpen
  split <;> infer_instance

def Db.fetchInvoiceRow (db : Db) (id : Uuid) : Option InvoiceRow :=
  (db.invoices.find? id).bind fun row => (db.customers.find? row.customerId).map fun _ => row

theorem Db.fetchInvoiceRow_some {db : Db} {id : Uuid} {row : InvoiceRow}
    (h : db.fetchInvoiceRow id = some row) : db.invoices.find? id = some row := by
  obtain ⟨r, hr, hm⟩ := Option.bind_eq_some_iff.mp h
  obtain ⟨_, _, rfl⟩ := Option.map_eq_some_iff.mp hm
  exact hr

/-- The lines of an invoice, `ORDER BY position`. -/
def Db.fetchLines (db : Db) (id : Uuid) : List (Uuid × InvoiceLineRow) :=
  (db.invoiceLines.rows.filter fun r => r.2.invoiceId = id).mergeSort
    fun a b => a.2.position ≤ b.2.position

def assembleDto (db : Db) (row : InvoiceRow) (customer : CustomerRow)
    (lines : List (Uuid × InvoiceLineRow)) : InvoiceDto where
  id := row.publicId
  customerId := customer.publicId
  status := row.status
  invoiceNumber := row.invoiceNumber
  currency := row.currency
  baseCurrency := row.baseCurrency
  fxRateNum := row.fxRateNum
  fxRateDen := row.fxRateDen
  fxRateDate := row.fxRateDate
  subtotalMinor := row.subtotalMinor
  discountMinor := row.discountMinor
  taxMinor := row.taxMinor
  totalMinor := row.totalMinor
  baseTotalMinor := row.baseTotalMinor
  amountPaidMinor := row.amountPaidMinor
  amountCreditedMinor := row.amountCreditedMinor
  balanceMinor := row.balanceMinor
  issueDate := row.issueDate
  dueDate := row.dueDate
  paymentUrl := row.paymentUrl
  sourceQuoteId := row.sourceQuotePublicId
  notes := row.notes
  terms := row.terms
  entityId := row.entityId.bind fun e => (db.entities.find? e).map (·.publicId)
  version := row.version
  lines := lines.map fun l =>
    { id := l.2.publicId
      description := l.2.description
      quantity := l.2.quantity
      unitPriceMinor := l.2.unitPriceMinor
      discountMinor := l.2.discountMinor
      taxRateBps := l.2.taxRateBps
      taxMinor := l.2.taxMinor
      lineTotalMinor := l.2.lineTotalMinor
      taxRateId := l.2.taxRateId.bind fun t => (db.taxRates.find? t).map (·.publicId)
      taxGroupId := l.2.taxGroupId.bind fun t => (db.taxGroups.find? t).map (·.publicId) }
  createdAt := row.createdAt
  updatedAt := row.updatedAt

def Db.fetchInvoiceDto (db : Db) (id : Uuid) : Option InvoiceDto :=
  (db.invoices.find? id).bind fun row =>
    (db.customers.find? row.customerId).map fun c => assembleDto db row c (db.fetchLines id)

/-- Request number `n` of an actor with every permission, with identifiers of its own. -/
def RequestCtx.nth (n : Nat) : RequestCtx where
  actorUserId := 1
  authorize _ := .ok ()
  authorizeOwner _ _ := .ok ()
  idempotencyKey := none
  ifMatch := some 1
  now := 0
  today := ⟨2024, 3, 15, by decide⟩
  fresh k := 100 * n + k
  pick _ := 0

def Db.oneCustomer [Formats] : Db :=
  { Db.empty with customers := Table.empty.insert 1 ⟨(PublicId.mk .customer 1).asStr⟩ }

/-- Two customers, and an issued invoice of one dollar to the first. -/
def Db.oneIssued [Formats] : Db :=
  { Db.oneCustomer with
    customers := (Table.empty.insert 1 ⟨(PublicId.mk .customer 1).asStr⟩).insert 2
      ⟨(PublicId.mk .customer 2).asStr⟩
    invoices := Table.empty.insert 21
      { publicId := (PublicId.mk .invoice 21).asStr
        customerId := 1
        ownerUserId := 1
        status := .issued
        invoiceNumber := some "INV-2024-000001"
        currency := "USD"
        baseCurrency := "USD"
        fxRateNum := some 1
        fxRateDen := some 1
        fxRateDate := some ⟨2024, 3, 15, by decide⟩
        subtotalMinor := 100
        discountMinor := 0
        taxMinor := 0
        totalMinor := 100
        baseTotalMinor := 100
        amountPaidMinor := 0
        amountCreditedMinor := 0
        balanceMinor := 100
        issueDate := some ⟨2024, 3, 15, by decide⟩
        dueDate := none
        paymentUrl := none
        sourceQuotePublicId := none
        notes := none
        terms := none
        entityId := none
        version := 2
        createdAt := 0
        updatedAt := 0 } }

/-- A draft over one dollar with its line. -/
def Db.oneDraft [Formats] : Db :=
  { Db.oneCustomer with
    invoices := Table.empty.insert 31
      { publicId := (PublicId.mk .invoice 31).asStr
        customerId := 1
        ownerUserId := 1
        status := .draft
        invoiceNumber := none
        currency := "USD"
        baseCurrency := "USD"
        fxRateNum := none
        fxRateDen := none
        fxRateDate := none
        subtotalMinor := 100
        discountMinor := 0
        taxMinor := 0
        totalMinor := 100
        baseTotalMinor := 0
        amountPaidMinor := 0
        amountCreditedMinor := 0
        balanceMinor := 0
        issueDate := none
        dueDate := none
        paymentUrl := none
        sourceQuotePublicId := none
        notes := none
        terms := none
        entityId := none
        version := 1
        createdAt := 0
        updatedAt := 0 }
    invoiceLines := Table.empty.insert 32
      { invoiceId := 31
        publicId := "inl_32"
        position := 0
        description := "Consulting"
        quantity := 1
        unitPriceMinor := 100
        discountMinor := 0
        taxRateBps := 0
        taxMinor := 0
        lineTotalMinor := 100
        taxRateId := none
        taxGroupId := none } }

end Noxara.Finance
