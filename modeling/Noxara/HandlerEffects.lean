import Noxara.FinanceReceipts

/-! What the invoice and receipt handlers do to the store when they succeed: one relation for
each effect they share and one inversion lemma for each handler. -/
namespace Noxara.Finance

open Transaction

theorem seeded_replayOr_ok {ctx : RequestCtx} {scope : String} {default : Nat}
    {handler : Tx Response} {s t : Db} {r : Response}
    (h : (ensureLedgerAccounts >>= fun _ =>
      Idempotency.replayOr ctx.idempotencyKey scope default handler).run s = .ok (r, t)) :
    ∃ accounts,
      (∃ stored, Idempotency.lookup s ctx.idempotencyKey scope = some stored ∧
        r = ⟨Idempotency.statusFromU16 stored.responseStatus default, stored.responseBody⟩ ∧
        t = { s with accounts }) ∨
      (Idempotency.lookup s ctx.idempotencyKey scope = none ∧
        handler.run { s with accounts } = .ok (r, t)) := by
  obtain ⟨accounts, h⟩ := run_ensureLedgerAccounts_bind h
  refine ⟨accounts, ?_⟩
  rcases Idempotency.replayOr_ok.mp h with ⟨stored, hl, he⟩ | hrun
  · obtain ⟨rfl, rfl⟩ := Prod.mk.inj he
    exact .inl ⟨stored, hl, rfl, rfl⟩
  · exact .inr hrun

theorem run_seeded_replay {key : Option String} {scope : String} {default : Nat}
    {handler : Tx Response} {s : Db} {stored : StoredResponse}
    (h : Idempotency.lookup s key scope = some stored) :
    ∃ accounts, (ensureLedgerAccounts >>= fun _ => Idempotency.replayOr key scope default handler).run s =
      .ok (⟨Idempotency.statusFromU16 stored.responseStatus default, stored.responseBody⟩,
        { s with accounts }) := by
  obtain ⟨accounts, hrun⟩ := upsertAccounts_run standardAccounts s
  refine ⟨accounts, ?_⟩
  rw [Prog.run_bind, ensureLedgerAccounts, hrun]
  exact Idempotency.replayOr_ok.mpr (.inl ⟨stored, h, rfl⟩)

/-- `amount` of a payment was allocated to an invoice that was neither draft nor void. -/
def Allocated (ctx : RequestCtx) (paymentId invoiceId : Uuid) (amount : Int) (s t : Db) : Prop :=
  ∃ inv pay, ∃ positive : 0 < amount,
    s.invoices.find? invoiceId = some inv ∧ s.payments.find? paymentId = some pay ∧ inv.status ≠ .draft ∧
      inv.status ≠ .void ∧ amount ≤ inv.balanceMinor ∧
    amount ≤ pay.amountUnappliedMinor ∧ s.allocations.find? (ctx.fresh 4) = none ∧
    t = { s with
      allocations := s.allocations.insert (ctx.fresh 4) ⟨paymentId, invoiceId, amount, positive⟩
      payments := s.payments.modify paymentId (PaymentRow.allocate amount)
      invoices := s.invoices.modify invoiceId (inv.pay ctx.now amount) }

theorem applyAllocation_ok {ctx : RequestCtx} {paymentId invoiceId : Uuid} {amount : Int}
    {s t : Db} (h : (applyAllocation ctx paymentId invoiceId amount).run s = .ok ((), t)) :
    Allocated ctx paymentId invoiceId amount s t := by
  simp only [applyAllocation, lockInvoice, Prog.run_require_bind_ok, Prog.run_queryForUpdate_bind,
    run_lift_bind_ok, foundOr_ok, insertAllocation, updatePayment, Prog.run_execute_bind_ok,
    ensure_bind_ok, ensure_ok] at h
  obtain ⟨hpos, inv, hinv, ⟨hdraft, hvoid⟩, hbal, pay, hpay, hun, ⟨hfree, _⟩, _, h⟩ := h
  rw [dif_pos hpos] at h
  obtain ⟨_, ht⟩ := (run_updateInvoice_ok (by exact hinv) rfl).mp h
  exact ⟨inv, pay, hpos, hinv, hpay, hdraft, hvoid, hbal, hun, hfree, congrArg Prod.snd ht⟩

/-- The allocation step of a new payment. -/
def AllocatedTo (ctx : RequestCtx) (paymentId : Uuid) (amount : Int) (invoiceId : Option Uuid)
    (s t : Db) : Prop :=
  (∃ i, invoiceId = some i ∧ Allocated ctx paymentId i amount s t) ∨
    ((invoiceId = none ∨ amount ≤ 0) ∧ t = s)

theorem allocateTo_ok {ctx : RequestCtx} {paymentId : Uuid} {amount : Int}
    {invoiceId : Option Uuid} {s t : Db}
    (h : (allocateTo ctx paymentId amount invoiceId).run s = .ok ((), t)) :
    AllocatedTo ctx paymentId amount invoiceId s t := by
  cases invoiceId with
  | none =>
    cases h
    exact .inr ⟨.inl rfl, rfl⟩
  | some i =>
    simp only [allocateTo] at h
    split_ifs at h with hpos
    · exact .inl ⟨i, rfl, applyAllocation_ok h⟩
    · cases h
      exact .inr ⟨.inr (by omega), rfl⟩

/-- A payment came in: its row, its entry, and what it settles at once. -/
structure Received [Formats] (ctx : RequestCtx) (id : Uuid) (row : PaymentRow) (amount : Int)
    (invoiceId : Option Uuid) (s t : Db) : Prop where
  unused : s.payments.find? id = none
  posted : ∃ currency journal s', paymentEntry id currency amount (row.amountMinor - amount) = .ok journal ∧
    Posted ctx journal { s with payments := s.payments.insert id row } s' ∧
    AllocatedTo ctx id amount invoiceId s' t

variable [Formats]

theorem received_ok {β : Type} {ctx : RequestCtx} {id : Uuid} {row : PaymentRow} {e : AppError}
    {currency : Currency} {amount : Int} {invoiceId : Option Uuid} {g : Unit → Tx β} {s : Db}
    {r : β × Db}
    (h : (insertPayment id row e >>= fun _ =>
      lift (journalError (paymentEntry id currency amount (row.amountMinor - amount))) >>= fun j =>
      postJournal ctx j >>= fun _ => allocateTo ctx id amount invoiceId >>= g).run s = .ok r) :
    ∃ t, Received ctx id row amount invoiceId s t ∧ (g ()).run t = .ok r := by
  simp only [insertPayment, Prog.run_execute_bind_ok, ensure_bind_ok, ensure_ok, run_lift_bind_ok,
    journalError, mapError_ok] at h
  obtain ⟨⟨hfree, _⟩, journal, hj, h⟩ := h
  obtain ⟨_, s', hp, h⟩ := Prog.run_bind_ok.mp h
  obtain ⟨_, t, ha, h⟩ := Prog.run_bind_ok.mp h
  exact ⟨t, ⟨hfree, currency, journal, s', hj, (postJournal_ok hp).2, allocateTo_ok ha⟩, h⟩

/-- The invoice a recorded payment names belongs to its customer and can be paid. -/
def RecordTarget (s : Db) (customerId : Uuid) (total : Int) (invoiceId : Option Uuid)
    (amount : Int) : Prop :=
  match invoiceId with
  | none => amount = 0
  | some i => ∃ inv, s.invoices.find? i = some inv ∧ inv.customerId = customerId ∧
      inv.status ≠ .draft ∧ inv.status ≠ .void ∧ amount = min total inv.balanceMinor

omit [Formats] in
theorem run_recordAllocation_bind_ok {β : Type} {customerId : Uuid} {total : Int}
    {invoiceId : Option Uuid} {g : Int → Tx β} {s : Db} {r : β × Db}
    (h : (recordAllocation customerId total invoiceId >>= g).run s = .ok r) :
    ∃ amount, RecordTarget s customerId total invoiceId amount ∧ (g amount).run s = .ok r := by
  cases invoiceId with
  | none => exact ⟨0, rfl, h⟩
  | some i =>
    simp only [recordAllocation, bind_assoc, Prog.run_query_bind, run_lift_bind_ok,
      foundOr_ok, Prog.run_require_bind_ok] at h
    obtain ⟨inv, hinv, hc, ⟨hd, hv⟩, h⟩ := h
    exact ⟨_, ⟨inv, hinv, hc, hd, hv, rfl⟩, h⟩

def RecordPaymentRequest.row (body : RecordPaymentRequest) (ctx : RequestCtx) (customerId : Uuid)
    (receivedAt : Timestamp) : PaymentRow :=
  { publicId := (PublicId.mk .payment (ctx.fresh 2)).asStr
    customerId
    ownerUserId := ctx.actorUserId
    currency := body.currency
    amountMinor := body.amountMinor
    amountAllocatedMinor := 0
    amountUnappliedMinor := body.amountMinor
    method := .manual
    provider := none
    providerEventId := none
    receivedAt
    notes := body.notes }

theorem recordPayment_ok {ctx : RequestCtx} {body : RecordPaymentRequest} {s t : Db} {r : Response}
    (h : (recordPayment ctx body).run s = .ok (r, t)) :
    ∃ accounts,
      (∃ stored, Idempotency.lookup s ctx.idempotencyKey "payment.record" = some stored ∧
        r = ⟨Idempotency.statusFromU16 stored.responseStatus 201, stored.responseBody⟩ ∧
        t = { s with accounts }) ∨
      (Idempotency.lookup s ctx.idempotencyKey "payment.record" = none ∧
        ∃ customerId invoiceId receivedAt amount s' dto, 0 < body.amountMinor ∧
          s.findCustomer body.customerId = some customerId ∧
          parseOptionalInvoice body.invoiceId = .ok invoiceId ∧
          RecordTarget s customerId body.amountMinor invoiceId amount ∧
          Received ctx (ctx.fresh 2) (body.row ctx customerId receivedAt) amount invoiceId
            { s with accounts } s' ∧
          s'.fetchPaymentDto (ctx.fresh 2) = some dto ∧ r = ⟨201, .payment dto⟩ ∧
          t = { s' with idempotency :=
            Idempotency.recorded s' ctx.idempotencyKey "payment.record" 201 (.payment dto) }) := by
  simp only [recordPayment, run_lift_bind_ok, Prog.run_require_bind_ok] at h
  obtain ⟨_, _, hpos, currency, _, _, _, invoiceId, hi, receivedAt, _, h⟩ := h
  obtain ⟨accounts, h⟩ := seeded_replayOr_ok h
  refine ⟨accounts, h.imp_right ?_⟩
  rintro ⟨hl, h⟩
  simp only [Prog.run_query_bind, run_lift_bind_ok, foundOr_ok] at h
  obtain ⟨customerId, hc, h⟩ := h
  obtain ⟨amount, hm, h⟩ := run_recordAllocation_bind_ok h
  obtain ⟨s', hr, h⟩ := received_ok h
  simp only [Prog.run_query_bind, run_lift_bind_ok, foundOr_ok, Idempotency.run_record_bind_ok] at h
  obtain ⟨dto, hdto, h⟩ := h
  cases h
  exact ⟨hl, customerId, invoiceId, receivedAt, amount, s', dto, hpos, hc, hi, hm, hr, hdto, rfl, rfl⟩

theorem allocatePayment_ok {ctx : RequestCtx} {id : String} {body : AllocatePaymentRequest}
    {s t : Db} {r : Response} (h : (allocatePayment ctx id body).run s = .ok (r, t)) :
    ∃ accounts paymentId invoiceId, parsePublicId .payment id = .ok paymentId ∧
      parsePublicId .invoice body.invoiceId = .ok invoiceId ∧
      ((∃ stored, Idempotency.lookup s ctx.idempotencyKey (allocateScope id) = some stored ∧
        r = ⟨Idempotency.statusFromU16 stored.responseStatus 200, stored.responseBody⟩ ∧
        t = { s with accounts }) ∨
      (Idempotency.lookup s ctx.idempotencyKey (allocateScope id) = none ∧
        ∃ currency journal s₁ s₂ dto,
          Allocated ctx paymentId invoiceId body.amountMinor { s with accounts } s₁ ∧
          allocationEntry paymentId currency body.amountMinor = .ok journal ∧
          Posted ctx journal s₁ s₂ ∧
          s₂.fetchPaymentDto paymentId = some dto ∧ r = ⟨200, .payment dto⟩ ∧
          t = { s₂ with idempotency :=
            Idempotency.recorded s₂ ctx.idempotencyKey (allocateScope id) 200 (.payment dto) })) := by
  simp only [allocatePayment, run_lift_bind_ok, Prog.run_require_bind_ok] at h
  obtain ⟨paymentId, hp, invoiceId, hi, _, _, hpos, h⟩ := h
  obtain ⟨accounts, h⟩ := seeded_replayOr_ok h
  refine ⟨accounts, paymentId, invoiceId, hp, hi, h.imp_right ?_⟩
  rintro ⟨hl, h⟩
  simp only [Prog.run_query_bind, run_lift_bind_ok, foundOr_ok] at h
  obtain ⟨pay, _, currency, _, h⟩ := h
  obtain ⟨_, s₁, ha, h⟩ := Prog.run_bind_ok.mp h
  simp only [run_lift_bind_ok, journalError, mapError_ok] at h
  obtain ⟨journal, hj, h⟩ := h
  obtain ⟨_, s₂, hpost, h⟩ := Prog.run_bind_ok.mp h
  simp only [Prog.run_query_bind, run_lift_bind_ok, foundOr_ok, Idempotency.run_record_bind_ok] at h
  obtain ⟨dto, hdto, h⟩ := h
  cases h
  exact ⟨hl, currency, journal, s₁, s₂, dto, applyAllocation_ok ha, hj, (postJournal_ok hpost).2,
    hdto, rfl, rfl⟩

def StripeWebhookRequest.row (body : StripeWebhookRequest) (ctx : RequestCtx) (customerId : Uuid) :
    PaymentRow :=
  { publicId := (PublicId.mk .payment (ctx.fresh 2)).asStr
    customerId
    ownerUserId := ctx.actorUserId
    currency := toUppercase body.object.currency
    amountMinor := body.object.amount
    amountAllocatedMinor := 0
    amountUnappliedMinor := body.object.amount
    method := .stripeWebhook
    provider := some "stripe"
    providerEventId := some body.id
    receivedAt := ctx.now
    notes := some s!"stripe {body.object.id}" }

/-- The part of a provider's payment that goes to the invoice it names, when that can be paid. -/
def WebhookTarget (s : Db) (total : Int) (invoiceId : Option Uuid) (amount : Int) : Prop :=
  (∃ i inv, invoiceId = some i ∧ s.invoices.find? i = some inv ∧
    inv.status ≠ .draft ∧ inv.status ≠ .void ∧ amount = min total inv.balanceMinor) ∨
  (amount = 0 ∧ ∀ i inv, invoiceId = some i → s.invoices.find? i = some inv →
    inv.status = .draft ∨ inv.status = .void)

omit [Formats] in
theorem run_webhookAllocation_bind_ok {β : Type} {total : Int} {invoiceId : Option Uuid}
    {g : Int → Tx β} {s : Db} {r : β × Db}
    (h : (webhookAllocation total invoiceId >>= g).run s = .ok r) :
    ∃ amount, WebhookTarget s total invoiceId amount ∧ (g amount).run s = .ok r := by
  cases invoiceId with
  | none => exact ⟨0, .inr ⟨rfl, by simp⟩, h⟩
  | some i =>
    simp only [webhookAllocation, bind_assoc, Prog.run_query_bind] at h
    split at h
    · next inv hinv =>
      split_ifs at h with hs
      · exact ⟨_, .inl ⟨i, inv, rfl, hinv, hs.1, hs.2, rfl⟩, h⟩
      · refine ⟨0, .inr ⟨rfl, fun j inv' hj hinv' => ?_⟩, h⟩
        obtain rfl := Option.some.inj hj
        obtain rfl := Option.some.inj (hinv.symm.trans hinv')
        exact or_iff_not_and_not.mpr hs
    · next hinv =>
      refine ⟨0, .inr ⟨rfl, fun j inv' hj hinv' => ?_⟩, h⟩
      obtain rfl := Option.some.inj hj
      cases hinv.symm.trans hinv'

/-- A webhook call that was no duplicate: the event is stored, and a succeeded payment comes
in for the customer it names. -/
theorem stripeWebhook_ok {ctx : RequestCtx} {body : StripeWebhookRequest} {s t : Db} {r : Response}
    (h : (stripeWebhook ctx body).run s = .ok (r, t)) :
    ∃ accounts webhookEvents,
      (¬body.Succeeded ∧ t = { s with accounts, webhookEvents }) ∨
      (body.Succeeded ∧ ∃ customerId invoiceId amount,
        0 < body.object.amount ∧ s.findCustomer body.object.customerId = some customerId ∧
        parseOptionalInvoice body.object.invoiceId = .ok invoiceId ∧
        WebhookTarget s body.object.amount invoiceId amount ∧
        Received ctx (ctx.fresh 2) (body.row ctx customerId) amount invoiceId
          { s with accounts, webhookEvents } t) := by
  simp only [stripeWebhook, Prog.run_require_bind_ok] at h
  obtain ⟨_, h⟩ := h
  obtain ⟨accounts, h⟩ := run_ensureLedgerAccounts_bind h
  simp only [insertWebhookEvent, Prog.run_execute_bind_ok] at h
  obtain ⟨_, h⟩ := h
  refine ⟨accounts, s.webhookEvents.insert body.id body.typeField, ?_⟩
  split_ifs at h with hs
  · simp only [receiveStripePayment, bind_assoc, Prog.run_require_bind_ok, run_lift_bind_ok,
      Prog.run_query_bind, foundOr_ok] at h
    obtain ⟨hpos, currency, _, _, _, customerId, hc, invoiceId, hi, h⟩ := h
    obtain ⟨amount, hm, h⟩ := run_webhookAllocation_bind_ok h
    obtain ⟨s', hr, h⟩ := received_ok h
    cases h
    exact .inr ⟨hs, customerId, invoiceId, amount, hpos, hc, hi, hm, hr⟩
  · cases h
    exact .inl ⟨hs, rfl⟩

omit [Formats] in
/-- The sequence row after a number was taken from it. -/
theorem nextSeqNumber_ok {y n : Int} {s t : Db} (h : (nextSeqNumber y).run s = .ok (n, t)) :
    (s.invoiceSeq.insert y 1).find? y = some n ∧
      t = { s with invoiceSeq := (s.invoiceSeq.insert y 1).modify y (· + 1) } := by
  simp only [nextSeqNumber, Prog.run_execute_bind_ok, Prog.run_executeReturning_ok] at h
  obtain ⟨_, h, ht⟩ := h
  split at h
  · next m hm =>
    obtain ⟨_, hn⟩ := ensure_bind_ok.mp h
    cases hn
    exact ⟨hm, ht⟩
  · cases h

/-- A credit note was issued against an invoice that was neither draft nor void. -/
def Credited (ctx : RequestCtx) (invoiceId : Uuid) (amount : Int) (s t : Db) : Prop :=
  ∃ inv row currency net tax journal invoiceSeq s', s.invoices.find? invoiceId = some inv ∧
    inv.status ≠ .draft ∧ inv.status ≠ .void ∧ 0 < amount ∧ amount ≤ inv.balanceMinor ∧
    row.invoiceId = invoiceId ∧ row.totalMinor = amount ∧
    s.creditNotes.find? (ctx.fresh 2) = none ∧
    creditNoteEntry (ctx.fresh 2) currency net tax amount = .ok journal ∧
    Posted ctx journal
      { s with invoiceSeq, creditNotes := s.creditNotes.insert (ctx.fresh 2) row } s' ∧
    t = { s' with invoices := s'.invoices.modify invoiceId (inv.credit ctx.now amount) }

theorem createCreditNote_ok {ctx : RequestCtx} {body : CreateCreditNoteRequest} {s t : Db}
    {r : Response} (h : (createCreditNote ctx body).run s = .ok (r, t)) :
    ∃ accounts,
      (∃ stored, Idempotency.lookup s ctx.idempotencyKey "credit_note.create" = some stored ∧
        r = ⟨Idempotency.statusFromU16 stored.responseStatus 201, stored.responseBody⟩ ∧
        t = { s with accounts }) ∨
      (Idempotency.lookup s ctx.idempotencyKey "credit_note.create" = none ∧
        ∃ invoiceId amount s' dto, parsePublicId .invoice body.invoiceId = .ok invoiceId ∧
          Credited ctx invoiceId amount { s with accounts } s' ∧ r = ⟨201, .creditNote dto⟩ ∧
          t = { s' with idempotency :=
            Idempotency.recorded s' ctx.idempotencyKey "credit_note.create" 201 (.creditNote dto) }) := by
  simp only [createCreditNote, run_lift_bind_ok, Prog.run_require_bind_ok] at h
  obtain ⟨invoiceId, hi, _, _, _, h⟩ := h
  obtain ⟨accounts, h⟩ := seeded_replayOr_ok h
  refine ⟨accounts, h.imp_right ?_⟩
  rintro ⟨hl, h⟩
  simp only [lockInvoice, Prog.run_queryForUpdate_bind, run_lift_bind_ok, foundOr_ok,
    Prog.run_require_bind_ok, lineTotalsError, mapError_ok, nextCreditNumber, bind_assoc,
    pure_bind, journalError] at h
  obtain ⟨inv, hinv, ⟨hd, hv⟩, currency, _, ⟨computed, doc⟩, hdoc, hpos, hbal, h⟩ := h
  obtain ⟨n, s₁, hn, h⟩ := Prog.run_bind_ok.mp h
  obtain ⟨_, rfl⟩ := nextSeqNumber_ok hn
  simp only [insertCreditNote, Prog.run_execute_bind_ok, ensure_bind_ok, ensure_ok,
    run_lift_bind_ok, mapError_ok] at h
  obtain ⟨⟨hfree, _⟩, journal, hj, h⟩ := h
  obtain ⟨_, s', hp, h⟩ := Prog.run_bind_ok.mp h
  have hpost := (postJournal_ok hp).2
  have hinv' : s'.invoices.find? invoiceId = some inv := by
    rw [hpost.invoices]
    exact hinv
  obtain ⟨_, h⟩ := (run_updateInvoice_bind_ok hinv' rfl).mp h
  simp only [Prog.run_query_bind, run_lift_bind_ok, foundOr_ok, Idempotency.run_record_bind_ok] at h
  obtain ⟨customer, _, h⟩ := h
  cases h
  exact ⟨hl, invoiceId, doc.totalMinor, _, _, hi, ⟨inv, _, currency, _, _, journal, _, s', hinv, hd, hv,
    hpos, hbal, rfl, rfl, hfree, hj, hpost, rfl⟩, rfl, rfl⟩

def InvoiceLineRow.toInput (r : InvoiceLineRow) : LineInput :=
  ⟨r.quantity, r.unitPriceMinor, r.discountMinor, r.taxRateBps⟩

/-- The lines a request's inputs were inserted as, at consecutive positions. -/
structure InsertedLines (invoiceId : Uuid) (position : Nat) (written : List LineInput)
    (rows : List (Uuid × InvoiceLineRow)) : Prop where
  invoice : ∀ r ∈ rows, r.2.invoiceId = invoiceId
  inputs : rows.map (fun r => r.2.toInput) = written
  positions : rows.map (fun r => r.2.position) = List.range' position written.length

theorem insertLines_ok {ctx : RequestCtx} {invoiceId : Uuid} {position : Nat}
    {lines : List (InvoiceLineInput × LineTotals)} {s t : Db}
    (h : (insertLines ctx invoiceId position lines).run s = .ok ((), t)) :
    ∃ invoiceLines rows, t = { s with invoiceLines } ∧
      invoiceLines.rows = s.invoiceLines.rows ++ rows ∧
      InsertedLines invoiceId position (lineInputs (lines.map Prod.fst)) rows := by
  induction lines generalizing s position with
  | nil =>
    cases h
    exact ⟨t.invoiceLines, [], rfl, (List.append_nil _).symm, by simp, rfl, rfl⟩
  | cons line rest ih =>
    obtain ⟨line, totals⟩ := line
    simp only [insertLines, run_lift_bind_ok, insertLine, Prog.run_execute_bind_ok, ensure_bind_ok,
      ensure_ok] at h
    obtain ⟨taxRate, _, taxGroup, _, ⟨_, hfree, _⟩, h⟩ := h
    obtain ⟨table, rows, rfl, hrows, hi⟩ := ih h
    let lineId := ctx.fresh (10 + position)
    refine ⟨table, (lineId, line.row totals invoiceId lineId position taxRate taxGroup) :: rows, rfl,
      ?_, ?_, ?_, ?_⟩
    · refine hrows.trans ?_
      rw [Table.rows_insert hfree, List.append_assoc, List.singleton_append]
    · rintro r (_ | ⟨_, hr⟩)
      · rfl
      · exact hi.invoice r hr
    · exact congrArg (List.cons _) hi.inputs
    · exact congrArg (List.cons position) hi.positions

omit [Formats] in
theorem deleteLines_ok {invoiceId : Uuid} {s t : Db}
    (h : (deleteLines invoiceId).run s = .ok ((), t)) :
    t = { s with
      invoiceLines := s.invoiceLines.filter fun id _ => !(s.lineIds invoiceId).contains id } := by
  simp only [deleteLines, Prog.run_execute_ok] at h
  exact congrArg Prod.snd h.2

def Db.ratedLines (db : Db) (invoiceId : Uuid) (issueDate : Date) : List RatedLine :=
  (db.fetchLines invoiceId).map fun l => rateLine db issueDate l.1 l.2

omit [Formats] in
theorem rateLines_run (issueDate : Date) (lines : List (Uuid × InvoiceLineRow)) (s : Db) :
    (rateLines issueDate lines).run s =
      .ok (lines.map fun l => rateLine s issueDate l.1 l.2, s) := by
  induction lines with
  | nil => rfl
  | cons l ls ih =>
    obtain ⟨id, line⟩ := l
    rw [rateLines, Prog.run_query_bind, Prog.run_bind, ih]
    rfl

/-- The line table after issue wrote the rates and totals. -/
def writeRates (lines : Table Uuid InvoiceLineRow) (rated : List (RatedLine × LineTotals)) :
    Table Uuid InvoiceLineRow :=
  rated.foldl (fun table r => table.modify r.1.lineId (r.1.apply r.2)) lines

omit [Formats] in
theorem updateLines_ok {rated : List (RatedLine × LineTotals)} {s t : Db}
    (h : (updateLines rated).run s = .ok ((), t)) :
    t = { s with invoiceLines := writeRates s.invoiceLines rated } := by
  induction rated generalizing s with
  | nil =>
    cases h
    rfl
  | cons r rs ih =>
    obtain ⟨r, totals⟩ := r
    obtain ⟨_, h⟩ := Prog.run_execute_bind_ok.mp h
    exact ih h

omit [Formats] in
theorem snapshotTaxesAtIssue_ok {invoiceId : Uuid} {issueDate : Date} {row inv : InvoiceRow}
    {doc : DocumentTotals} {s t : Db} (hinv : s.invoices.find? invoiceId = some inv)
    (h : (snapshotTaxesAtIssue invoiceId issueDate row).run s = .ok (doc, t)) :
    ∃ currency computed, parseCurrency "currency" row.currency = .ok currency ∧
      computeDocumentTotals ((s.ratedLines invoiceId issueDate).map (·.input)) currency =
        .ok (computed, doc) ∧
      t = { s with
        invoiceLines := writeRates s.invoiceLines ((s.ratedLines invoiceId issueDate).zip computed)
        invoices := s.invoices.modify invoiceId doc.apply } := by
  simp only [snapshotTaxesAtIssue, Prog.run_query_bind] at h
  obtain ⟨rated, _, hr, h⟩ := Prog.run_bind_ok.mp h
  rw [rateLines_run] at hr
  cases hr
  simp only [run_lift_bind_ok, lineTotalsError, mapError_ok] at h
  obtain ⟨currency, hc, ⟨computed, doc'⟩, hdoc, h⟩ := h
  obtain ⟨_, s₁, hu, h⟩ := Prog.run_bind_ok.mp h
  rw [updateLines_ok hu] at h
  obtain ⟨_, h⟩ := (run_updateInvoice_bind_ok (by exact hinv) rfl).mp h
  cases h
  exact ⟨currency, computed, hc, hdoc, rfl⟩

theorem resolveEntityId_ok {ctx : RequestCtx} {publicId : Option String} {id : Uuid} {s t : Db}
    (h : (resolveEntityId ctx publicId).run s = .ok (id, t)) : ∃ entities, t = { s with entities } := by
  unfold resolveEntityId at h
  split at h
  · simp only [run_lift_bind_ok, Prog.run_query_bind] at h
    obtain ⟨_, _, _, _, h⟩ := h
    cases h
    exact ⟨s.entities, rfl⟩
  · simp only [ensureDefaultEntity, Prog.run_query_bind] at h
    split at h
    · cases h
      exact ⟨s.entities, rfl⟩
    · obtain ⟨_, h⟩ := Prog.run_execute_bind_ok.mp h
      cases h
      exact ⟨_, rfl⟩

theorem createInvoice_ok {ctx : RequestCtx} {body : CreateInvoiceRequest} {s t : Db} {r : Response}
    (h : (createInvoice ctx body).run s = .ok (r, t)) :
    ∃ accounts,
      t = { s with accounts } ∨
      ∃ entities doc customerId entityId dueDate invoiceLines idempotency,
        s.invoices.find? (ctx.fresh 2) = none ∧
        t = { s with
          accounts
          entities
          invoices := s.invoices.insert (ctx.fresh 2)
            (body.row ctx doc (ctx.fresh 2) customerId entityId dueDate)
          invoiceLines
          idempotency } := by
  simp only [createInvoice, run_lift_bind_ok, Prog.run_require_bind_ok, lineTotalsError,
    mapError_ok] at h
  obtain ⟨_, _, _, _, _, _, _, dueDate, _, ⟨computed, doc⟩, _, h⟩ := h
  obtain ⟨accounts, ⟨_, _, _, ht⟩ | ⟨_, h⟩⟩ := seeded_replayOr_ok h
  · exact ⟨accounts, .inl ht⟩
  refine ⟨accounts, .inr ?_⟩
  simp only [resolveCustomerId, bind_assoc, run_lift_bind_ok, Prog.run_query_bind, foundOr_ok] at h
  obtain ⟨_, _, customerId, _, h⟩ := h
  obtain ⟨entityId, s₁, he, h⟩ := Prog.run_bind_ok.mp h
  obtain ⟨entities, rfl⟩ := resolveEntityId_ok he
  simp only [insertInvoice, Prog.run_execute_bind_ok, ensure_ok] at h
  obtain ⟨hfree, h⟩ := h
  obtain ⟨_, s₂, hl, h⟩ := Prog.run_bind_ok.mp h
  obtain ⟨invoiceLines, _, rfl, _⟩ := insertLines_ok hl
  simp only [Prog.run_query_bind, run_lift_bind_ok, foundOr_ok, Idempotency.run_record_bind_ok] at h
  obtain ⟨dto, _, h⟩ := h
  cases h
  exact ⟨entities, doc, customerId, entityId, dueDate, invoiceLines, _, hfree, rfl⟩

/-- What an edit does to the lines and the totals it writes. -/
def Replaced (invoiceId : Uuid) (row : InvoiceRow) (doc : DocumentTotals) (s t : Db) : Prop :=
  (doc = ⟨row.subtotalMinor, row.discountMinor, row.taxMinor, row.totalMinor⟩ ∧ t = s) ∨
  ∃ currency inputs computed invoiceLines rows, parseCurrency "currency" row.currency = .ok currency ∧
    computeDocumentTotals inputs currency = .ok (computed, doc) ∧
    t = { s with invoiceLines } ∧
    invoiceLines.rows = (s.invoiceLines.filter fun id _ =>
      !(s.lineIds invoiceId).contains id).rows ++ rows ∧
    InsertedLines invoiceId 0 inputs rows

theorem replaceLines_ok {ctx : RequestCtx} {invoiceId : Uuid} {row : InvoiceRow}
    {lines : Option (List InvoiceLineInput)} {doc : DocumentTotals} {s t : Db}
    (h : (replaceLines ctx invoiceId row lines).run s = .ok (doc, t)) :
    Replaced invoiceId row doc s t := by
  cases lines with
  | none =>
    cases h
    exact .inl ⟨rfl, rfl⟩
  | some lines =>
    simp only [replaceLines, Prog.run_require_bind_ok, run_lift_bind_ok, lineTotalsError,
      mapError_ok] at h
    obtain ⟨_, currency, hc, ⟨computed, doc'⟩, hdoc, h⟩ := h
    obtain ⟨_, s₁, hd, h⟩ := Prog.run_bind_ok.mp h
    obtain ⟨_, s₂, hi, h⟩ := Prog.run_bind_ok.mp h
    rw [deleteLines_ok hd] at hi
    obtain ⟨invoiceLines, rows, rfl, hrows, hins⟩ := insertLines_ok hi
    cases h
    have hlen : computed.length = lines.length := by
      simpa [lineInputs] using mapM_length (computeDocumentTotals_ok.mp hdoc).1
    rw [List.map_fst_zip hlen.ge] at hins
    exact .inr ⟨currency, lineInputs lines, computed, invoiceLines, rows, hc, hdoc, rfl, hrows, hins⟩

/-- The document fields an edit writes. -/
def UpdateInvoiceRequest.apply (body : UpdateInvoiceRequest) (ctx : RequestCtx) (row : InvoiceRow)
    (doc : DocumentTotals) (dueDate : Option Date) (r : InvoiceRow) : InvoiceRow :=
  { doc.apply r with
    dueDate
    notes := body.notes.or row.notes
    terms := body.terms.or row.terms
    version := r.version + 1
    updatedAt := ctx.now }

omit [Formats] in
theorem Replaced.invoices {invoiceId : Uuid} {row : InvoiceRow} {doc : DocumentTotals} {s t : Db}
    (h : Replaced invoiceId row doc s t) : t.invoices = s.invoices := by
  rcases h with ⟨_, rfl⟩ | ⟨_, _, _, _, _, _, _, rfl, _⟩
  · rfl
  · rfl

theorem updateInvoiceHandler_ok {ctx : RequestCtx} {id : String} {body : UpdateInvoiceRequest}
    {s t : Db} {r : Response} (h : (updateInvoiceHandler ctx id body).run s = .ok (r, t)) :
    ∃ invoiceId accounts row doc dueDate s', parsePublicId .invoice id = .ok invoiceId ∧
      s.invoices.find? invoiceId = some row ∧ row.status = .draft ∧
      Replaced invoiceId row doc { s with accounts } s' ∧
      t = { s' with invoices := s'.invoices.modify invoiceId (body.apply ctx row doc dueDate) } := by
  simp only [updateInvoiceHandler, run_lift_bind_ok, Prog.run_okOr_bind_ok] at h
  obtain ⟨invoiceId, hi, expected, _, _, _, h⟩ := h
  obtain ⟨accounts, h⟩ := run_ensureLedgerAccounts_bind h
  simp only [Prog.run_query_bind, run_lift_bind_ok, foundOr_ok, Prog.run_require_bind_ok] at h
  obtain ⟨row, hrow, _, _, hd, hv, dueDate, _, h⟩ := h
  have hrow := Db.fetchInvoiceRow_some hrow
  obtain ⟨doc, s', hr, h⟩ := Prog.run_bind_ok.mp h
  have hr := replaceLines_ok hr
  have hrow' : s'.invoices.find? invoiceId = some row := by
    rw [hr.invoices]
    exact hrow
  obtain ⟨_, h⟩ := (run_updateInvoice_bind_ok hrow' (by simp [hd, hv])).mp h
  simp only [answerInvoice, bind_assoc, Prog.run_query_bind, run_lift_bind_ok] at h
  obtain ⟨_, _, h⟩ := h
  cases h
  exact ⟨invoiceId, accounts, row, doc, dueDate, s', hi, hrow, hd, hr, rfl⟩

/-- A draft was issued: a number was taken, the rates were fixed, the entry was posted. -/
def Issued (ctx : RequestCtx) (body : IssueInvoiceRequest) (invoiceId : Uuid) (s t : Db) : Prop :=
  ∃ row currency n issueDate fxDate dueDate computed doc baseTotal journal s₁ s₂,
    s.invoices.find? invoiceId = some row ∧ row.status = .draft ∧
    parseCurrency "currency" row.currency = .ok currency ∧
    (s.invoiceSeq.insert ctx.today.year 1).find? ctx.today.year = some n ∧
    computeDocumentTotals ((s.ratedLines invoiceId issueDate).map (·.input)) currency =
      .ok (computed, doc) ∧
    0 < doc.totalMinor ∧
    s₁ = { s with
      invoiceSeq := (s.invoiceSeq.insert ctx.today.year 1).modify ctx.today.year (· + 1)
      invoiceLines := writeRates s.invoiceLines ((s.ratedLines invoiceId issueDate).zip computed)
      invoices := s.invoices.modify invoiceId doc.apply } ∧
    invoiceIssueEntry invoiceId currency (doc.totalMinor - doc.taxMinor) doc.taxMinor
      doc.totalMinor = .ok journal ∧
    Posted ctx { journal with entityId := row.entityId, entryDate := some issueDate } s₁ s₂ ∧
    s₂.NumberFree invoiceId (some (invoiceNumber ctx.today.year n)) ∧
    t = { s₂ with invoices := s₂.invoices.modify invoiceId (body.apply ctx
      (invoiceNumber ctx.today.year n) doc baseTotal issueDate fxDate dueDate) }

theorem issueInvoice_ok {ctx : RequestCtx} {id : String} {body : IssueInvoiceRequest} {s t : Db}
    {r : Response} (h : (issueInvoice ctx id body).run s = .ok (r, t)) :
    ∃ accounts invoiceId, parsePublicId .invoice id = .ok invoiceId ∧
      ((∃ stored, Idempotency.lookup s ctx.idempotencyKey (issueScope id) = some stored ∧
        r = ⟨Idempotency.statusFromU16 stored.responseStatus 200, stored.responseBody⟩ ∧
        t = { s with accounts }) ∨
      (Idempotency.lookup s ctx.idempotencyKey (issueScope id) = none ∧
        ∃ s' dto, Issued ctx body invoiceId { s with accounts } s' ∧
          s'.fetchInvoiceDto invoiceId = some dto ∧ r = ⟨200, .invoice dto⟩ ∧
          t = { s' with idempotency :=
            Idempotency.recorded s' ctx.idempotencyKey (issueScope id) 200 (.invoice dto) })) := by
  simp only [issueInvoice, run_lift_bind_ok, Prog.run_require_bind_ok] at h
  obtain ⟨invoiceId, hi, _, _, _, h⟩ := h
  obtain ⟨accounts, h⟩ := seeded_replayOr_ok h
  refine ⟨accounts, invoiceId, hi, h.imp_right ?_⟩
  rintro ⟨hl, h⟩
  simp only [Prog.run_query_bind, run_lift_bind_ok, foundOr_ok, Prog.run_require_bind_ok,
    nextInvoiceNumber, bind_assoc, pure_bind, journalError] at h
  obtain ⟨row, hrow, _, _, hd, _, issueDate, _, dueDate, _, fxDate, _, baseCurrency, _, h⟩ := h
  have hrow := Db.fetchInvoiceRow_some hrow
  obtain ⟨n, s₀, hn, h⟩ := Prog.run_bind_ok.mp h
  obtain ⟨hseq, rfl⟩ := nextSeqNumber_ok hn
  obtain ⟨doc, s₁, hs, h⟩ := Prog.run_bind_ok.mp h
  obtain ⟨currency, computed, hc, hdoc, rfl⟩ := snapshotTaxesAtIssue_ok (by exact hrow) hs
  simp only [run_lift_bind_ok, Prog.run_require_bind_ok, mapError_ok] at h
  obtain ⟨hpos, baseTotal, _, currency', hc', journal, hj, h⟩ := h
  obtain rfl : currency = currency' := by simpa [hc] using hc'
  obtain ⟨_, s₂, hp, h⟩ := Prog.run_bind_ok.mp h
  have hpost := (postJournal_ok hp).2
  have hrow₂ : s₂.invoices.find? invoiceId = some (doc.apply row) := by
    rw [hpost.invoices, Table.find?_modify_self]
    exact congrArg _ hrow
  obtain ⟨hup, h⟩ := (run_updateInvoice_bind_ok hrow₂ (by simp [DocumentTotals.apply, hd])).mp h
  simp only [answerInvoice, bind_assoc, Prog.run_query_bind, run_lift_bind_ok, foundOr_ok,
    Idempotency.run_record_bind_ok] at h
  obtain ⟨dto, hdto, h⟩ := h
  cases h
  exact ⟨hl, _, dto, ⟨row, currency, n, _, _, _, computed, doc, baseTotal, journal, _, s₂, hrow, hd, hc,
    hseq, hdoc, hpos, rfl, hj, hpost, hup.2.1, rfl⟩, hdto, rfl, rfl⟩

theorem sendInvoice_ok {ctx : RequestCtx} {id : String} {s t : Db} {r : Response}
    (h : (sendInvoice ctx id).run s = .ok (r, t)) :
    ∃ invoiceId accounts row, parsePublicId .invoice id = .ok invoiceId ∧
      s.invoices.find? invoiceId = some row ∧ (row.status = .issued ∨ row.status = .sent) ∧
      t = { s with
        accounts
        invoices := s.invoices.modify invoiceId
          (InvoiceRow.markSent ctx.now s!"/pay/{row.publicId}") } := by
  simp only [sendInvoice, run_lift_bind_ok] at h
  obtain ⟨invoiceId, hi, _, _, h⟩ := h
  obtain ⟨accounts, h⟩ := run_ensureLedgerAccounts_bind h
  simp only [Prog.run_query_bind, run_lift_bind_ok, foundOr_ok, Prog.run_require_bind_ok] at h
  obtain ⟨row, hrow, _, _, hs, h⟩ := h
  have hrow := Db.fetchInvoiceRow_some hrow
  obtain ⟨_, h⟩ := (run_updateInvoice_bind_ok hrow rfl).mp h
  simp only [answerInvoice, bind_assoc, Prog.run_query_bind, run_lift_bind_ok] at h
  obtain ⟨_, _, h⟩ := h
  cases h
  exact ⟨invoiceId, accounts, row, hi, hrow, hs, rfl⟩

theorem voidInvoice_ok {ctx : RequestCtx} {id : String} {s t : Db} {r : Response}
    (h : (voidInvoice ctx id).run s = .ok (r, t)) :
    ∃ invoiceId accounts row, parsePublicId .invoice id = .ok invoiceId ∧
      s.invoices.find? invoiceId = some row ∧ row.status ≠ .void ∧ row.status ≠ .paid ∧
      row.amountPaidMinor ≤ 0 ∧
      t = { s with
        accounts
        invoices := s.invoices.modify invoiceId (InvoiceRow.markVoid ctx.now) } := by
  simp only [voidInvoice, run_lift_bind_ok] at h
  obtain ⟨invoiceId, hi, _, _, h⟩ := h
  obtain ⟨accounts, h⟩ := run_ensureLedgerAccounts_bind h
  simp only [Prog.run_query_bind, run_lift_bind_ok, foundOr_ok, Prog.run_require_bind_ok] at h
  obtain ⟨row, hrow, _, _, hs, hp, h⟩ := h
  have hrow := Db.fetchInvoiceRow_some hrow
  obtain ⟨_, h⟩ := (run_updateInvoice_bind_ok hrow rfl).mp h
  simp only [answerInvoice, bind_assoc, Prog.run_query_bind, run_lift_bind_ok] at h
  obtain ⟨_, _, h⟩ := h
  cases h
  exact ⟨invoiceId, accounts, row, hi, hrow, hs.1, hs.2, hp, rfl⟩

end Noxara.Finance
