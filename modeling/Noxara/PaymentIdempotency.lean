import Noxara.HandlerEffects
import Noxara.LedgerGate
import Noxara.TransactionGate

/-! At most once: of the requests that record one payment under one key, in any interleaving,
the first that succeeds brings the payment in and stores its answer, and every later success
is that answer. -/
namespace Noxara.Finance

open Transaction

/-- What `s` has and `db` has not is one payment with its entry and its allocation, and
`answer` is stored under the key. -/
structure RecordedOnce (db : Db) (key : String) (answer : Response) (s : Db) : Prop where
  payment : ∃ id row entryId entry lines allocated,
    s.payments.rows = db.payments.rows ++ [(id, row)] ∧
    s.journalEntries.rows = db.journalEntries.rows ++ [(entryId, entry)] ∧
    entry.sourceType = .payment ∧ entry.sourceId = id ∧
    s.journalLines = db.journalLines ++ lines ∧ (∀ l ∈ lines, l.entryId = entryId) ∧
    s.allocations.rows = db.allocations.rows ++ allocated ∧ allocated.length ≤ 1 ∧
    (∀ a ∈ allocated, a.2.paymentId = id) ∧
    row.amountAllocatedMinor = (allocated.map (·.2.amountMinor)).sum
  stored : s.idempotency.find? ("payment.record", key) = some ⟨answer.status, answer.body⟩
  created : answer.status = 201

variable [Formats]

theorem Received.adds {ctx : RequestCtx} {id : Uuid} {row : PaymentRow} {amount : Int}
    {invoiceId : Option Uuid} {s t : Db} (h : Received ctx id row amount invoiceId s t)
    (h0 : row.amountAllocatedMinor = 0) :
    ∃ row' entry lines allocated,
      t.payments.rows = s.payments.rows ++ [(id, row')] ∧
      t.journalEntries.rows = s.journalEntries.rows ++ [(ctx.fresh 0, entry)] ∧
      entry.sourceType = .payment ∧ entry.sourceId = id ∧
      t.journalLines = s.journalLines ++ lines ∧ (∀ l ∈ lines, l.entryId = ctx.fresh 0) ∧
      t.allocations.rows = s.allocations.rows ++ allocated ∧ allocated.length ≤ 1 ∧
      (∀ a ∈ allocated, a.2.paymentId = id) ∧
      row'.amountAllocatedMinor = (allocated.map (·.2.amountMinor)).sum ∧
      t.idempotency = s.idempotency := by
  obtain ⟨hfree, currency, journal, s', hj, hp, ha⟩ := h
  simp only [paymentEntry, bind_ok] at hj
  obtain ⟨_, _, hj⟩ := hj
  obtain ⟨_, rfl⟩ := JournalDraft.balanced_ok.mp hj
  obtain ⟨entry, lines, hentry, htype, hsource, hlines, hl⟩ := hp.adds
  obtain ⟨hpay, halloc, hidem, _⟩ := hp.documents
  rcases ha with ⟨i, _, inv, pay, hpos, _, _, _, _, _, _, hnew, rfl⟩ | ⟨_, rfl⟩
  · refine ⟨row.allocate amount, entry, lines, [(ctx.fresh 4, ⟨id, i, amount, hpos⟩)], ?_, hentry, htype,
      hsource, hlines, hl, ?_, Nat.le_refl _, by simp, by simp [PaymentRow.allocate, h0], hidem⟩
    · have hmod := Table.modify_insert hfree row (PaymentRow.allocate amount)
      exact (congrArg (fun p => (Table.modify p id _).rows) hpay).trans
        ((congrArg Table.rows hmod).trans (Table.rows_insert hfree _))
    · exact (Table.rows_insert hnew _).trans (by rw [halloc])
  · exact ⟨row, entry, lines, [], (congrArg Table.rows hpay).trans (Table.rows_insert hfree _), hentry,
      htype, hsource, hlines, hl, by simp [halloc], by simp, by simp, by simp [h0], hidem⟩

variable {key : String}

omit [Formats] in
theorem RecordedOnce.congr {db s t : Db} {answer : Response} (h : RecordedOnce db key answer s)
    (hp : t.payments = s.payments) (he : t.journalEntries = s.journalEntries)
    (hl : t.journalLines = s.journalLines) (ha : t.allocations = s.allocations)
    (hi : t.idempotency = s.idempotency) : RecordedOnce db key answer t := by
  obtain ⟨hpay, hst, hcr⟩ := h
  exact ⟨by rwa [hp, he, hl, ha], by rwa [hi], hcr⟩

theorem recordPayment_first {ctx : RequestCtx} {body : RecordPaymentRequest} {s t : Db} {r : Response}
    (hkey : ctx.idempotencyKey = some key)
    (hunused : s.idempotency.find? ("payment.record", key) = none)
    (h : (recordPayment ctx body).run s = .ok (r, t)) : RecordedOnce s key r t := by
  obtain ⟨accounts, ⟨stored, hl, _⟩ | ⟨_, c, i, at', amount, s', dto, _, _, _, _, hr, _, rfl, rfl⟩⟩ :=
    recordPayment_ok h
  · rw [Idempotency.lookup_key hkey, hunused] at hl
    cases hl
  · obtain ⟨row, entry, lines, allocated, hp, he, htype, hsource, hl, hle, ha, hlen, hap, hsum, hi⟩ :=
      hr.adds rfl
    refine ⟨⟨_, row, _, entry, lines, allocated, hp, he, htype, hsource, hl, hle, ha, hlen, hap, hsum⟩,
      ?_, rfl⟩
    rw [← hi] at hunused
    simp only [Idempotency.recorded, AnswerTable.recorded, hkey]
    exact Table.find?_insert_self hunused _

theorem recordPayment_replay {ctx : RequestCtx} {body : RecordPaymentRequest} {db s t : Db}
    {r answer : Response} (hkey : ctx.idempotencyKey = some key) (hs : RecordedOnce db key answer s)
    (h : (recordPayment ctx body).run s = .ok (r, t)) :
    r = answer ∧ RecordedOnce db key answer t := by
  have hlookup : Idempotency.lookup s ctx.idempotencyKey "payment.record" =
      some ⟨answer.status, answer.body⟩ := by
    rw [Idempotency.lookup_key hkey]
    exact hs.stored
  obtain ⟨accounts, ⟨stored, hl, rfl, rfl⟩ | ⟨hl, _⟩⟩ := recordPayment_ok h
  · obtain rfl : _ = stored := Option.some.inj (hlookup.symm.trans hl)
    refine ⟨?_, hs.congr rfl rfl rfl rfl rfl⟩
    obtain ⟨status, body⟩ := answer
    obtain rfl : status = 201 := hs.created
    rfl
  · rw [hlookup] at hl
    cases hl

variable {ι : Type} {ctx : ι → RequestCtx} {body : RecordPaymentRequest}

/-- What a serial run of the requests leaves, by whether one of them succeeded. -/
theorem recordPayment_serial {db s : Db} {log : List (ι × Except TxExit Response)}
    (hkey : ∀ i, (ctx i).idempotencyKey = some key)
    (hunused : db.idempotency.find? ("payment.record", key) = none)
    (h : Serial (fun i => recordPayment (ctx i) body) db log s) :
    ((∀ i r, (i, .ok r) ∉ log) ∧ s = db) ∨
      ∃ answer, RecordedOnce db key answer s ∧ ∀ i r, (i, .ok r) ∈ log → r = answer := by
  induction h with
  | nil => exact .inl ⟨by simp, rfl⟩
  | @ok log s i a t _ _ hr ih =>
    refine .inr ?_
    rcases ih with ⟨hnone, rfl⟩ | ⟨answer, hs, hall⟩
    · refine ⟨a, recordPayment_first (hkey i) hunused hr, fun j r hj => ?_⟩
      rcases List.mem_append.mp hj with hj | hj
      · exact absurd hj (hnone j r)
      · simp only [List.mem_singleton, Prod.mk.injEq, Except.ok.injEq] at hj
        exact hj.2
    · obtain ⟨rfl, ht⟩ := recordPayment_replay (hkey i) hs hr
      refine ⟨a, ht, fun j r hj => ?_⟩
      rcases List.mem_append.mp hj with hj | hj
      · exact hall j r hj
      · simp only [List.mem_singleton, Prod.mk.injEq, Except.ok.injEq] at hj
        exact hj.2
  | error _ _ _ ih =>
    simpa using ih

/-- In every interleaving of requests that record the same payment under a key not used
before, nothing is committed until one succeeds; then exactly one payment, with one entry and at
most one allocation, and every success answers with the stored response. -/
theorem record_payment_at_most_once [DecidableEq ι] {db : Db}
    {c : Config ι Db RowKey TxExit Response}
    (hkey : ∀ i, (ctx i).idempotencyKey = some key)
    (hunused : db.idempotency.find? ("payment.record", key) = none)
    (h : Reachable (fun i => recordPayment (ctx i) body) db c) :
    ((∀ i r, c.threads i ≠ .committed r) ∧ c.db = db) ∨
      ∃ answer, RecordedOnce db key answer c.db ∧ ∀ i r, c.threads i = .committed r → r = answer := by
  have hg := h.gateInv (g := ledgerGate) fun i => recordPayment_gated (ctx i) body
  simp only [ne_eq, hg.answered]
  exact recordPayment_serial hkey hunused hg.serial

/-- A dollar received, sent under one key by as many requests as there are. -/
def retried {n : Nat} (i : Fin n) : Tx Response :=
  recordPayment { RequestCtx.nth (1 + i) with idempotencyKey := some "retry" }
    { customerId := (PublicId.mk .customer 1).asStr, currency := "USD", amountMinor := 100 }

omit [Formats] in
theorem record_payment_at_most_once_retried :
    letI := canonicalFormats
    ∃ c, Reachable (retried (n := 2)) Db.oneCustomer c ∧ (c.threads 1).answer.isSome = true ∧
      (((∀ i r, c.threads i ≠ .committed r) ∧ c.db = Db.oneCustomer) ∨
        ∃ answer, RecordedOnce Db.oneCustomer "retry" answer c.db ∧
          ∀ i r, c.threads i = .committed r → r = answer) := by
  let := canonicalFormats
  obtain ⟨c, hc, hanswer⟩ := Reachable.of_play (retried (n := 2)) Db.oneCustomer
    (Move.through 0 32 ++ Move.through 1 20) (fun c => (c.threads 1).answer.isSome)
    (by decide +kernel)
  exact ⟨c, hc, hanswer, record_payment_at_most_once (fun _ => rfl) rfl hc⟩

end Noxara.Finance
