import Noxara.ReceivablesLedger

/-! Payments and the accounts that follow them. What of a payment is allocated is in its
allocation rows, what is unapplied is in customer credits, and all of it is in cash. -/
namespace Noxara.Finance

open Transaction

def Db.allocatedOf (db : Db) (paymentId : Uuid) : Int :=
  db.allocations.sumBy fun a => if a.paymentId = paymentId then a.amountMinor else 0

/-- The two parts of a payment, of which `allocated` is what its allocation rows say. -/
structure PaymentRow.SplitAt (p : PaymentRow) (allocated : Int) : Prop where
  allocated_nonneg : 0 ≤ p.amountAllocatedMinor
  unapplied_nonneg : 0 ≤ p.amountUnappliedMinor
  total : p.amountMinor = p.amountAllocatedMinor + p.amountUnappliedMinor
  allocated : p.amountAllocatedMinor = allocated

theorem PaymentRow.SplitAt.allocate {p : PaymentRow} {allocated amount : Int}
    (h : p.SplitAt allocated) (hpos : 0 < amount) (hle : amount ≤ p.amountUnappliedMinor) :
    (p.allocate amount).SplitAt (allocated + amount) := by
  have := h.allocated_nonneg
  have := h.total
  have := h.allocated
  constructor <;> simp only [PaymentRow.allocate] <;> omega

theorem Db.allocatedOf_insert {db : Db} {id : Uuid} {a : AllocationRow}
    (h : db.allocations.find? id = none) (paymentId : Uuid) :
    Db.allocatedOf { db with allocations := db.allocations.insert id a } paymentId =
      db.allocatedOf paymentId + if a.paymentId = paymentId then a.amountMinor else 0 :=
  Table.sumBy_insert h a _

/-- The entries of payments: of their receipt and of their later allocations. -/
def fromPayments (sourceType : SourceType) (_ : Uuid) : Bool := sourceType = .payment

section Entries
variable [Formats] {id : Uuid} {currency : Currency} {j : JournalDraft}

theorem invoiceIssueEntry_credits {net tax total : Int}
    (h : invoiceIssueEntry id currency net tax total = .ok j) :
    j.sourceType = .invoiceIssue ∧ j.net codes.CUSTOMER_CREDITS = 0 := by
  obtain ⟨_, rfl⟩ := JournalDraft.balanced_ok.mp h
  refine ⟨rfl, List.sum_eq_zero fun x hx => ?_⟩
  obtain ⟨l, hl, rfl⟩ := List.mem_map.mp hx
  have hl := (List.mem_filter.mp hl).1
  simp only [List.mem_cons, List.not_mem_nil, or_false] at hl
  have har : codes.AR ≠ codes.CUSTOMER_CREDITS := by decide
  have hrevenue : codes.REVENUE ≠ codes.CUSTOMER_CREDITS := by decide
  have htax : codes.TAX_PAYABLE ≠ codes.CUSTOMER_CREDITS := by decide
  rcases hl with rfl | rfl | rfl <;>
    simp [LedgerLine.debit, LedgerLine.credit, LedgerLine.row, JournalLineRow.netOn, har, hrevenue, htax]

theorem creditNoteEntry_credits {net tax total : Int}
    (h : creditNoteEntry id currency net tax total = .ok j) :
    j.sourceType = .creditNote ∧ j.net codes.CUSTOMER_CREDITS = 0 := by
  obtain ⟨_, rfl⟩ := JournalDraft.balanced_ok.mp h
  have har : codes.AR ≠ codes.CUSTOMER_CREDITS := by decide
  have hrevenue : codes.REVENUE ≠ codes.CUSTOMER_CREDITS := by decide
  have htax : codes.TAX_PAYABLE ≠ codes.CUSTOMER_CREDITS := by decide
  refine ⟨rfl, ?_⟩
  simp only [JournalDraft.net, LedgerLine.debit, LedgerLine.credit]
  split_ifs <;> simp [LedgerLine.row, JournalLineRow.netOn, har, hrevenue, htax]

theorem allocationEntry_nets {amount : Int} (h : allocationEntry id currency amount = .ok j) :
    j.sourceType = .payment ∧ j.net codes.CUSTOMER_CREDITS = amount ∧ j.net codes.CASH = 0 := by
  obtain ⟨_, rfl⟩ := JournalDraft.balanced_ok.mp h
  have har : codes.AR ≠ codes.CUSTOMER_CREDITS := by decide
  have hcash : codes.AR ≠ codes.CASH := by decide
  have hcredits : codes.CUSTOMER_CREDITS ≠ codes.CASH := by decide
  refine ⟨rfl, ?_, ?_⟩
  · simp [JournalDraft.net, LedgerLine.row, JournalLineRow.netOn, har]
  · simp [JournalDraft.net, LedgerLine.row, JournalLineRow.netOn, hcash, hcredits]

theorem paymentEntry_nets {allocated unapplied : Int}
    (h : paymentEntry id currency allocated unapplied = .ok j) :
    j.sourceType = .payment ∧ j.net codes.CUSTOMER_CREDITS = -max unapplied 0 ∧
      j.net codes.CASH = allocated + unapplied := by
  simp only [paymentEntry, bind_ok] at h
  obtain ⟨cash, hc, h⟩ := h
  obtain ⟨_, rfl⟩ := JournalDraft.balanced_ok.mp h
  have hcash := (checked_ok.mp hc).2
  have h1 : codes.CASH ≠ codes.CUSTOMER_CREDITS := by decide
  have h2 : codes.AR ≠ codes.CUSTOMER_CREDITS := by decide
  have h3 : codes.AR ≠ codes.CASH := by decide
  have h4 : codes.CUSTOMER_CREDITS ≠ codes.CASH := by decide
  refine ⟨rfl, ?_, ?_⟩
  · simp only [JournalDraft.net, LedgerLine.debit, LedgerLine.credit]
    split_ifs <;> simp [LedgerLine.row, JournalLineRow.netOn, h1, h2] <;> omega
  · simp only [JournalDraft.net, LedgerLine.debit, LedgerLine.credit]
    split_ifs <;> simp [LedgerLine.row, JournalLineRow.netOn, h3, h4, hcash]

theorem paymentEntry_unallocated {allocated unapplied : Int}
    (h : paymentEntry id currency allocated unapplied = .ok j) (hle : allocated ≤ 0)
    (hpos : 0 < allocated + unapplied) : allocated = 0 := by
  simp only [paymentEntry, bind_ok] at h
  obtain ⟨cash, hc, h⟩ := h
  obtain ⟨hb, rfl⟩ := JournalDraft.balanced_ok.mp h
  have hcash := (checked_ok.mp hc).2
  have hnot : ¬allocated > 0 := by omega
  have hun : unapplied > 0 := by omega
  have hsums := JournalDraft.debits_eq_credits hb
  simp [hnot, hun, LedgerLine.debit, LedgerLine.credit] at hsums
  omega

end Entries

/-- Payments, allocations and accounts agree, but for `credits` that the journal still owes the
payments and `cash` that it holds for none. -/
structure Tracked (db : Db) (credits cash : Int) : Prop where
  split : ∀ id p, db.payments.find? id = some p → p.SplitAt (db.allocatedOf id)
  owned : ∀ id a, db.allocations.find? id = some a → (db.payments.find? a.paymentId).isSome
  linesBelong : db.LinesBelong
  credits : -db.accountNet codes.CUSTOMER_CREDITS = db.payments.sumBy (·.amountUnappliedMinor) + credits
  cash : db.sumFrom fromPayments (·.netOn codes.CASH) = db.payments.sumBy (·.amountMinor) + cash

namespace Tracked
variable {s t : Db} {credits cash : Int}

theorem congr (h : Tracked s credits cash) (hp : t.payments = s.payments)
    (ha : t.allocations = s.allocations) (he : t.journalEntries = s.journalEntries)
    (hl : t.journalLines = s.journalLines) : Tracked t credits cash := by
  obtain ⟨h1, h2, h3, h4, h5⟩ := h
  simp only [Db.allocatedOf, Db.LinesBelong, Db.accountNet, Db.sumFrom, Db.entriesFrom,
    Db.linesOf] at h1 h3 h4 h5
  constructor
  · rw [hp]
    simpa only [Db.allocatedOf, ha] using h1
  · rw [hp, ha]
    exact h2
  · simpa only [Db.LinesBelong, he, hl] using h3
  · simpa only [Db.accountNet, hp, hl] using h4
  · simpa only [Db.sumFrom, Db.entriesFrom, Db.linesOf, hp, he, hl] using h5

theorem allocatedOf_eq_zero (h : Tracked s credits cash) {id : Uuid}
    (hid : s.payments.find? id = none) : s.allocatedOf id = 0 := by
  refine List.sum_eq_zero fun x hx => ?_
  obtain ⟨a, ha, rfl⟩ := List.mem_map.mp hx
  obtain ⟨⟨k, b⟩, hr, rfl⟩ := List.mem_map.mp ha
  have hown := h.owned k b (Table.find?_eq_some.mpr hr)
  have hne : b.paymentId ≠ id := by
    intro he
    rw [he, hid] at hown
    cases hown
  exact if_neg hne

theorem insertPayment (h : Tracked s credits cash) {id : Uuid} {p : PaymentRow}
    (hid : s.payments.find? id = none) (hpos : 0 < p.amountMinor) (ha : p.amountAllocatedMinor = 0)
    (hu : p.amountUnappliedMinor = p.amountMinor) :
    Tracked { s with payments := s.payments.insert id p } (credits - p.amountMinor)
      (cash - p.amountMinor) where
  split j q hq := by
    rcases Table.find?_insert_some hq with hq | ⟨rfl, rfl⟩
    · exact h.split j q hq
    · have hzero := h.allocatedOf_eq_zero hid
      constructor
      · omega
      · omega
      · omega
      · exact ha.trans hzero.symm
  owned j a hj := by
    obtain ⟨q, hq⟩ := Option.isSome_iff_exists.mp (h.owned j a hj)
    exact Option.isSome_iff_exists.mpr ⟨q, Table.find?_insert_of_some hq p⟩
  linesBelong := h.linesBelong
  credits := by
    have hsum := Table.sumBy_insert hid p (·.amountUnappliedMinor)
    have := h.credits
    simp only [Db.accountNet] at this ⊢
    omega
  cash := by
    have hsum := Table.sumBy_insert hid p (·.amountMinor)
    have := h.cash
    simp only [Db.sumFrom, Db.entriesFrom, Db.linesOf] at this ⊢
    omega

theorem post [Formats] {ctx : RequestCtx} {draft : JournalDraft} (h : Tracked s credits cash)
    (hp : Posted ctx draft s t) :
    Tracked t (credits - draft.net codes.CUSTOMER_CREDITS)
      (cash + if draft.sourceType = .payment then draft.net codes.CASH else 0) where
  split := by
    simp only [Db.allocatedOf, hp.documents.1, hp.documents.2.1]
    exact h.split
  owned := by
    rw [hp.documents.1, hp.documents.2.1]
    exact h.owned
  linesBelong := hp.linesBelong h.linesBelong
  credits := by
    rw [hp.accountNet, hp.documents.1]
    have := h.credits
    omega
  cash := by
    have hsum := hp.sumFrom h.linesBelong fromPayments (·.netOn codes.CASH)
    have := h.cash
    rw [hp.documents.1, hsum, this]
    by_cases hs : draft.sourceType = .payment
    · simp only [fromPayments, hs, decide_true, if_true, add_assoc]
      rfl
    · simp [fromPayments, hs]

/-- What is allocated leaves the unapplied part, and the journal is to follow. -/
theorem allocated (h : Tracked s credits cash) {ctx : RequestCtx} {p i : Uuid} {amount : Int}
    (ha : Allocated ctx p i amount s t) : Tracked t (credits + amount) cash := by
  obtain ⟨inv, pay, hpos, _, hpay, _, _, _, hun, hfree, rfl⟩ := ha
  have hone : ∀ q, Db.allocatedOf { s with
      allocations := s.allocations.insert (ctx.fresh 4) ⟨p, i, amount, hpos⟩ } q =
      s.allocatedOf q + if p = q then amount else 0 := Db.allocatedOf_insert hfree
  refine ⟨fun q x hx => ?_, fun q a hq => ?_, h.linesBelong, ?_, ?_⟩
  · have hsplit : x.SplitAt (s.allocatedOf q + if p = q then amount else 0) := by
      by_cases hq : q = p
      · subst hq
        rw [Table.find?_modify_self, hpay] at hx
        cases hx
        rw [if_pos rfl]
        exact (h.split q pay hpay).allocate hpos hun
      · rw [Table.find?_modify_ne _ _ hq] at hx
        rw [if_neg (Ne.symm hq), add_zero]
        exact h.split q x hx
    rw [← hone q] at hsplit
    exact hsplit
  · have hmem : ∀ k, (s.payments.find? k).isSome →
        ((s.payments.modify p (PaymentRow.allocate amount)).find? k).isSome := by
      intro k hk
      by_cases hkp : k = p
      · subst hkp
        rw [Table.find?_modify_self, hpay]
        rfl
      · rwa [Table.find?_modify_ne _ _ hkp]
    rcases Table.find?_insert_some hq with hq | ⟨_, rfl⟩
    · exact hmem _ (h.owned q a hq)
    · exact hmem p (by rw [hpay]; rfl)
  · have hsum := Table.sumBy_modify hpay (PaymentRow.allocate amount) (·.amountUnappliedMinor)
    have := h.credits
    simp only [Db.accountNet, PaymentRow.allocate] at this hsum ⊢
    omega
  · have hsum := Table.sumBy_modify hpay (PaymentRow.allocate amount) (·.amountMinor)
    have := h.cash
    simp only [Db.sumFrom, Db.entriesFrom, Db.linesOf, PaymentRow.allocate] at this hsum ⊢
    omega

variable [Formats]

theorem received (h : Tracked s credits cash) {ctx : RequestCtx} {id : Uuid} {row : PaymentRow}
    {amount : Int} {invoiceId : Option Uuid} (hpos : 0 < row.amountMinor)
    (ha : row.amountAllocatedMinor = 0) (hu : row.amountUnappliedMinor = row.amountMinor)
    (hn : invoiceId = none → amount ≤ 0) (hr : Received ctx id row amount invoiceId s t) :
    Tracked t credits cash := by
  obtain ⟨hid, currency, journal, s', hj, hp, hal⟩ := hr
  obtain ⟨hsource, hcredits, hcash⟩ := paymentEntry_nets hj
  have hs' := (h.insertPayment hid hpos ha hu).post hp
  rw [if_pos hsource, hcredits, hcash] at hs'
  rcases hal with ⟨i, _, hal⟩ | ⟨hle, rfl⟩
  · have ht := hs'.allocated hal
    obtain ⟨_, pay, hamount, _, hpay, _, _, _, hun, _⟩ := hal
    rw [hp.documents.1, Table.find?_insert_self hid] at hpay
    cases hpay
    have hc : credits - row.amountMinor - -max (row.amountMinor - amount) 0 + amount = credits := by omega
    have hz : cash - row.amountMinor + (amount + (row.amountMinor - amount)) = cash := by omega
    rwa [hc, hz] at ht
  · have hle : amount ≤ 0 := hle.elim hn fun h => h
    have hzero := paymentEntry_unallocated hj hle (by omega)
    have hc : credits - row.amountMinor - -max (row.amountMinor - amount) 0 = credits := by omega
    have hz : cash - row.amountMinor + (amount + (row.amountMinor - amount)) = cash := by omega
    rwa [hc, hz] at hs'

theorem postOther {ctx : RequestCtx} {draft : JournalDraft} (h : Tracked s credits cash)
    (hp : Posted ctx draft s t) (hsource : draft.sourceType ≠ .payment)
    (hnet : draft.net codes.CUSTOMER_CREDITS = 0) : Tracked t credits cash := by
  have ht := h.post hp
  rwa [hnet, if_neg hsource, sub_zero, add_zero] at ht

theorem issued (h : Tracked s credits cash) {ctx : RequestCtx} {body : IssueInvoiceRequest} {i : Uuid}
    (hi : Issued ctx body i s t) : Tracked t credits cash := by
  obtain ⟨row, currency, n, issueDate, fxDate, dueDate, computed, doc, base, journal, s₁, s₂, _, _,
    _, _, _, _, rfl, hj, hp, _, rfl⟩ := hi
  obtain ⟨hsource, hnet⟩ := invoiceIssueEntry_credits hj
  have hs₁ := h.congr (t := { s with
    invoiceSeq := (s.invoiceSeq.insert ctx.today.year 1).modify ctx.today.year (· + 1)
    invoiceLines := writeRates s.invoiceLines ((s.ratedLines i issueDate).zip computed)
    invoices := s.invoices.modify i doc.apply }) rfl rfl rfl rfl
  have hs₂ := hs₁.postOther hp (by simp [hsource]) hnet
  exact hs₂.congr rfl rfl rfl rfl

theorem credited (h : Tracked s credits cash) {ctx : RequestCtx} {i : Uuid} {amount : Int}
    (hc : Credited ctx i amount s t) : Tracked t credits cash := by
  obtain ⟨inv, row, currency, net, tax, journal, seq, s', _, _, _, _, _, _, _, _, hj, hp, rfl⟩ := hc
  obtain ⟨hsource, hnet⟩ := creditNoteEntry_credits hj
  have hs₁ := h.congr (t := { s with
    invoiceSeq := seq, creditNotes := s.creditNotes.insert (ctx.fresh 2) row }) rfl rfl rfl rfl
  exact (hs₁.postOther hp (by simp [hsource]) hnet).congr rfl rfl rfl rfl

omit [Formats] in
theorem replaced (h : Tracked s credits cash) {i : Uuid} {row : InvoiceRow} {doc : DocumentTotals}
    (hr : Replaced i row doc s t) : Tracked t credits cash := by
  rcases hr with ⟨_, rfl⟩ | ⟨_, _, _, _, _, _, _, rfl, _⟩
  · exact h
  · exact h.congr rfl rfl rfl rfl

/-- Every accepted operation on the documents keeps the accounts. -/
theorem step (h : Tracked s credits cash) {op : DocumentOp} {r : Response}
    (ho : op.body.run s = .ok (r, t)) : Tracked t credits cash := by
  have hseed : ∀ accounts, Tracked { s with accounts } credits cash :=
    fun accounts => h.congr rfl rfl rfl rfl
  cases op with
  | createInvoice ctx b =>
    obtain ⟨accounts, rfl | ⟨_, doc, c, e, due, lines, _, hfree, rfl⟩⟩ := createInvoice_ok ho
    · exact hseed accounts
    · exact h.congr rfl rfl rfl rfl
  | updateInvoice ctx id b =>
    obtain ⟨i, accounts, row, doc, due, s', _, _, _, hr, rfl⟩ := updateInvoiceHandler_ok ho
    exact ((hseed accounts).replaced hr).congr rfl rfl rfl rfl
  | issueInvoice ctx id b =>
    obtain ⟨accounts, i, _, ⟨_, _, _, rfl⟩ | ⟨_, s', dto, hi, _, _, rfl⟩⟩ := issueInvoice_ok ho
    · exact hseed accounts
    · exact ((hseed accounts).issued hi).congr rfl rfl rfl rfl
  | sendInvoice ctx id =>
    obtain ⟨i, accounts, row, _, _, _, rfl⟩ := sendInvoice_ok ho
    exact h.congr rfl rfl rfl rfl
  | voidInvoice ctx id =>
    obtain ⟨i, accounts, row, _, _, _, _, _, rfl⟩ := voidInvoice_ok ho
    exact h.congr rfl rfl rfl rfl
  | recordPayment ctx b =>
    obtain ⟨accounts, ⟨_, _, _, rfl⟩ |
      ⟨_, c, invoiceId, _, amount, s', dto, hpos, _, _, hm, hr, _, _, rfl⟩⟩ := recordPayment_ok ho
    · exact hseed accounts
    · have hn : invoiceId = none → amount ≤ 0 := by
        rintro rfl
        exact le_of_eq hm
      exact ((hseed accounts).received hpos rfl rfl hn hr).congr rfl rfl rfl rfl
  | allocatePayment ctx id b =>
    obtain ⟨accounts, p, i, _, _, ⟨_, _, _, rfl⟩ |
      ⟨_, currency, journal, s₁, s₂, dto, ha, hj, hp, _, _, rfl⟩⟩ := allocatePayment_ok ho
    · exact hseed accounts
    · obtain ⟨hsource, hcredits, hcash⟩ := allocationEntry_nets hj
      have ht := ((hseed accounts).allocated ha).post hp
      rw [if_pos hsource, hcredits, hcash, add_sub_cancel_right, add_zero] at ht
      exact ht.congr rfl rfl rfl rfl
  | createCreditNote ctx b =>
    obtain ⟨accounts, ⟨_, _, _, rfl⟩ | ⟨_, i, amount, s', dto, _, hc, _, rfl⟩⟩ := createCreditNote_ok ho
    · exact hseed accounts
    · exact ((hseed accounts).credited hc).congr rfl rfl rfl rfl
  | stripeWebhook ctx b =>
    obtain ⟨accounts, events, ⟨_, rfl⟩ | ⟨_, c, invoiceId, amount, hpos, _, _, hm, hr⟩⟩ :=
      stripeWebhook_ok ho
    · exact h.congr rfl rfl rfl rfl
    · have hn : invoiceId = none → amount ≤ 0 := by
        rintro rfl
        rcases hm with ⟨_, _, hi, _⟩ | ⟨hm, _⟩
        · cases hi
        · exact hm.le
      have hs := h.congr (t := { s with accounts, webhookEvents := events }) rfl rfl rfl rfl
      exact hs.received hpos rfl rfl hn hr

theorem run {steps : List (Db × DocumentOp)} (h0 : Tracked s credits cash)
    (h : Runs DocumentOp.body s steps t) : Tracked t credits cash := by
  induction h with
  | nil => exact h0
  | step _ hr ih => exact ih.step hr

end Tracked

/-- An organisation before its first payment: there may be customers, invoices and entries. -/
structure Db.Unpaid (db : Db) : Prop where
  payments : db.payments = .empty
  allocations : db.allocations = .empty
  linesBelong : db.LinesBelong
  credits : db.accountNet codes.CUSTOMER_CREDITS = 0
  cash : db.sumFrom fromPayments (·.netOn codes.CASH) = 0

theorem Db.Unpaid.tracked {db : Db} (h : db.Unpaid) : Tracked db 0 0 where
  split := by simp [h.payments]
  owned := by simp [h.allocations]
  linesBelong := h.linesBelong
  credits := by simp [h.credits, h.payments]
  cash := by simp [h.cash, h.payments]

variable [Formats]

/-- After every run of accepted operations, each payment is split into what its allocation rows
say and the rest, customer credits hold what is unapplied, and the entries of payments hold what
was paid in cash. -/
theorem payments_tracked {s t : Db} {steps : List (Db × DocumentOp)} (h0 : s.Unpaid)
    (h : Runs DocumentOp.body s steps t) :
    (∀ id p, t.payments.find? id = some p →
      0 ≤ p.amountAllocatedMinor ∧ 0 ≤ p.amountUnappliedMinor ∧
      p.amountMinor = p.amountAllocatedMinor + p.amountUnappliedMinor ∧
      p.amountAllocatedMinor = t.allocatedOf id) ∧
    -t.accountNet codes.CUSTOMER_CREDITS = t.payments.sumBy (·.amountUnappliedMinor) ∧
    t.sumFrom fromPayments (·.netOn codes.CASH) = t.payments.sumBy (·.amountMinor) := by
  have ht := h0.tracked.run h
  refine ⟨fun id p hp => ?_, by simpa using ht.credits, by simpa using ht.cash⟩
  have hsplit := ht.split id p hp
  exact ⟨hsplit.allocated_nonneg, hsplit.unapplied_nonneg, hsplit.total, hsplit.allocated⟩

/-- Two dollars are paid on an invoice over one, and the rest on the account. -/
def overpayOneDollar : List DocumentOp :=
  [.recordPayment (.nth 1)
      { customerId := (PublicId.mk .customer 1).asStr
        currency := "USD"
        amountMinor := 200
        invoiceId := some (PublicId.mk .invoice 21).asStr }]

omit [Formats] in
theorem payments_tracked_overpaid :
    letI := canonicalFormats
    ∃ steps t, Runs DocumentOp.body Db.oneIssued steps t ∧
      -t.accountNet codes.CUSTOMER_CREDITS = 100 ∧
      -t.accountNet codes.CUSTOMER_CREDITS = t.payments.sumBy (·.amountUnappliedMinor) := by
  let := canonicalFormats
  obtain ⟨steps, t, hrun, hnet⟩ := Runs.of_play DocumentOp.body overpayOneDollar Db.oneIssued
    (fun _ t => -t.accountNet codes.CUSTOMER_CREDITS = 100) (by decide +kernel)
  have h0 : Db.oneIssued.Unpaid :=
    ⟨rfl, rfl, by simp [Db.LinesBelong, Db.oneIssued, Db.oneCustomer, Db.empty], rfl, rfl⟩
  exact ⟨steps, t, hrun, of_decide_eq_true hnet, (payments_tracked h0 hrun).2.1⟩

end Noxara.Finance
