import Noxara.InvoiceSettlement
import Noxara.JournalNets

/-! Receivables: the net of account 1100 in the journal against the balances of the issued
invoices, over runs of the nine document operations. Every operation moves both sides by the
same amount, except a void, which drops the balance of an issued invoice and posts nothing. -/
namespace Noxara.Finance

open Transaction

def Db.openBalance (db : Db) : Int := db.invoices.sumBy InvoiceRow.openBalance

section Posting
variable [Formats]

theorem invoiceIssueEntry_net {id : Uuid} {currency : Currency} {net tax total : Int}
    {j : JournalDraft} (h : invoiceIssueEntry id currency net tax total = .ok j) (ht : 0 < total) :
    j.net codes.AR = total := by
  obtain ⟨_, rfl⟩ := JournalDraft.balanced_ok.mp h
  have hrevenue : codes.REVENUE ≠ codes.AR := by decide
  have htax : codes.TAX_PAYABLE ≠ codes.AR := by decide
  simp only [JournalDraft.net, LedgerLine.debit, LedgerLine.credit, List.filter_cons, ht, gt_iff_lt,
    true_or, decide_true, if_true]
  split_ifs <;> simp [LedgerLine.row, JournalLineRow.netOn, hrevenue, htax]

theorem paymentEntry_net {id : Uuid} {currency : Currency} {allocated unapplied : Int}
    {j : JournalDraft} (h : paymentEntry id currency allocated unapplied = .ok j) :
    j.net codes.AR = -max allocated 0 := by
  simp only [paymentEntry, bind_ok] at h
  obtain ⟨cash, _, h⟩ := h
  obtain ⟨_, rfl⟩ := JournalDraft.balanced_ok.mp h
  have hcash : codes.CASH ≠ codes.AR := by decide
  have hcredits : codes.CUSTOMER_CREDITS ≠ codes.AR := by decide
  simp only [JournalDraft.net, LedgerLine.debit, LedgerLine.credit]
  split_ifs <;> simp [LedgerLine.row, JournalLineRow.netOn, hcash, hcredits] <;> omega

theorem allocationEntry_net {id : Uuid} {currency : Currency} {amount : Int} {j : JournalDraft}
    (h : allocationEntry id currency amount = .ok j) : j.net codes.AR = -amount := by
  obtain ⟨_, rfl⟩ := JournalDraft.balanced_ok.mp h
  have hcredits : codes.CUSTOMER_CREDITS ≠ codes.AR := by decide
  simp [JournalDraft.net, LedgerLine.row, JournalLineRow.netOn, hcredits]

theorem creditNoteEntry_net {id : Uuid} {currency : Currency} {net tax total : Int}
    {j : JournalDraft} (h : creditNoteEntry id currency net tax total = .ok j) :
    j.net codes.AR = -total := by
  obtain ⟨_, rfl⟩ := JournalDraft.balanced_ok.mp h
  have hrevenue : codes.REVENUE ≠ codes.AR := by decide
  have htax : codes.TAX_PAYABLE ≠ codes.AR := by decide
  simp only [JournalDraft.net, LedgerLine.debit, LedgerLine.credit]
  split_ifs <;> simp [LedgerLine.row, JournalLineRow.netOn, hrevenue, htax]

end Posting

/-- The rows are consistent, and the journal carries `excess` more receivables than they. -/
structure Ledgered (db : Db) (excess : Int) : Prop where
  consistent : ∀ id r, db.invoices.find? id = some r → r.Consistent
  agrees : db.accountNet codes.AR = db.openBalance + excess

namespace Ledgered
variable {s t : Db} {d : Int}

theorem congr (h : Ledgered s d) (hi : t.invoices = s.invoices)
    (hl : t.journalLines = s.journalLines) : Ledgered t d where
  consistent := by rw [hi]; exact h.consistent
  agrees := by
    have := h.agrees
    simp only [Db.accountNet, Db.openBalance] at this ⊢
    rw [hi, hl, this]

theorem post [Formats] {ctx : RequestCtx} {draft : JournalDraft} (h : Ledgered s d)
    (hp : Posted ctx draft s t) : Ledgered t (d + draft.net codes.AR) where
  consistent := by rw [hp.invoices]; exact h.consistent
  agrees := by
    rw [hp.accountNet, h.agrees, Db.openBalance, Db.openBalance, hp.invoices]
    omega

theorem modify (h : Ledgered s d) {id : Uuid} {r : InvoiceRow} {f : InvoiceRow → InvoiceRow}
    (hr : s.invoices.find? id = some r) (hf : (f r).Consistent) :
    Ledgered { s with invoices := s.invoices.modify id f }
      (d + (r.openBalance - (f r).openBalance)) where
  consistent j x hx := by
    by_cases hj : j = id
    · subst hj
      simp only [Table.find?_modify_self, hr, Option.map_some, Option.some.injEq] at hx
      exact hx ▸ hf
    · exact h.consistent j x (by simpa only [Table.find?_modify_ne _ f hj] using hx)
  agrees := by
    have := h.agrees
    have hsum := Table.sumBy_modify hr f InvoiceRow.openBalance
    simp only [Db.accountNet, Db.openBalance] at this ⊢
    omega

theorem insert (h : Ledgered s d) {id : Uuid} {r : InvoiceRow}
    (hid : s.invoices.find? id = none) (hr : r.Consistent) (hb : r.openBalance = 0) :
    Ledgered { s with invoices := s.invoices.insert id r } d where
  consistent j x hx := by
    rcases Table.find?_insert_some hx with hx | ⟨rfl, rfl⟩
    · exact h.consistent j x hx
    · exact hr
  agrees := by
    have := h.agrees
    have hsum := Table.sumBy_insert hid r InvoiceRow.openBalance
    simp only [Db.accountNet, Db.openBalance] at this ⊢
    omega

theorem allocated (h : Ledgered s d) {ctx : RequestCtx} {p i : Uuid} {amount : Int}
    (ha : Allocated ctx p i amount s t) : Ledgered t (d + amount) := by
  obtain ⟨inv, pay, _, hinv, _, hd, hv, hbal, _, _, rfl⟩ := ha
  obtain ⟨hc, ho⟩ := (h.consistent i inv hinv).pay hd hv hbal ctx.now
  have hm := h.modify hinv hc
  rw [ho, sub_sub_cancel] at hm
  exact hm.congr rfl rfl

variable [Formats]

theorem received (h : Ledgered s d) {ctx : RequestCtx} {id : Uuid} {row : PaymentRow}
    {amount : Int} {invoiceId : Option Uuid} (hn : invoiceId = none → amount ≤ 0)
    (hr : Received ctx id row amount invoiceId s t) : Ledgered t d := by
  obtain ⟨_, currency, journal, s', hj, hp, ha⟩ := hr
  have hs' := (h.congr (t := { s with payments := s.payments.insert id row }) rfl rfl).post hp
  rw [paymentEntry_net hj] at hs'
  rcases ha with ⟨i, _, ha⟩ | ⟨hle, rfl⟩
  · have ht := hs'.allocated ha
    obtain ⟨_, _, hpos, _⟩ := ha
    rwa [max_eq_left hpos.le, neg_add_cancel_right] at ht
  · have hle : amount ≤ 0 := hle.elim hn fun h => h
    rwa [max_eq_right hle, neg_zero, add_zero] at hs'

theorem credited (h : Ledgered s d) {ctx : RequestCtx} {i : Uuid} {amount : Int}
    (hc : Credited ctx i amount s t) : Ledgered t d := by
  obtain ⟨inv, row, currency, net, tax, journal, seq, s', hinv, hd, hv, _, hbal, _, _, _, hj, hp, rfl⟩ :=
    hc
  have hs' := (h.congr (t := { s with
    invoiceSeq := seq, creditNotes := s.creditNotes.insert (ctx.fresh 2) row }) rfl rfl).post hp
  obtain ⟨hc, ho⟩ := (h.consistent i inv hinv).credit hd hv hbal ctx.now
  have hinv' : s'.invoices.find? i = some inv := by
    rw [hp.invoices]
    exact hinv
  have hm := hs'.modify hinv' hc
  rwa [creditNoteEntry_net hj, ho, sub_sub_cancel, neg_add_cancel_right] at hm

omit [Formats] in
theorem replaced (h : Ledgered s d) {i : Uuid} {row : InvoiceRow} {doc : DocumentTotals}
    (hr : Replaced i row doc s t) : Ledgered t d := by
  rcases hr with ⟨_, rfl⟩ | ⟨_, _, _, _, _, _, _, rfl, _⟩
  · exact h
  · exact h.congr rfl rfl

end Ledgered

theorem InvoiceRow.openBalance_draft {r : InvoiceRow} (h : r.status = .draft) : r.openBalance = 0 :=
  if_pos h

/-- A draft owes nothing, whatever its totals. -/
theorem InvoiceRow.consistent_draft {r : InvoiceRow} (hr : r.status = .draft) :
    r.Consistent ↔ r.amountPaidMinor = 0 ∧ r.amountCreditedMinor = 0 ∧ r.balanceMinor = 0 := by
  unfold Consistent
  rw [hr]

namespace Ledgered
variable {s t : Db} {d : Int} [Formats]

theorem issued (h : Ledgered s d) {ctx : RequestCtx} {body : IssueInvoiceRequest} {i : Uuid}
    (hi : Issued ctx body i s t) : Ledgered t d := by
  obtain ⟨row, currency, n, issueDate, fxDate, dueDate, computed, doc, base, journal, s₁, s₂, hrow, hd,
    _, _, _, hpos, rfl, hj, hp, _, rfl⟩ := hi
  have hc := (InvoiceRow.consistent_draft hd).mp (h.consistent i row hrow)
  have hd' : (doc.apply row).status = .draft := hd
  have hm := h.modify (f := doc.apply) hrow ((InvoiceRow.consistent_draft hd').mpr hc)
  have hs₂ := (hm.congr (t := { s with
    invoiceSeq := (s.invoiceSeq.insert ctx.today.year 1).modify ctx.today.year (· + 1)
    invoiceLines := writeRates s.invoiceLines ((s.ratedLines i issueDate).zip computed)
    invoices := s.invoices.modify i doc.apply }) rfl rfl).post hp
  have hrow₂ : s₂.invoices.find? i = some (doc.apply row) := by
    rw [hp.invoices, Table.find?_modify_self]
    exact congrArg _ hrow
  have hrep := body.represents ctx (invoiceNumber ctx.today.year n) base issueDate fxDate dueDate
    (r := doc.apply row) hc.1 hc.2.1 hpos
  have ht := hs₂.modify hrow₂
    ((InvoiceRow.consistent_open (by simp [IssueInvoiceRequest.apply])
      (by simp [IssueInvoiceRequest.apply])).mpr ⟨_, hrep⟩)
  have hnet : JournalDraft.net { journal with entityId := row.entityId, entryDate := some issueDate }
      codes.AR = doc.totalMinor := by
    rw [← invoiceIssueEntry_net hj hpos]
    rfl
  -- The draft owed nothing; the issued invoice owes the total that was posted.
  rw [hnet, InvoiceRow.openBalance_draft hd, InvoiceRow.openBalance_draft hd',
    InvoiceRow.openBalance_issued (by simp [IssueInvoiceRequest.apply]), hrep.balance] at ht
  simpa [Receivable.outstanding] using ht

theorem sent (h : Ledgered s d) {ctx : RequestCtx} {id : String} {r : Response}
    (ho : (sendInvoice ctx id).run s = .ok (r, t)) : Ledgered t d := by
  obtain ⟨i, accounts, row, _, hrow, hs, rfl⟩ := sendInvoice_ok ho
  have hne : row.status ≠ .draft ∧ row.status ≠ .void ∧ row.status ≠ .paid := by
    rcases hs with hs | hs <;> simp [hs]
  obtain ⟨hd, hv, hpaid⟩ := hne
  obtain ⟨x, hx⟩ := (InvoiceRow.consistent_open hd hv).mp (h.consistent i row hrow)
  have hsent := hx.markSent hpaid ctx.now s!"/pay/{row.publicId}"
  have ht := h.modify (f := InvoiceRow.markSent ctx.now s!"/pay/{row.publicId}") hrow
    ((InvoiceRow.consistent_open (by simp [InvoiceRow.markSent])
      (by simp [InvoiceRow.markSent])).mpr ⟨x, hsent⟩)
  rw [InvoiceRow.openBalance_issued hd, InvoiceRow.openBalance_issued (by simp [InvoiceRow.markSent]),
    hsent.balance, hx.balance, sub_self, add_zero] at ht
  exact ht.congr rfl rfl

/-- A void drops what the invoice owes, which is something when it was issued. -/
theorem voided (h : Ledgered s d) {ctx : RequestCtx} {id : String} {r : Response}
    (ho : (voidInvoice ctx id).run s = .ok (r, t)) :
    ∃ i row, parsePublicId .invoice id = .ok i ∧ s.invoices.find? i = some row ∧
      (row.status ≠ .draft → 0 < row.openBalance) ∧ Ledgered t (d + row.openBalance) := by
  obtain ⟨i, accounts, row, hi, hrow, hv, hpaid, _, rfl⟩ := voidInvoice_ok ho
  have hvoid : (row.markVoid ctx.now).Consistent := rfl
  have ht := h.modify hrow hvoid
  have hnone : (row.markVoid ctx.now).openBalance = 0 := rfl
  rw [hnone, sub_zero] at ht
  refine ⟨i, row, hi, hrow, fun hd => ?_, ht.congr rfl rfl⟩
  obtain ⟨x, hx⟩ := (InvoiceRow.consistent_open hd hv).mp (h.consistent i row hrow)
  have hne : x.outstanding ≠ 0 := fun h0 => hpaid (hx.paid.mpr h0)
  have := x.outstanding_nonneg
  rw [InvoiceRow.openBalance_issued hd, hx.balance]
  omega

end Ledgered

inductive DocumentOp
  | createInvoice (ctx : RequestCtx) (body : CreateInvoiceRequest)
  | updateInvoice (ctx : RequestCtx) (id : String) (body : UpdateInvoiceRequest)
  | issueInvoice (ctx : RequestCtx) (id : String) (body : IssueInvoiceRequest)
  | sendInvoice (ctx : RequestCtx) (id : String)
  | voidInvoice (ctx : RequestCtx) (id : String)
  | recordPayment (ctx : RequestCtx) (body : RecordPaymentRequest)
  | allocatePayment (ctx : RequestCtx) (id : String) (body : AllocatePaymentRequest)
  | createCreditNote (ctx : RequestCtx) (body : CreateCreditNoteRequest)
  | stripeWebhook (ctx : RequestCtx) (body : StripeWebhookRequest)

namespace DocumentOp
variable [Formats]

def body : DocumentOp → Tx Response
  | createInvoice ctx b => Finance.createInvoice ctx b
  | updateInvoice ctx id b => updateInvoiceHandler ctx id b
  | issueInvoice ctx id b => Finance.issueInvoice ctx id b
  | sendInvoice ctx id => Finance.sendInvoice ctx id
  | voidInvoice ctx id => Finance.voidInvoice ctx id
  | recordPayment ctx b => Finance.recordPayment ctx b
  | allocatePayment ctx id b => Finance.allocatePayment ctx id b
  | createCreditNote ctx b => Finance.createCreditNote ctx b
  | stripeWebhook ctx b => Finance.stripeWebhook ctx b

/-- The operation is a void of an invoice that is not a draft. -/
def VoidsIssued (s : Db) : DocumentOp → Prop
  | voidInvoice _ id => ∃ i row, parsePublicId .invoice id = .ok i ∧ s.invoices.find? i = some row ∧
      row.status ≠ .draft
  | _ => False

end DocumentOp

/-- An organisation without documents; customers, accounts, tax rates and periods may be there. -/
structure Db.Undocumented (db : Db) : Prop where
  invoices : db.invoices = .empty
  journalLines : db.journalLines = []

namespace Ledgered
variable [Formats] {s t : Db} {d : Int}

/-- Every accepted operation keeps the invariant, and only the void of an issued invoice moves
the excess: up. -/
theorem step (h : Ledgered s d) {op : DocumentOp} {r : Response}
    (ho : op.body.run s = .ok (r, t)) :
    ∃ v, 0 ≤ v ∧ (v = 0 ↔ ¬op.VoidsIssued s) ∧ Ledgered t (d + v) := by
  have hkeep : ¬op.VoidsIssued s → Ledgered t d →
      ∃ v, 0 ≤ v ∧ (v = 0 ↔ ¬op.VoidsIssued s) ∧ Ledgered t (d + v) :=
    fun hn ht => ⟨0, le_rfl, by simp [hn], by simpa using ht⟩
  cases op with
  | createInvoice ctx b =>
    refine hkeep id ?_
    obtain ⟨accounts, rfl | ⟨_, doc, c, e, due, lines, _, hfree, rfl⟩⟩ := createInvoice_ok ho
    · exact h.congr rfl rfl
    · have hdraft : (b.row ctx doc (ctx.fresh 2) c e due).status = .draft := rfl
      exact (h.insert hfree ((InvoiceRow.consistent_draft hdraft).mpr ⟨rfl, rfl, rfl⟩)
        (InvoiceRow.openBalance_draft hdraft)).congr rfl rfl
  | updateInvoice ctx id b =>
    refine hkeep (fun h => h) ?_
    obtain ⟨i, accounts, row, doc, due, s', _, hrow, hd, hr, rfl⟩ := updateInvoiceHandler_ok ho
    have hs' := (h.congr (t := { s with accounts }) rfl rfl).replaced hr
    have hrow' : s'.invoices.find? i = some row := by
      rw [hr.invoices]
      exact hrow
    have hd' : (b.apply ctx row doc due row).status = .draft := hd
    have hc := (InvoiceRow.consistent_draft hd').mpr
      ((InvoiceRow.consistent_draft hd).mp (h.consistent i row hrow))
    have ht := hs'.modify hrow' hc
    rwa [InvoiceRow.openBalance_draft hd, InvoiceRow.openBalance_draft hd', sub_zero, add_zero] at ht
  | issueInvoice ctx id b =>
    refine hkeep (fun h => h) ?_
    obtain ⟨accounts, i, _, ⟨_, _, _, rfl⟩ | ⟨_, s', dto, hi, _, _, rfl⟩⟩ := issueInvoice_ok ho
    · exact h.congr rfl rfl
    · exact ((h.congr (t := { s with accounts }) rfl rfl).issued hi).congr rfl rfl
  | sendInvoice ctx id => exact hkeep (fun h => h) (h.sent ho)
  | voidInvoice ctx id =>
    obtain ⟨i, row, hi, hrow, hpos, ht⟩ := h.voided ho
    by_cases hd : row.status = .draft
    · refine ⟨row.openBalance, (InvoiceRow.openBalance_draft hd).ge, ?_, ht⟩
      simp [DocumentOp.VoidsIssued, hi, hrow, hd, InvoiceRow.openBalance_draft hd]
    · refine ⟨row.openBalance, (hpos hd).le, ?_, ht⟩
      simp [DocumentOp.VoidsIssued, hi, hrow, hd, (hpos hd).ne']
  | recordPayment ctx b =>
    refine hkeep (fun h => h) ?_
    obtain ⟨accounts, ⟨_, _, _, rfl⟩ |
      ⟨_, c, invoiceId, _, amount, s', dto, _, _, _, hm, hr, _, _, rfl⟩⟩ := recordPayment_ok ho
    · exact h.congr rfl rfl
    · have hn : invoiceId = none → amount ≤ 0 := by
        rintro rfl
        exact le_of_eq hm
      exact ((h.congr (t := { s with accounts }) rfl rfl).received hn hr).congr rfl rfl
  | allocatePayment ctx id b =>
    refine hkeep (fun h => h) ?_
    obtain ⟨accounts, p, i, _, _, ⟨_, _, _, rfl⟩ |
      ⟨_, currency, journal, s₁, s₂, dto, ha, hj, hp, _, _, rfl⟩⟩ := allocatePayment_ok ho
    · exact h.congr rfl rfl
    · have ht := ((h.congr (t := { s with accounts }) rfl rfl).allocated ha).post hp
      rw [allocationEntry_net hj, add_neg_cancel_right] at ht
      exact ht.congr rfl rfl
  | createCreditNote ctx b =>
    refine hkeep (fun h => h) ?_
    obtain ⟨accounts, ⟨_, _, _, rfl⟩ | ⟨_, i, amount, s', dto, _, hc, _, rfl⟩⟩ := createCreditNote_ok ho
    · exact h.congr rfl rfl
    · exact ((h.congr (t := { s with accounts }) rfl rfl).credited hc).congr rfl rfl
  | stripeWebhook ctx b =>
    refine hkeep (fun h => h) ?_
    obtain ⟨accounts, events, ⟨_, rfl⟩ | ⟨_, c, invoiceId, amount, _, _, _, hm, hr⟩⟩ := stripeWebhook_ok ho
    · exact h.congr rfl rfl
    · have hn : invoiceId = none → amount ≤ 0 := by
        rintro rfl
        rcases hm with ⟨_, _, hi, _⟩ | ⟨hm, _⟩
        · cases hi
        · exact hm.le
      exact (h.congr (t := { s with accounts, webhookEvents := events }) rfl rfl).received hn hr

theorem run {steps : List (Db × DocumentOp)} (h0 : Ledgered s 0)
    (h : Runs DocumentOp.body s steps t) :
    ∃ d, 0 ≤ d ∧ (d = 0 ↔ ∀ x ∈ steps, ¬x.2.VoidsIssued x.1) ∧ Ledgered t d := by
  induction h with
  | nil => exact ⟨0, le_rfl, by simp, h0⟩
  | step _ hr ih =>
    obtain ⟨d, hd, hdz, hl⟩ := ih
    obtain ⟨v, hv, hvz, ht⟩ := hl.step hr
    refine ⟨d + v, by omega, ?_, ht⟩
    rw [show d + v = 0 ↔ d = 0 ∧ v = 0 by omega, hdz, hvz]
    simp [or_imp, forall_and]

end Ledgered

variable [Formats]

omit [Formats] in
theorem Db.Undocumented.ledgered {db : Db} (h : db.Undocumented) : Ledgered db 0 where
  consistent := by simp [h.invoices]
  agrees := by simp [Db.accountNet, Db.openBalance, h.invoices, h.journalLines]

/-- After a run of accepted operations from an organisation without documents, the net of
receivables is the sum of the open balances if and only if no issued invoice was voided. -/
theorem receivables_agree_iff {s t : Db} {steps : List (Db × DocumentOp)} (h0 : s.Undocumented)
    (h : Runs DocumentOp.body s steps t) :
    t.accountNet codes.AR = t.openBalance ↔ ∀ x ∈ steps, ¬x.2.VoidsIssued x.1 := by
  obtain ⟨d, _, hdz, hl⟩ := h0.ledgered.run h
  have := hl.agrees
  rw [← hdz]
  omega

def issueOneDollar : List DocumentOp :=
  [.createInvoice (.nth 1)
      { customerId := (PublicId.mk .customer 1).asStr
        currency := "USD"
        lines := [{ description := "Consulting", quantity := 1, unitPriceMinor := 100 }] },
    .issueInvoice (.nth 2) (PublicId.mk .invoice 102).asStr {}]

/-- The invoice over one dollar is voided once it is issued. -/
def voidOneDollar : List DocumentOp :=
  issueOneDollar ++ [.voidInvoice (.nth 3) (PublicId.mk .invoice 102).asStr]

theorem Db.oneCustomer_undocumented : Db.oneCustomer.Undocumented := ⟨rfl, rfl⟩

omit [Formats] in
theorem receivables_agree_iff_issued :
    letI := canonicalFormats
    ∃ steps t, Runs DocumentOp.body Db.oneCustomer steps t ∧ steps.length = 2 ∧
      (t.accountNet codes.AR = t.openBalance ↔ ∀ x ∈ steps, ¬x.2.VoidsIssued x.1) := by
  let := canonicalFormats
  obtain ⟨steps, t, hrun, hlen⟩ := Runs.of_play DocumentOp.body issueOneDollar Db.oneCustomer
    (fun steps _ => steps.length = 2) (by decide +kernel)
  exact ⟨steps, t, hrun, of_decide_eq_true hlen,
    receivables_agree_iff Db.oneCustomer_undocumented hrun⟩

omit [Formats] in
/-- The voided dollar stays in receivables while no invoice owes it. -/
theorem receivables_disagree_voided :
    letI := canonicalFormats
    ∃ steps t, Db.oneCustomer.Undocumented ∧ Runs DocumentOp.body Db.oneCustomer steps t ∧
      t.accountNet codes.AR = 100 ∧ t.openBalance = 0 := by
  let := canonicalFormats
  obtain ⟨steps, t, hrun, ht⟩ := Runs.of_play DocumentOp.body voidOneDollar Db.oneCustomer
    (fun _ t => t.accountNet codes.AR = 100 ∧ t.openBalance = 0)
    (by decide +kernel)
  exact ⟨steps, t, Db.oneCustomer_undocumented, hrun, of_decide_eq_true ht⟩

end Noxara.Finance
