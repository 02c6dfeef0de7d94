import Noxara.HandlerEffects

/-! Which payment and which invoice an allocation joins. Recording a payment compares the
customers and not the currencies; allocating late and the webhook compare neither. So a run
keeps its allocations between documents of one currency and one customer exactly when no step
asks for another join. -/
namespace Noxara.Finance

open Transaction

/-- The same currency and the same customer. -/
def PaymentRow.Compatible (p : PaymentRow) (inv : InvoiceRow) : Prop :=
  p.currency = inv.currency ∧ p.customerId = inv.customerId

instance (p : PaymentRow) (inv : InvoiceRow) : Decidable (p.Compatible inv) :=
  inferInstanceAs (Decidable (_ ∧ _))

def Db.Joins (db : Db) (a : AllocationRow) : Prop :=
  ∃ p inv, db.payments.find? a.paymentId = some p ∧ db.invoices.find? a.invoiceId = some inv ∧
    p.Compatible inv

/-- The row joins a payment and an invoice that are not. -/
def Db.Clashes (db : Db) (a : AllocationRow) : Prop :=
  ∃ p inv, db.payments.find? a.paymentId = some p ∧ db.invoices.find? a.invoiceId = some inv ∧
    ¬p.Compatible inv

def Db.AllocationsJoin (db : Db) : Prop := ∀ a ∈ db.allocations.rows, db.Joins a.2

theorem Db.Joins.not_clashes {db : Db} {a : AllocationRow} (h : db.Joins a) : ¬db.Clashes a := by
  obtain ⟨p, inv, hp, hi, hc⟩ := h
  rintro ⟨p', inv', hp', hi', hc'⟩
  obtain rfl := Option.some.inj (hp.symm.trans hp')
  obtain rfl := Option.some.inj (hi.symm.trans hi')
  exact hc' hc

/-- Payments and invoices keep their currency and customer, and the allocations are those there
were and `new`. -/
structure Extends (s t : Db) (new : List (Uuid × AllocationRow)) : Prop where
  payments : ∀ id p, s.payments.find? id = some p →
    ∃ p', t.payments.find? id = some p' ∧ p'.currency = p.currency ∧ p'.customerId = p.customerId
  invoices : ∀ id inv, s.invoices.find? id = some inv →
    ∃ inv', t.invoices.find? id = some inv' ∧ inv'.currency = inv.currency ∧
      inv'.customerId = inv.customerId
  allocations : t.allocations.rows = s.allocations.rows ++ new

namespace Extends
variable {s t u : Db} {new more : List (Uuid × AllocationRow)}

theorem of_eq (hp : t.payments = s.payments) (hi : t.invoices = s.invoices)
    (ha : t.allocations = s.allocations) : Extends s t [] where
  payments id p h := ⟨p, hp ▸ h, rfl, rfl⟩
  invoices id inv h := ⟨inv, hi ▸ h, rfl, rfl⟩
  allocations := by rw [ha, List.append_nil]

theorem trans (h : Extends s t new) (h' : Extends t u more) : Extends s u (new ++ more) where
  payments id p hp := by
    obtain ⟨p', hp', hc, hk⟩ := h.payments id p hp
    obtain ⟨p'', hp'', hc', hk'⟩ := h'.payments id p' hp'
    exact ⟨p'', hp'', hc'.trans hc, hk'.trans hk⟩
  invoices id inv hi := by
    obtain ⟨i', hi', hc, hk⟩ := h.invoices id inv hi
    obtain ⟨i'', hi'', hc', hk'⟩ := h'.invoices id i' hi'
    exact ⟨i'', hi'', hc'.trans hc, hk'.trans hk⟩
  allocations := by rw [h'.allocations, h.allocations, List.append_assoc]

theorem joins (h : Extends s t new) {a : AllocationRow} (ha : s.Joins a) : t.Joins a := by
  obtain ⟨p, inv, hp, hi, hc, hk⟩ := ha
  obtain ⟨p', hp', hpc, hpk⟩ := h.payments _ p hp
  obtain ⟨inv', hi', hic, hik⟩ := h.invoices _ inv hi
  exact ⟨p', inv', hp', hi', by rw [hpc, hic, hc], by rw [hpk, hik, hk]⟩

theorem clashes (h : Extends s t new) {a : AllocationRow} (ha : s.Clashes a) : t.Clashes a := by
  obtain ⟨p, inv, hp, hi, hc⟩ := ha
  obtain ⟨p', hp', hpc, hpk⟩ := h.payments _ p hp
  obtain ⟨inv', hi', hic, hik⟩ := h.invoices _ inv hi
  refine ⟨p', inv', hp', hi', fun hc' => hc ?_⟩
  rwa [PaymentRow.Compatible, hpc, hic, hpk, hik] at hc'

end Extends

/-- The effect of an accepted step: no allocation, or one between a payment and an invoice
that are compatible unless `clash`. -/
def JoinStep (s t : Db) (clash : Prop) : Prop :=
  (Extends s t [] ∧ ¬clash) ∨
  ∃ id a p inv, Extends s t [(id, a)] ∧ t.payments.find? a.paymentId = some p ∧
    t.invoices.find? a.invoiceId = some inv ∧ (p.Compatible inv ↔ ¬clash)

/-- An allocation keeps the documents and joins the two it names. -/
theorem Allocated.extends {ctx : RequestCtx} {p i : Uuid} {amount : Int} {s t : Db}
    (h : Allocated ctx p i amount s t) :
    ∃ a pay inv, Extends s t [(ctx.fresh 4, a)] ∧ a.paymentId = p ∧ a.invoiceId = i ∧
      s.payments.find? p = some pay ∧ s.invoices.find? i = some inv := by
  obtain ⟨inv, pay, hpos, hinv, hpay, _, _, _, _, hnew, rfl⟩ := h
  refine ⟨⟨p, i, amount, hpos⟩, pay, inv, ⟨fun id q hq => ?_, fun id x hx => ?_, ?_⟩, rfl, rfl, hpay, hinv⟩
  · by_cases hid : id = p
    · subst hid
      exact ⟨q.allocate amount, by rw [Table.find?_modify_self, hq]; rfl, rfl, rfl⟩
    · exact ⟨q, by rwa [Table.find?_modify_ne _ _ hid], rfl, rfl⟩
  · by_cases hid : id = i
    · subst hid
      exact ⟨inv.pay ctx.now amount x, by rw [Table.find?_modify_self, hx]; rfl, rfl, rfl⟩
    · exact ⟨x, by rwa [Table.find?_modify_ne _ _ hid], rfl, rfl⟩
  · exact Table.rows_insert hnew _

/-- What was found before is found after, with the same currency and customer. -/
theorem Allocated.joinStep {ctx : RequestCtx} {p i : Uuid} {amount : Int} {s t : Db} {pay : PaymentRow}
    {inv : InvoiceRow} {clash : Prop} (h : Allocated ctx p i amount s t)
    (hpay : s.payments.find? p = some pay) (hinv : s.invoices.find? i = some inv)
    (hc : pay.Compatible inv ↔ ¬clash) : JoinStep s t clash := by
  obtain ⟨a, _, _, hext, rfl, rfl, _, _⟩ := h.extends
  obtain ⟨pay', hpay', hpc, hpk⟩ := hext.payments _ pay hpay
  obtain ⟨inv', hinv', hic, hik⟩ := hext.invoices _ inv hinv
  refine .inr ⟨_, a, pay', inv', hext, hpay', hinv', ?_⟩
  rw [← hc, PaymentRow.Compatible, hpc, hic, hpk, hik]
  rfl

/-- Steps that leave documents and allocations alone may come before and after. -/
theorem JoinStep.frame {s s' t' t : Db} {clash : Prop} (h : JoinStep s' t' clash)
    (hs : Extends s s' []) (ht : Extends t' t []) : JoinStep s t clash := by
  rcases h with ⟨hext, hc⟩ | ⟨id, a, p, inv, hext, hp, hi, hc⟩
  · exact .inl ⟨(hs.trans hext).trans ht, hc⟩
  · obtain ⟨p', hp', hpc, hpk⟩ := ht.payments _ p hp
    obtain ⟨inv', hi', hic, hik⟩ := ht.invoices _ inv hi
    refine .inr ⟨id, a, p', inv', (hs.trans hext).trans ht, hp', hi', ?_⟩
    rw [← hc, PaymentRow.Compatible, hpc, hic, hpk, hik]
    rfl

variable [Formats]

theorem Posted.extends {ctx : RequestCtx} {draft : JournalDraft} {s t : Db}
    (h : Posted ctx draft s t) : Extends s t [] :=
  .of_eq h.documents.1 h.invoices h.documents.2.1

omit [Formats] in
theorem Extends.insertPayment {s : Db} {id : Uuid} (h : s.payments.find? id = none) (row : PaymentRow) :
    Extends s { s with payments := s.payments.insert id row } [] where
  payments j p hp := by
    have hj : j ≠ id := by
      rintro rfl
      cases h.symm.trans hp
    exact ⟨p, by rwa [Table.find?_insert_ne _ _ hj], rfl, rfl⟩
  invoices j inv hi := ⟨inv, hi, rfl, rfl⟩
  allocations := (List.append_nil _).symm

/-- A payment that comes in clashes with the invoice it names when it is allocated to it and the
two are not compatible. -/
theorem Received.joinStep {ctx : RequestCtx} {id : Uuid} {row : PaymentRow} {amount : Int}
    {invoiceId : Option Uuid} {s t : Db} {clash : Prop}
    (h : Received ctx id row amount invoiceId s t) (hnone : invoiceId = none → amount ≤ 0)
    (hkeep : amount ≤ 0 → ¬clash)
    (hclash : ∀ i inv, 0 < amount → invoiceId = some i → s.invoices.find? i = some inv →
      (row.Compatible inv ↔ ¬clash)) : JoinStep s t clash := by
  obtain ⟨hfree, currency, journal, s', _, hp, ha⟩ := h
  have hs' := (Extends.insertPayment hfree row).trans hp.extends
  rcases ha with ⟨i, rfl, ha⟩ | ⟨hle, rfl⟩
  · obtain ⟨_, _, inv, _, _, _, _, hinv⟩ := ha.extends
    have hpos : 0 < amount := by
      obtain ⟨_, _, hpos, _⟩ := ha
      exact hpos
    have hpay : s'.payments.find? id = some row := by
      rw [hp.documents.1]
      exact Table.find?_insert_self hfree row
    have hinv' : s.invoices.find? i = some inv := by
      rw [hp.invoices] at hinv
      exact hinv
    exact (ha.joinStep hpay hinv (hclash i inv hpos rfl hinv')).frame hs' (.of_eq rfl rfl rfl)
  · exact .inl ⟨hs', hkeep (hle.elim hnone fun h => h)⟩

inductive ReceiptOp
  | recordPayment (ctx : RequestCtx) (body : RecordPaymentRequest)
  | allocatePayment (ctx : RequestCtx) (id : String) (body : AllocatePaymentRequest)
  | stripeWebhook (ctx : RequestCtx) (body : StripeWebhookRequest)

namespace ReceiptOp

def body : ReceiptOp → Tx Response
  | recordPayment ctx b => Finance.recordPayment ctx b
  | allocatePayment ctx id b => Finance.allocatePayment ctx id b
  | stripeWebhook ctx b => Finance.stripeWebhook ctx b

/-- The request asks to pay an invoice of another currency or another customer, and is no
replay. -/
def Mismatches (s : Db) : ReceiptOp → Prop
  | recordPayment ctx b => Idempotency.lookup s ctx.idempotencyKey "payment.record" = none ∧
      ∃ i inv, parseOptionalInvoice b.invoiceId = .ok (some i) ∧ s.invoices.find? i = some inv ∧
        0 < inv.balanceMinor ∧ b.currency ≠ inv.currency
  | allocatePayment ctx id b => Idempotency.lookup s ctx.idempotencyKey (allocateScope id) = none ∧
      ∃ p i pay inv, parsePublicId .payment id = .ok p ∧ parsePublicId .invoice b.invoiceId = .ok i ∧
        s.payments.find? p = some pay ∧ s.invoices.find? i = some inv ∧ ¬pay.Compatible inv
  | stripeWebhook _ b => b.Succeeded ∧
      ∃ i inv c, parseOptionalInvoice b.object.invoiceId = .ok (some i) ∧
        s.invoices.find? i = some inv ∧ inv.status ≠ .draft ∧ inv.status ≠ .void ∧
        0 < inv.balanceMinor ∧ s.findCustomer b.object.customerId = some c ∧
        ¬(toUppercase b.object.currency = inv.currency ∧ c = inv.customerId)

theorem recordPayment_joinStep {ctx : RequestCtx} {b : RecordPaymentRequest} {s t : Db} {r : Response}
    (h : (Finance.recordPayment ctx b).run s = .ok (r, t)) :
    JoinStep s t ((recordPayment ctx b).Mismatches s) := by
  obtain ⟨accounts, ⟨_, hl, _, rfl⟩ |
    ⟨hl, c, invoiceId, at', amount, s', dto, hpos, hc, hi, hm, hr, _, _, rfl⟩⟩ := recordPayment_ok h
  · exact .inl ⟨.of_eq rfl rfl rfl, fun hmis => by cases hmis.1.symm.trans hl⟩
  · have hstep : JoinStep { s with accounts } s' ((recordPayment ctx b).Mismatches s) := by
      cases invoiceId with
      | none =>
        refine hr.joinStep (fun _ => le_of_eq hm) (fun _ hmis => ?_) (fun _ _ _ hn => by cases hn)
        obtain ⟨_, i, _, hi', _⟩ := hmis
        cases hi.symm.trans hi'
      | some i =>
        obtain ⟨inv, hinv, hcust, _, _, rfl⟩ := hm
        refine hr.joinStep nofun (fun hle hmis => ?_) (fun j inv' hpay hj hinv' => ?_)
        · obtain ⟨_, j, inv', hi', hinv', hbal, _⟩ := hmis
          obtain rfl := Option.some.inj (Except.ok.inj (hi.symm.trans hi'))
          obtain rfl := Option.some.inj (hinv.symm.trans hinv')
          omega
        · obtain rfl := Option.some.inj hj
          obtain rfl := Option.some.inj (hinv.symm.trans hinv')
          constructor
          · rintro ⟨hcur, _⟩ ⟨_, j, inv', hi', hinv', _, hne⟩
            obtain rfl := Option.some.inj (Except.ok.inj (hi.symm.trans hi'))
            obtain rfl := Option.some.inj (hinv.symm.trans hinv')
            exact hne hcur
          · intro hmis
            refine ⟨by_contra fun hne => hmis ⟨hl, i, inv, hi, hinv, by omega, hne⟩, hcust.symm⟩
    exact hstep.frame (.of_eq rfl rfl rfl) (.of_eq rfl rfl rfl)

theorem allocatePayment_joinStep {ctx : RequestCtx} {id : String} {b : AllocatePaymentRequest}
    {s t : Db} {r : Response} (h : (Finance.allocatePayment ctx id b).run s = .ok (r, t)) :
    JoinStep s t ((allocatePayment ctx id b).Mismatches s) := by
  obtain ⟨accounts, p, i, hp, hi, ⟨_, hl, _, rfl⟩ |
    ⟨hl, _, _, s₁, s₂, _, ha, _, hpost, _, _, rfl⟩⟩ := allocatePayment_ok h
  · exact .inl ⟨.of_eq rfl rfl rfl, fun hmis => by cases hmis.1.symm.trans hl⟩
  · obtain ⟨_, pay, inv, _, _, _, hpay, hinv⟩ := ha.extends
    have hclash : pay.Compatible inv ↔ ¬(allocatePayment ctx id b).Mismatches s := by
      constructor
      · rintro hc ⟨_, p', i', pay', inv', hp', hi', hpay', hinv', hne⟩
        obtain rfl := Except.ok.inj (hp.symm.trans hp')
        obtain rfl := Except.ok.inj (hi.symm.trans hi')
        obtain rfl := Option.some.inj (hpay.symm.trans hpay')
        obtain rfl := Option.some.inj (hinv.symm.trans hinv')
        exact hne hc
      · intro hmis
        by_contra hne
        exact hmis ⟨hl, p, i, pay, inv, hp, hi, hpay, hinv, hne⟩
    exact (ha.joinStep hpay hinv hclash).frame (.of_eq rfl rfl rfl)
      (hpost.extends.trans (.of_eq rfl rfl rfl))

theorem stripeWebhook_joinStep {ctx : RequestCtx} {b : StripeWebhookRequest} {s t : Db} {r : Response}
    (h : (Finance.stripeWebhook ctx b).run s = .ok (r, t)) :
    JoinStep s t ((stripeWebhook ctx b).Mismatches s) := by
  obtain ⟨accounts, events, ⟨hs, rfl⟩ | ⟨hs, c, invoiceId, amount, hpos, hc, hi, hm, hr⟩⟩ :=
    stripeWebhook_ok h
  · exact .inl ⟨.of_eq rfl rfl rfl, fun hmis => hs hmis.1⟩
  · refine JoinStep.frame (hr.joinStep (fun hn => ?_) (fun hle hmis => ?_) fun j inv' hpay hj hinv' => ?_)
      (.of_eq rfl rfl rfl) (.of_eq rfl rfl rfl)
    · rcases hm with ⟨_, _, hi', _⟩ | ⟨rfl, _⟩
      · cases hn.symm.trans hi'
      · exact le_rfl
    · obtain ⟨_, i, inv, _, hi', hinv, hd, hv, hbal, _⟩ := hmis
      obtain rfl := Except.ok.inj (hi.symm.trans hi')
      rcases hm with ⟨j, inv', hj, hinv', _, _, rfl⟩ | ⟨_, hbad⟩
      · obtain rfl := Option.some.inj hj
        obtain rfl := Option.some.inj (hinv.symm.trans hinv')
        omega
      · rcases hbad i inv rfl hinv with hbad | hbad
        · exact hd hbad
        · exact hv hbad
    · obtain rfl := hj
      rcases hm with ⟨i, inv, hi', hinv, hd, hv, rfl⟩ | ⟨rfl, _⟩
      · obtain rfl := Option.some.inj hi'
        obtain rfl := Option.some.inj (hinv.symm.trans hinv')
        constructor
        · rintro ⟨hcur, hcust⟩ ⟨_, i', inv'', c', hi', hinv'', _, _, _, hc', hne⟩
          obtain rfl := Option.some.inj (Except.ok.inj (hi.symm.trans hi'))
          obtain rfl := Option.some.inj (hinv.symm.trans hinv'')
          obtain rfl := Option.some.inj (hc.symm.trans hc')
          exact hne ⟨hcur, hcust⟩
        · intro hmis
          exact by_contra fun hne => hmis ⟨hs, j, inv, c, hi, hinv, hd, hv, by omega, hc, hne⟩
      · exact absurd hpay (lt_irrefl 0)

theorem joinStep {op : ReceiptOp} {s t : Db} {r : Response} (h : op.body.run s = .ok (r, t)) :
    JoinStep s t (op.Mismatches s) := by
  cases op with
  | recordPayment ctx b => exact recordPayment_joinStep h
  | allocatePayment ctx id b => exact allocatePayment_joinStep h
  | stripeWebhook ctx b => exact stripeWebhook_joinStep h

end ReceiptOp

/-- After a run, either no step mismatched and every allocation joins, or one did and some
allocation clashes. -/
theorem receipts_run {s t : Db} {steps : List (Db × ReceiptOp)} (h0 : s.AllocationsJoin)
    (h : Runs ReceiptOp.body s steps t) :
    (t.AllocationsJoin ∧ ∀ x ∈ steps, ¬x.2.Mismatches x.1) ∨
      ((∃ a ∈ t.allocations.rows, t.Clashes a.2) ∧ ∃ x ∈ steps, x.2.Mismatches x.1) := by
  induction h with
  | nil => exact .inl ⟨h0, by simp⟩
  | @step t u steps op r _ hr ih =>
    have hstep := ReceiptOp.joinStep hr
    rcases ih with ⟨hjoin, hnone⟩ | ⟨⟨a, ha, hclash⟩, x, hx, hmis⟩
    · rcases hstep with ⟨hext, hc⟩ | ⟨id, a, p, inv, hext, hp, hi, hc⟩
      · refine .inl ⟨fun a ha => ?_, ?_⟩
        · rw [hext.allocations, List.append_nil] at ha
          exact hext.joins (hjoin a ha)
        · simpa [or_imp, forall_and, hc] using hnone
      · by_cases hmis : op.Mismatches t
        · refine .inr ⟨⟨(id, a), by simp [hext.allocations], p, inv, hp, hi, fun h => hc.mp h hmis⟩, ?_⟩
          exact ⟨(t, op), by simp, hmis⟩
        · refine .inl ⟨fun b hb => ?_, ?_⟩
          · rw [hext.allocations] at hb
            rcases List.mem_append.mp hb with hb | hb
            · exact hext.joins (hjoin b hb)
            · obtain rfl := List.mem_singleton.mp hb
              exact ⟨p, inv, hp, hi, hc.mpr hmis⟩
          · simpa [or_imp, forall_and, hmis] using hnone
    · refine .inr ⟨?_, x, List.mem_append_left _ hx, hmis⟩
      rcases hstep with ⟨hext, _⟩ | ⟨_, _, _, _, hext, _⟩
      all_goals
        exact ⟨a, by rw [hext.allocations]; exact List.mem_append_left _ ha, hext.clashes hclash⟩

/-- In a run of receipts every allocation joins a payment and an invoice of one currency and one
customer if and only if no step asked for another join. -/
theorem allocations_join_iff {s t : Db} {steps : List (Db × ReceiptOp)} (h0 : s.AllocationsJoin)
    (h : Runs ReceiptOp.body s steps t) :
    t.AllocationsJoin ↔ ∀ x ∈ steps, ¬x.2.Mismatches x.1 := by
  rcases receipts_run h0 h with ⟨hjoin, hnone⟩ | ⟨⟨a, ha, hclash⟩, x, hx, hmis⟩
  · exact iff_of_true hjoin hnone
  · exact iff_of_false (fun hj => (hj a ha).not_clashes hclash) fun hn => hn x hx hmis

/-- The provider reports a euro of one customer for the invoice of another, in dollars. -/
def euroFromOther : List ReceiptOp :=
  [.stripeWebhook (.nth 1)
    { authed := true
      id := "evt_1"
      typeField := "payment_intent.succeeded"
      object :=
        { id := "pi_1"
          amount := 100
          currency := "eur"
          customerId := (PublicId.mk .customer 2).asStr
          invoiceId := some (PublicId.mk .invoice 21).asStr } }]

def dollarFromCustomer : List ReceiptOp :=
  [.recordPayment (.nth 1)
    { customerId := (PublicId.mk .customer 1).asStr
      currency := "USD"
      amountMinor := 100
      invoiceId := some (PublicId.mk .invoice 21).asStr }]

theorem Db.oneIssued_join : Db.oneIssued.AllocationsJoin := nofun

omit [Formats] in
theorem allocations_join_iff_paid :
    letI := canonicalFormats
    ∃ steps t, Runs ReceiptOp.body Db.oneIssued steps t ∧ t.allocations.rows.length = 1 ∧
      (t.AllocationsJoin ↔ ∀ x ∈ steps, ¬x.2.Mismatches x.1) := by
  let := canonicalFormats
  obtain ⟨steps, t, hrun, hlen⟩ := Runs.of_play ReceiptOp.body dollarFromCustomer Db.oneIssued
    (fun _ t => t.allocations.rows.length = 1) (by decide +kernel)
  exact ⟨steps, t, hrun, of_decide_eq_true hlen, allocations_join_iff Db.oneIssued_join hrun⟩

omit [Formats] in
/-- A euro of the second customer settles the dollar that the first one owes. -/
theorem euro_settles_dollar :
    letI := canonicalFormats
    ∃ steps t, Db.oneIssued.AllocationsJoin ∧ Runs ReceiptOp.body Db.oneIssued steps t ∧
      t.allocations.values.map (fun a => (a.paymentId, a.invoiceId, a.amountMinor)) = [(102, 21, 100)] ∧
      (t.payments.find? 102).map (fun p => (p.currency, p.customerId)) = some ("EUR", 2) ∧
      (t.invoices.find? 21).map (fun i => (i.currency, i.customerId, i.status)) =
        some ("USD", 1, .paid) ∧
      ¬t.AllocationsJoin := by
  let := canonicalFormats
  obtain ⟨steps, t, hrun, ht⟩ := Runs.of_play ReceiptOp.body euroFromOther Db.oneIssued
    (fun _ t =>
      t.allocations.values.map (fun a => (a.paymentId, a.invoiceId, a.amountMinor)) = [(102, 21, 100)] ∧
      (t.payments.find? 102).map (fun p => (p.currency, p.customerId)) = some ("EUR", 2) ∧
      (t.invoices.find? 21).map (fun i => (i.currency, i.customerId, i.status)) = some ("USD", 1, .paid))
    (by decide +kernel)
  obtain ⟨ha, hp, hi⟩ := of_decide_eq_true ht
  refine ⟨steps, t, Db.oneIssued_join, hrun, ha, hp, hi, fun hjoin => ?_⟩
  have hmem : (102, 21, 100) ∈ t.allocations.values.map fun a => (a.paymentId, a.invoiceId, a.amountMinor) := by
    rw [ha]
    exact List.mem_singleton_self _
  obtain ⟨a, hmem, hids⟩ := List.mem_map.mp hmem
  obtain ⟨x, hx, rfl⟩ := List.mem_map.mp hmem
  obtain ⟨p, inv, hp', hi', hcur, _⟩ := hjoin x hx
  simp only [Prod.mk.injEq] at hids
  rw [hids.1] at hp'
  rw [hids.2.1] at hi'
  rw [hp'] at hp
  rw [hi'] at hi
  simp only [Option.map_some, Option.some.injEq, Prod.mk.injEq] at hp hi
  rw [hp.1, hi.1] at hcur
  exact absurd hcur (by decide)

end Noxara.Finance
