import Mathlib.Algebra.Order.BigOperators.Group.List
import Noxara.InvoiceSettlement
import Noxara.LedgerGate
import Noxara.TransactionGate

/-! The settlement of one issued invoice while sends, voids, payments, allocations and credit
notes run against the organisation's invoices in any interleaving. -/
namespace Noxara.Finance

open Transaction

def Db.paidTo (db : Db) (id : Uuid) : Int :=
  db.allocations.sumBy fun a => if a.invoiceId = id then a.amountMinor else 0

def Db.creditedTo (db : Db) (id : Uuid) : Int :=
  db.creditNotes.sumBy fun c => if c.invoiceId = id then c.totalMinor else 0

/-- The balance is what is left of the total, and the invoice is paid when nothing is. -/
def InvoiceRow.Balanced (r : InvoiceRow) : Prop :=
  r.balanceMinor = r.totalMinor - r.amountPaidMinor - r.amountCreditedMinor ∧ 0 ≤ r.balanceMinor ∧
    (r.status = .paid ↔ r.balanceMinor = 0)

/-- An issued invoice agrees with its allocations and credit notes, and is void without an
allocation or has its balance right. -/
structure Db.Settles (db : Db) (id : Uuid) (r : InvoiceRow) : Prop where
  row : db.invoices.find? id = some r
  issued : r.status ≠ .draft
  paid : r.amountPaidMinor = db.paidTo id
  credited : r.amountCreditedMinor = db.creditedTo id
  state : (r.status = .void ∧ ∀ a ∈ db.allocations.values, a.invoiceId ≠ id) ∨ r.Balanced

theorem InvoiceRow.balanced_iff {r : InvoiceRow} : r.Balanced ↔ ∃ x, r.Represents x := by
  constructor
  · rintro ⟨hb, hn, hp⟩
    refine ⟨⟨r.totalMinor, r.amountPaidMinor + r.amountCreditedMinor, by omega⟩, rfl, rfl, ?_, ?_⟩
    · simp only [Receivable.outstanding]
      omega
    · rw [hp]
      simp only [Receivable.outstanding]
      omega
  · rintro ⟨x, ht, hs, hb, hp⟩
    have hn := x.outstanding_nonneg
    refine ⟨?_, hb ▸ hn, hb ▸ hp⟩
    rw [hb, Receivable.outstanding]
    omega

theorem Db.no_allocation {db : Db} {id : Uuid} (h : db.paidTo id ≤ 0) :
    ∀ a ∈ db.allocations.values, a.invoiceId ≠ id := by
  rintro a ha rfl
  have hle := List.single_le_sum (l := db.allocations.values.map fun b =>
    if b.invoiceId = a.invoiceId then b.amountMinor else 0) (fun x hx => ?_) _
    (List.mem_map_of_mem ha)
  · simp only [if_true] at hle
    exact absurd a.positive (not_lt.mpr (hle.trans h))
  · obtain ⟨b, _, rfl⟩ := List.mem_map.mp hx
    have := b.positive
    split_ifs <;> omega

namespace Db.Settles
variable {s t : Db} {id : Uuid} {r : InvoiceRow}

theorem balanced (h : s.Settles id r) (hv : r.status ≠ .void) : r.Balanced :=
  h.state.resolve_left fun hs => hv hs.1

/-- Nothing about the invoice changed. -/
theorem other (h : s.Settles id r) (hi : t.invoices.find? id = s.invoices.find? id)
    (hp : t.paidTo id = s.paidTo id) (hc : t.creditedTo id = s.creditedTo id)
    (ha : ∀ a ∈ t.allocations.values, a.invoiceId = id → a ∈ s.allocations.values) :
    t.Settles id r where
  row := hi.trans h.row
  issued := h.issued
  paid := h.paid.trans hp.symm
  credited := h.credited.trans hc.symm
  state := h.state.imp_left fun hs => ⟨hs.1, fun a hm he => hs.2 a (ha a hm he) he⟩

theorem congr (h : s.Settles id r) (hi : t.invoices = s.invoices)
    (ha : t.allocations = s.allocations) (hc : t.creditNotes = s.creditNotes) : t.Settles id r :=
  h.other (by rw [hi]) (by rw [paidTo, ha, paidTo]) (by rw [creditedTo, hc, creditedTo])
    fun a hm _ => ha ▸ hm

theorem post [Formats] {ctx : RequestCtx} {draft : JournalDraft} (h : s.Settles id r)
    (hp : Posted ctx draft s t) : t.Settles id r :=
  h.congr hp.invoices hp.documents.2.1 hp.documents.2.2.2

theorem allocated (h : s.Settles id r) {ctx : RequestCtx} {p i : Uuid} {amount : Int}
    (ha : Allocated ctx p i amount s t) : ∃ r', t.Settles id r' := by
  obtain ⟨inv, pay, hpos, hinv, _, hd, hv, hbal, _, hnew, rfl⟩ := ha
  have hsum := Table.sumBy_insert hnew (⟨p, i, amount, hpos⟩ : AllocationRow)
    fun a => if a.invoiceId = id then a.amountMinor else 0
  by_cases hi : id = i
  · subst hi
    obtain rfl := Option.some.inj (h.row.symm.trans hinv)
    obtain ⟨x, hx⟩ := InvoiceRow.balanced_iff.mp (h.balanced hv)
    have hx' := hx.pay (hx.balance ▸ hbal) ctx.now
    refine ⟨r.pay ctx.now amount r, ?_, (r.pay_status ctx.now amount).1, ?_, h.credited,
      .inr (InvoiceRow.balanced_iff.mpr ⟨_, hx'⟩)⟩
    · rw [Table.find?_modify_self, hinv]
      rfl
    · simp only [if_true] at hsum
      exact (congrArg (· + amount) h.paid).trans hsum.symm
  · refine ⟨r, h.other (Table.find?_modify_ne _ _ hi) ?_ rfl fun a hm he => ?_⟩
    · simpa [Ne.symm hi, paidTo] using hsum
    · rcases Table.mem_values_insert hm with hm | rfl
      · exact hm
      · exact absurd he.symm hi

variable [Formats]

theorem received (h : s.Settles id r) {ctx : RequestCtx} {p : Uuid} {row : PaymentRow} {amount : Int}
    {invoiceId : Option Uuid} (hr : Received ctx p row amount invoiceId s t) :
    ∃ r', t.Settles id r' := by
  obtain ⟨_, currency, journal, s', _, hp, ha⟩ := hr
  have hs' : s'.Settles id r :=
    (h.congr (t := { s with payments := s.payments.insert p row }) rfl rfl rfl).post hp
  rcases ha with ⟨i, _, ha⟩ | ⟨_, rfl⟩
  · exact hs'.allocated ha
  · exact ⟨r, hs'⟩

theorem credit (h : s.Settles id r) {ctx : RequestCtx} {i : Uuid} {amount : Int}
    (hc : Credited ctx i amount s t) : ∃ r', t.Settles id r' := by
  obtain ⟨inv, row, currency, net, tax, journal, seq, s', hinv, hd, hv, _, hbal, rfl, rfl, hnew, _, hp,
    rfl⟩ := hc
  have hsum := Table.sumBy_insert hnew row fun c => if c.invoiceId = id then c.totalMinor else 0
  have hi' := hp.invoices
  obtain ⟨_, ha', _, hc'⟩ := hp.documents
  by_cases hi : id = row.invoiceId
  · subst hi
    obtain rfl := Option.some.inj (h.row.symm.trans hinv)
    obtain ⟨x, hx⟩ := InvoiceRow.balanced_iff.mp (h.balanced hv)
    have hx' := hx.credit (hx.balance ▸ hbal) ctx.now
    refine ⟨r.credit ctx.now row.totalMinor r, ?_, (r.credit_status ctx.now row.totalMinor).1, ?_, ?_,
      .inr (InvoiceRow.balanced_iff.mpr ⟨_, hx'⟩)⟩
    · rw [hi', Table.find?_modify_self]
      exact congrArg _ hinv
    · rw [paidTo, ha']
      exact h.paid
    · simp only [if_true] at hsum
      rw [creditedTo, hc', hsum]
      exact congrArg (· + row.totalMinor) h.credited
  · refine ⟨r, h.other ?_ (by rw [paidTo, ha', paidTo]) ?_ fun a hm _ => by rwa [ha'] at hm⟩
    · rw [hi', Table.find?_modify_ne _ _ hi]
    · rw [creditedTo, hc', hsum, if_neg (Ne.symm hi), add_zero, creditedTo]

theorem sent (h : s.Settles id r) {ctx : RequestCtx} {raw : String} {a : Response}
    (ho : (sendInvoice ctx raw).run s = .ok (a, t)) : ∃ r', t.Settles id r' := by
  obtain ⟨i, accounts, row, _, hrow, hs, rfl⟩ := sendInvoice_ok ho
  by_cases hi : id = i
  · subst hi
    obtain rfl := Option.some.inj (h.row.symm.trans hrow)
    have hne : r.status ≠ .void ∧ r.status ≠ .paid := by
      rcases hs with hs | hs <;> simp [hs]
    obtain ⟨x, hx⟩ := InvoiceRow.balanced_iff.mp (h.balanced hne.1)
    refine ⟨r.markSent ctx.now s!"/pay/{r.publicId}", ?_, by simp [InvoiceRow.markSent], h.paid,
      h.credited, .inr (InvoiceRow.balanced_iff.mpr ⟨x, hx.markSent hne.2 _ _⟩)⟩
    rw [Table.find?_modify_self, hrow]
    rfl
  · exact ⟨r, h.other (Table.find?_modify_ne _ _ hi) rfl rfl fun a hm _ => hm⟩

theorem voided (h : s.Settles id r) {ctx : RequestCtx} {raw : String} {a : Response}
    (ho : (voidInvoice ctx raw).run s = .ok (a, t)) : ∃ r', t.Settles id r' := by
  obtain ⟨i, accounts, row, _, hrow, _, _, hpaid, rfl⟩ := voidInvoice_ok ho
  by_cases hi : id = i
  · subst hi
    obtain rfl := Option.some.inj (h.row.symm.trans hrow)
    refine ⟨r.markVoid ctx.now, ?_, by simp [InvoiceRow.markVoid], h.paid, h.credited,
      .inl ⟨rfl, s.no_allocation (h.paid ▸ hpaid)⟩⟩
    rw [Table.find?_modify_self, hrow]
    rfl
  · exact ⟨r, h.other (Table.find?_modify_ne _ _ hi) rfl rfl fun a hm _ => hm⟩

end Db.Settles

inductive SettlementOp
  | sendInvoice (ctx : RequestCtx) (id : String)
  | voidInvoice (ctx : RequestCtx) (id : String)
  | recordPayment (ctx : RequestCtx) (body : RecordPaymentRequest)
  | allocatePayment (ctx : RequestCtx) (id : String) (body : AllocatePaymentRequest)
  | createCreditNote (ctx : RequestCtx) (body : CreateCreditNoteRequest)

variable [Formats]

def SettlementOp.body : SettlementOp → Tx Response
  | sendInvoice ctx id => Finance.sendInvoice ctx id
  | voidInvoice ctx id => Finance.voidInvoice ctx id
  | recordPayment ctx b => Finance.recordPayment ctx b
  | allocatePayment ctx id b => Finance.allocatePayment ctx id b
  | createCreditNote ctx b => Finance.createCreditNote ctx b

theorem SettlementOp.gated (op : SettlementOp) : op.body.Gated ledgerGate := by
  cases op with
  | sendInvoice ctx id => exact sendInvoice_gated ctx id
  | voidInvoice ctx id => exact voidInvoice_gated ctx id
  | recordPayment ctx b => exact recordPayment_gated ctx b
  | allocatePayment ctx id b => exact allocatePayment_gated ctx id b
  | createCreditNote ctx b => exact createCreditNote_gated ctx b

theorem Db.Settles.step {s t : Db} {id : Uuid} {r : InvoiceRow} (h : s.Settles id r)
    {op : SettlementOp} {a : Response} (ho : op.body.run s = .ok (a, t)) : ∃ r', t.Settles id r' := by
  cases op with
  | sendInvoice ctx raw => exact h.sent ho
  | voidInvoice ctx raw => exact h.voided ho
  | recordPayment ctx b =>
    obtain ⟨accounts, ⟨_, _, _, rfl⟩ | ⟨_, _, _, _, _, s', _, _, _, _, _, hr, _, _, rfl⟩⟩ :=
      recordPayment_ok ho
    · exact ⟨r, h.congr rfl rfl rfl⟩
    · obtain ⟨r', hr'⟩ := (h.congr (t := { s with accounts }) rfl rfl rfl).received hr
      exact ⟨r', hr'.congr rfl rfl rfl⟩
  | allocatePayment ctx raw b =>
    obtain ⟨accounts, _, _, _, _, ⟨_, _, _, rfl⟩ | ⟨_, _, _, s₁, s₂, _, ha, _, hp, _, _, rfl⟩⟩ :=
      allocatePayment_ok ho
    · exact ⟨r, h.congr rfl rfl rfl⟩
    · obtain ⟨r', hr'⟩ := (h.congr (t := { s with accounts }) rfl rfl rfl).allocated ha
      exact ⟨r', (hr'.post hp).congr rfl rfl rfl⟩
  | createCreditNote ctx b =>
    obtain ⟨accounts, ⟨_, _, _, rfl⟩ | ⟨_, _, _, s', _, _, hc, _, rfl⟩⟩ := createCreditNote_ok ho
    · exact ⟨r, h.congr rfl rfl rfl⟩
    · obtain ⟨r', hr'⟩ := (h.congr (t := { s with accounts }) rfl rfl rfl).credit hc
      exact ⟨r', hr'.congr rfl rfl rfl⟩

/-- In every interleaving of the five transactions, every committed store has an issued invoice
in a settlement state, if the first one has. -/
theorem settlement_interleaving {ι : Type} [DecidableEq ι] {ops : ι → SettlementOp} {db : Db}
    {id : Uuid} {c : Config ι Db RowKey TxExit Response} (h0 : ∃ r, db.Settles id r)
    (h : Reachable (fun i => (ops i).body) db c) : ∃ r, c.db.Settles id r :=
  h.gated_invariant (I := fun s => ∃ r, s.Settles id r) (fun i => (ops i).gated) h0
    fun _ _ _ _ ⟨_, hr⟩ ho => hr.step ho

/-- A payment of a dollar and a void, both for the invoice over one dollar. -/
def payAndVoid : Fin 2 → SettlementOp :=
  sideBySide
    (.recordPayment (.nth 1)
      { customerId := (PublicId.mk .customer 1).asStr
        currency := "USD"
        amountMinor := 100
        invoiceId := some (PublicId.mk .invoice 21).asStr })
    (.voidInvoice (.nth 2) (PublicId.mk .invoice 21).asStr)

theorem Db.oneIssued_settles : ∃ r, Db.oneIssued.Settles 21 r :=
  ⟨_, rfl, nofun, rfl, rfl, .inr ⟨rfl, Int.natCast_nonneg 100, nofun, nofun⟩⟩

omit [Formats] in
theorem settlement_interleaving_paid :
    letI := canonicalFormats
    ∃ c, Reachable (fun i => (payAndVoid i).body) Db.oneIssued c ∧ c.log.map Prod.fst = [0, 1] ∧
      ∃ r, c.db.Settles 21 r := by
  let := canonicalFormats
  obtain ⟨c, hc, hlog⟩ := Reachable.of_play (fun i => (payAndVoid i).body) Db.oneIssued
    (Move.through 0 36 ++ Move.through 1 20) (fun c => c.log.map Prod.fst = [0, 1])
    (by decide +kernel)
  exact ⟨c, hc, of_decide_eq_true hlog, settlement_interleaving Db.oneIssued_settles hc⟩

end Noxara.Finance
