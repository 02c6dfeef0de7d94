import Noxara.HandlerEffects
import Noxara.JournalNets
import Noxara.LedgerGate
import Noxara.TransactionGate

/-! Payments of vendor bills. What is posted for a bill is what its row says was paid, and never
more than it asks for. -/
namespace Noxara.Finance

open Transaction

def fromBill (billId : Uuid) (sourceType : SourceType) (sourceId : Uuid) : Bool :=
  sourceType = .vendorPayment ∧ sourceId = billId

/-- The amounts posted by the payments of a bill. -/
def Db.postedFor (db : Db) (billId : Uuid) : Int := db.sumFrom (fromBill billId) (·.debitMinor)

/-- What the row of a bill says when `posted` was posted for it. -/
structure VendorBillRow.Stands (b : VendorBillRow) (posted : Int) : Prop where
  posted_eq : posted = b.amountPaidMinor
  paid_le : b.amountPaidMinor ≤ b.amountMinor
  paid_iff : b.status = .paid ↔ b.amountPaidMinor = b.amountMinor

/-- The row after `amount` more was paid, from the row that was read. -/
def VendorBillRow.pay [Formats] (read : VendorBillRow) (ctx : RequestCtx) (amount : Int) (entryId : Uuid)
    (b : VendorBillRow) : VendorBillRow :=
  { b with
    amountPaidMinor := read.amountPaidMinor + amount
    status := if read.amountPaidMinor + amount ≥ read.amountMinor then .paid else .partiallyPaid
    paymentJournalPublicId := some (journalPublicId entryId)
    version := b.version + 1
    updatedAt := ctx.now }

theorem VendorBillRow.Stands.pay [Formats] {b : VendorBillRow} {posted amount : Int}
    (h : b.Stands posted) (ctx : RequestCtx) (entryId : Uuid)
    (hle : amount ≤ b.amountMinor - b.amountPaidMinor) :
    (b.pay ctx amount entryId b).Stands (posted + amount) := by
  have := h.posted_eq
  constructor
  · simp only [VendorBillRow.pay]
    omega
  · simp only [VendorBillRow.pay]
    omega
  · simp only [VendorBillRow.pay]
    split_ifs <;> simp <;> omega

variable [Formats]

/-- An amount within what a bill still asks for was posted and written to its row. -/
def BillPaid (ctx : RequestCtx) (billId : Uuid) (s t : Db) : Prop :=
  ∃ row amount currency memo journal s', s.vendorBills.find? billId = some row ∧
    0 < amount ∧ amount ≤ row.amountMinor - row.amountPaidMinor ∧
    (vendorPaymentEntry ctx billId row currency memo amount).balanced = .ok journal ∧
    Posted ctx journal s s' ∧
    t = { s' with vendorBills := s'.vendorBills.modify billId (row.pay ctx amount (ctx.fresh 0)) }

theorem payVendorBill_ok {ctx : RequestCtx} {id : String} {body : PayVendorBillRequest} {s t : Db}
    {r : Response} (h : (payVendorBill ctx id body).run s = .ok (r, t)) :
    ∃ billId accounts, parsePublicId .vendorBill id = .ok billId ∧
      (t = { s with accounts } ∨
        ∃ s' idempotency, BillPaid ctx billId { s with accounts } s' ∧ t = { s' with idempotency }) := by
  simp only [payVendorBill, run_lift_bind_ok] at h
  obtain ⟨billId, hid, _, _, h⟩ := h
  obtain ⟨accounts, ⟨_, _, _, ht⟩ | ⟨_, h⟩⟩ := seeded_replayOr_ok h
  · exact ⟨billId, accounts, hid, .inl ht⟩
  refine ⟨billId, accounts, hid, ?_⟩
  simp only [fetchBill, bind_assoc, Prog.run_query_bind, run_lift_bind_ok, foundOr_ok] at h
  obtain ⟨row, hrow, h⟩ := h
  by_cases hpaid : row.status = .paid
  · rw [if_pos hpaid] at h
    cases h
    exact .inl rfl
  · rw [if_neg hpaid] at h
    simp only [Prog.run_require_bind_ok, run_lift_bind_ok, journalError, mapError_ok] at h
    obtain ⟨_, ⟨hpos, hle⟩, currency, _, journal, hj, h⟩ := h
    obtain ⟨entryId, s', hp, h⟩ := Prog.run_bind_ok.mp h
    obtain ⟨rfl, hpost⟩ := postJournal_ok hp
    simp only [updateBill, Prog.run_execute_bind_ok, Prog.run_query_bind, run_lift_bind_ok,
      Idempotency.run_record_bind_ok] at h
    obtain ⟨_, row', _, h⟩ := h
    cases h
    exact .inr ⟨_, _, ⟨row, _, currency, body.memo, journal, s', hrow, hpos, hle, hj, hpost, rfl⟩, rfl⟩

theorem payVendorBill_gated (ctx : RequestCtx) (id : String) (body : PayVendorBillRequest) :
    (payVendorBill ctx id body).Gated ledgerGate := by
  unfold payVendorBill
  refine gated_lift_bind fun _ _ => ?_
  refine gated_lift_bind fun _ _ => ?_
  exact ensureLedgerAccounts_gated _

/-- The bill is there and its row says what was posted for it. -/
structure Db.BillStands (db : Db) (billId : Uuid) : Prop where
  linesBelong : db.LinesBelong
  stands : ∃ b, db.vendorBills.find? billId = some b ∧ b.Stands (db.postedFor billId)

omit [Formats] in
theorem Db.BillStands.of_open {db : Db} {billId : Uuid} {b : VendorBillRow} (hfk : db.LinesBelong)
    (hb : db.vendorBills.find? billId = some b) (hopen : b.status = .open) (hpos : 0 < b.amountMinor)
    (hpaid : b.amountPaidMinor = 0) (hnone : db.entriesFrom (fromBill billId) = []) :
    db.BillStands billId := by
  refine ⟨hfk, b, hb, ?_, ?_, ?_⟩
  · rw [Db.postedFor, Db.sumFrom, hnone, hpaid]
    rfl
  · omega
  · rw [hopen]
    constructor
    · intro h
      cases h
    · omega

theorem Posted.postedFor {ctx : RequestCtx} {d e : Uuid} {row : VendorBillRow} {currency : Currency}
    {memo : Option String} {amount : Int} {journal : JournalDraft} {s t : Db}
    (hj : (vendorPaymentEntry ctx d row currency memo amount).balanced = .ok journal)
    (h : Posted ctx journal s t) (hfk : s.LinesBelong) :
    t.postedFor e = s.postedFor e + if d = e then amount else 0 := by
  obtain ⟨_, rfl⟩ := JournalDraft.balanced_ok.mp hj
  have hsum := h.sumFrom hfk (fromBill e) (·.debitMinor)
  rw [Db.postedFor, hsum]
  by_cases he : d = e <;>
    simp [vendorPaymentEntry, fromBill, he, LedgerLine.row, LedgerLine.debit, LedgerLine.credit,
      Db.postedFor]

theorem Posted.vendorBills {ctx : RequestCtx} {draft : JournalDraft} {s t : Db}
    (h : Posted ctx draft s t) : t.vendorBills = s.vendorBills := by
  obtain ⟨_, _, _, _, _, _, rfl⟩ := h.stored
  rfl

theorem BillPaid.stands {ctx : RequestCtx} {d e : Uuid} {s t : Db} (h : BillPaid ctx d s t)
    (hs : s.BillStands e) : t.BillStands e := by
  obtain ⟨row, amount, currency, memo, journal, s', hrow, _, hle, hj, hp, rfl⟩ := h
  obtain ⟨hfk, b, hb, hstands⟩ := hs
  have hposted := hp.postedFor hj hfk (e := e)
  refine ⟨hp.linesBelong hfk, ?_⟩
  by_cases he : e = d
  · subst he
    cases hrow.symm.trans hb
    rw [if_pos rfl] at hposted
    refine ⟨row.pay ctx amount (ctx.fresh 0) row, ?_, ?_⟩
    · rw [Table.find?_modify_self, hp.vendorBills, hrow]
      rfl
    · have hpay := hstands.pay ctx (ctx.fresh 0) hle
      rw [← hposted] at hpay
      exact hpay
  · rw [if_neg (Ne.symm he), add_zero] at hposted
    refine ⟨b, ?_, ?_⟩
    · rw [Table.find?_modify_ne _ _ he, hp.vendorBills]
      exact hb
    · rw [← hposted] at hstands
      exact hstands

structure PayVendorBillCall where
  ctx : RequestCtx
  id : String
  body : PayVendorBillRequest

def PayVendorBillCall.run (c : PayVendorBillCall) : Tx Response := payVendorBill c.ctx c.id c.body

/-- In every interleaving of payments, of this bill and of others, the amounts posted for the bill
are what its row says was paid, no more than the bill, and all of it exactly when it is paid. -/
theorem bill_never_overpaid {ι : Type} [DecidableEq ι] {calls : ι → PayVendorBillCall} {db : Db}
    {c : Config ι Db RowKey TxExit Response} {billId : Uuid} (h0 : db.BillStands billId)
    (h : Reachable (fun i => (calls i).run) db c) :
    ∃ b, c.db.vendorBills.find? billId = some b ∧ c.db.postedFor billId = b.amountPaidMinor ∧
      b.amountPaidMinor ≤ b.amountMinor ∧ (b.status = .paid ↔ b.amountPaidMinor = b.amountMinor) := by
  have hstands : c.db.BillStands billId := by
    refine h.gated_invariant (I := fun s => s.BillStands billId) (g := ledgerGate)
      (fun i => payVendorBill_gated _ _ _) h0 fun i s a t hs hr => ?_
    obtain ⟨d, accounts, _, rfl | ⟨s', _, hd, rfl⟩⟩ := payVendorBill_ok hr
    · exact ⟨hs.linesBelong, hs.stands⟩
    · have ht := hd.stands (s := { s with accounts }) ⟨hs.linesBelong, hs.stands⟩
      exact ⟨ht.linesBelong, ht.stands⟩
  obtain ⟨b, hb, hst⟩ := hstands.stands
  exact ⟨b, hb, hst.posted_eq, hst.paid_le, hst.paid_iff⟩

def Db.oneBill : Db :=
  { Db.empty with
    vendorBills := Table.empty.insert 81
      { publicId := (PublicId.mk .vendorBill 81).asStr
        supplierRef := "Acme"
        sourceType := "manual"
        sourceId := none
        currency := "USD"
        amountMinor := 100
        amountPaidMinor := 0
        status := .open
        memo := none
        paymentJournalPublicId := none
        createdAt := 0
        updatedAt := 0
        version := 1 } }

/-- Two payments that together ask for more than the bill. -/
def payTwice : Fin 2 → PayVendorBillCall :=
  sideBySide ⟨.nth 1, (PublicId.mk .vendorBill 81).asStr, { amountMinor := some 60 }⟩
    ⟨.nth 2, (PublicId.mk .vendorBill 81).asStr, { amountMinor := some 60 }⟩

theorem Db.oneBill_stands : Db.oneBill.BillStands 81 := by
  have hfk : Db.oneBill.LinesBelong := by simp [Db.LinesBelong, Db.oneBill, Db.empty]
  have hpos : (0 : Int) < 100 := by decide
  exact .of_open hfk rfl rfl hpos rfl rfl

omit [Formats] in
theorem bill_never_overpaid_twice :
    letI := canonicalFormats
    ∃ c, Reachable (fun i => (payTwice i).run) Db.oneBill c ∧
      c.log.map (fun l => (l.1, l.2.toBool)) = [(0, true), (1, false)] ∧
      ∃ b, c.db.vendorBills.find? 81 = some b ∧ c.db.postedFor 81 = b.amountPaidMinor ∧
        b.amountPaidMinor ≤ b.amountMinor ∧ (b.status = .paid ↔ b.amountPaidMinor = b.amountMinor) := by
  let := canonicalFormats
  obtain ⟨c, hc, hlog⟩ := Reachable.of_play (fun i => (payTwice i).run) Db.oneBill
    (Move.through 0 30 ++ Move.through 1 20)
    (fun c => c.log.map (fun l => (l.1, l.2.toBool)) = [(0, true), (1, false)]) (by decide +kernel)
  exact ⟨c, hc, of_decide_eq_true hlog, bill_never_overpaid Db.oneBill_stands hc⟩

end Noxara.Finance
