import Noxara.HandlerEffects
import Noxara.ClosedPeriods
import Noxara.LedgerGate

/-! What a replay answers for. The store keys a response by the request's Idempotency-Key and
the endpoint's scope. Two endpoints embed the path id in their scope, so their replays stay
with the resource; two do not, and there a key answers for every resource. -/
namespace Noxara.Finance

open Transaction

/-- The endpoints that take the id of a resource in their path. -/
inductive IdEndpoint
  | payVendorBill | closePeriod | allocatePayment | issueInvoice
  deriving DecidableEq

namespace IdEndpoint

def RequestBody : IdEndpoint → Type
  | payVendorBill => PayVendorBillRequest
  | closePeriod => ClosePeriodRequest
  | allocatePayment => AllocatePaymentRequest
  | issueInvoice => IssueInvoiceRequest

def kind : IdEndpoint → IdKind
  | payVendorBill => .vendorBill
  | closePeriod => .fiscalPeriod
  | allocatePayment => .payment
  | issueInvoice => .invoice

def permission : IdEndpoint → Permission
  | payVendorBill => .journalPost
  | closePeriod => .periodClose
  | allocatePayment => .paymentAllocate
  | issueInvoice => .invoiceIssue

def scope : IdEndpoint → String → String
  | payVendorBill, _ => "vendor_bill.pay"
  | closePeriod, _ => "period.close"
  | allocatePayment, id => allocateScope id
  | issueInvoice, id => issueScope id

def Stores (e : IdEndpoint) (stored : StoredResponse) : Prop :=
  stored.responseStatus = 200 ∧
    match e, stored.responseBody with
    | payVendorBill, .vendorBill _ => True
    | closePeriod, .period _ => True
    | allocatePayment, .payment _ => True
    | issueInvoice, .invoice _ => True
    | _, _ => False

end IdEndpoint

theorem allocateScope_inj {a b : String} (h : allocateScope a = allocateScope b) : a = b :=
  (String.append_right_inj "payment.allocate.").mp h

theorem issueScope_inj {a b : String} (h : issueScope a = issueScope b) : a = b :=
  (String.append_right_inj "invoice.issue.").mp h

structure IdRequest (e : IdEndpoint) where
  ctx : RequestCtx
  id : String
  body : e.RequestBody

/-- The store with a response recorded in a slot. -/
def Db.storing (db : Db) (slot : String × String) (stored : StoredResponse) : Db :=
  { db with idempotency := (db.idempotency.filter fun k _ => k ≠ slot).insert slot stored }

theorem Db.storing_self (db : Db) (slot : String × String) (stored : StoredResponse) :
    (db.storing slot stored).idempotency.find? slot = some stored := by
  refine Table.find?_insert_self ?_ stored
  rw [Option.eq_none_iff_forall_not_mem]
  intro r hr
  have := (Table.find?_filter.mp hr).2
  simp at this

namespace IdRequest
variable [Formats] {e : IdEndpoint}

def handler : {e : IdEndpoint} → IdRequest e → Tx Response
  | .payVendorBill, q => Finance.payVendorBill q.ctx q.id q.body
  | .closePeriod, q => Finance.closePeriod q.ctx q.id q.body
  | .allocatePayment, q => Finance.allocatePayment q.ctx q.id q.body
  | .issueInvoice, q => Finance.issueInvoice q.ctx q.id q.body

/-- The request is refused before the store is consulted: its id does not parse, or the actor
lacks the permission. -/
def Refused (q : IdRequest e) : Prop :=
  ∀ id, parsePublicId e.kind q.id = .ok id → ∀ u, q.ctx.authorize e.permission ≠ .ok u

/-- The answer is about the resource that the path names, as the request left it. -/
def Applied : {e : IdEndpoint} → IdRequest e → Db → Response → Db → Prop
  | .payVendorBill, q, _, r, t => ∃ id bill, parsePublicId .vendorBill q.id = .ok id ∧
      t.vendorBills.find? id = some bill ∧ r.body = .vendorBill bill.dto
  | .closePeriod, q, _, r, t => ∃ id period, parsePublicId .fiscalPeriod q.id = .ok id ∧
      t.periods.find? id = some period ∧ r.body = .period period.dto
  | .allocatePayment, q, s, r, t => ∃ id invoiceId accounts s' dto,
      parsePublicId .payment q.id = .ok id ∧
      parsePublicId .invoice (show AllocatePaymentRequest from q.body).invoiceId = .ok invoiceId ∧
      Allocated q.ctx id invoiceId (show AllocatePaymentRequest from q.body).amountMinor
        { s with accounts } s' ∧
      t.allocations = s'.allocations ∧ t.fetchPaymentDto id = some dto ∧ r.body = .payment dto
  | .issueInvoice, q, s, r, t => ∃ id accounts s' dto, parsePublicId .invoice q.id = .ok id ∧
      Issued q.ctx q.body id { s with accounts } s' ∧ t.invoices = s'.invoices ∧
      t.fetchInvoiceDto id = some dto ∧ r.body = .invoice dto

/-- The answer repeats what is stored for the request itself, in a slot of its own. -/
def Repeats (q : IdRequest e) (key : String) (otherId : String) (s : Db) (r : Response) : Prop :=
  ∃ own, e.scope q.id ≠ e.scope otherId ∧ s.idempotency.find? (e.scope q.id, key) = some own ∧
    r = ⟨Idempotency.statusFromU16 own.responseStatus 200, own.responseBody⟩

/-- Whatever response is stored for a request of the same key that names `otherId`, this one
fails, does its work on the resource it names, or repeats its own earlier answer. -/
def AnswersForItself (q : IdRequest e) (key otherId : String) (s : Db) : Prop :=
  ∀ stored r t, e.Stores stored →
    q.handler.run (s.storing (e.scope otherId, key) stored) = .ok (r, t) →
    q.Applied (s.storing (e.scope otherId, key) stored) r t ∨
      q.Repeats key otherId (s.storing (e.scope otherId, key) stored) r

theorem answersForItself_embedded {q : IdRequest e} {key otherId : String} {s : Db}
    (he : e = .allocatePayment ∨ e = .issueInvoice) (hkey : q.ctx.idempotencyKey = some key)
    (hne : q.id ≠ otherId) : q.AnswersForItself key otherId s := by
  intro stored r t _ h
  rcases he with rfl | rfl
  · obtain ⟨accounts, id, invoiceId, hp, hi, ⟨own, hl, rfl, _⟩ |
      ⟨_, _, _, s₁, s₂, dto, ha, _, hpost, hdto, rfl, rfl⟩⟩ := allocatePayment_ok h
    · exact .inr ⟨own, fun hs => hne (allocateScope_inj hs),
        (Idempotency.lookup_key hkey).symm.trans hl, rfl⟩
    · exact .inl ⟨id, invoiceId, accounts, s₁, dto, hp, hi, ha, hpost.documents.2.1, hdto, rfl⟩
  · obtain ⟨accounts, id, hi, ⟨own, hl, rfl, _⟩ | ⟨_, s', dto, ha, hdto, rfl, rfl⟩⟩ := issueInvoice_ok h
    · exact .inr ⟨own, fun hs => hne (issueScope_inj hs),
        (Idempotency.lookup_key hkey).symm.trans hl, rfl⟩
    · exact .inl ⟨id, accounts, s', dto, hi, ha, rfl, hdto, rfl⟩

theorem not_refused {q : IdRequest e} :
    ¬q.Refused ↔ ∃ id u, parsePublicId e.kind q.id = .ok id ∧ q.ctx.authorize e.permission = .ok u := by
  simp [Refused]

theorem not_refused_of_ok {q : IdRequest e} {s t : Db} {r : Response}
    (he : e = .payVendorBill ∨ e = .closePeriod) (h : q.handler.run s = .ok (r, t)) : ¬q.Refused := by
  rcases he with rfl | rfl
  · simp only [handler, payVendorBill, run_lift_bind_ok] at h
    obtain ⟨id, hid, u, hu, _⟩ := h
    exact not_refused.mpr ⟨id, u, hid, hu⟩
  · simp only [handler, closePeriod, run_lift_bind_ok] at h
    obtain ⟨id, hid, u, hu, _⟩ := h
    exact not_refused.mpr ⟨id, u, hid, hu⟩

theorem replays_other {q : IdRequest e} {key : String} (otherId : String) (s : Db)
    (stored : StoredResponse)
    (he : e = .payVendorBill ∨ e = .closePeriod) (hkey : q.ctx.idempotencyKey = some key)
    (hq : ¬q.Refused) :
    ∃ accounts, q.handler.run (s.storing (e.scope otherId, key) stored) =
      .ok (⟨Idempotency.statusFromU16 stored.responseStatus 200, stored.responseBody⟩,
        { s.storing (e.scope otherId, key) stored with accounts }) := by
  have hl : Idempotency.lookup (s.storing (e.scope otherId, key) stored) q.ctx.idempotencyKey
      (e.scope otherId) = some stored := by
    rw [hkey]
    exact s.storing_self _ stored
  obtain ⟨id, u, hid, hu⟩ := not_refused.mp hq
  rcases he with rfl | rfl
  · obtain ⟨accounts, hrun⟩ := run_seeded_replay hl
    refine ⟨accounts, ?_⟩
    simp only [handler, payVendorBill, run_lift_bind_ok]
    exact ⟨id, hid, u, hu, hrun⟩
  · refine ⟨s.accounts, ?_⟩
    simp only [handler, closePeriod, run_lift_bind_ok]
    exact ⟨id, hid, u, hu, Idempotency.replayOr_ok.mpr (.inl ⟨stored, hl, rfl⟩)⟩

omit [Formats] in
theorem exists_other_text {α : Type} (x : Option α) (f : α → String) :
    ∃ text, ∀ a, x = some a → f a ≠ text := by
  cases x with
  | none => exact ⟨"", nofun⟩
  | some a =>
    refine ⟨f a ++ "-", fun b hb h => ?_⟩
    cases hb
    have := congrArg String.length h
    simp at this

/-- Where the scope leaves the id out, a request that gets to the store answers with what is
stored for another resource. -/
theorem not_answersForItself {q : IdRequest e} {key otherId : String} {s : Db}
    (he : e = .payVendorBill ∨ e = .closePeriod) (hkey : q.ctx.idempotencyKey = some key)
    (hq : ¬q.Refused) : ¬q.AnswersForItself key otherId s := by
  intro h
  obtain ⟨id, u, hid, hu⟩ := not_refused.mp hq
  rcases he with rfl | rfl
  · obtain ⟨text, htext⟩ := exists_other_text (s.vendorBills.find? id) (·.publicId)
    let stored : StoredResponse :=
      ⟨200, .vendorBill ⟨text, "", "", none, "USD", 1, 0, .open, none, none, 0, 0, 1⟩⟩
    obtain ⟨accounts, hrun⟩ := replays_other otherId s stored (.inl rfl) hkey hq
    rcases h stored _ _ ⟨rfl, trivial⟩ hrun with ⟨id', bill, hid', hbill, hbody⟩ | ⟨_, hne, _⟩
    · obtain rfl : id = id' := Except.ok.inj (hid.symm.trans hid')
      exact htext bill hbill (congrArg VendorBillDto.id (Body.vendorBill.inj hbody)).symm
    · exact hne rfl
  · obtain ⟨text, htext⟩ := exists_other_text (s.periods.find? id) (·.publicId)
    let stored : StoredResponse :=
      ⟨200, .period ⟨text, "", "", q.ctx.today, q.ctx.today, .closed, "", none, none, none⟩⟩
    obtain ⟨accounts, hrun⟩ := replays_other otherId s stored (.inr rfl) hkey hq
    rcases h stored _ _ ⟨rfl, trivial⟩ hrun with ⟨id', period, hid', hperiod, hbody⟩ | ⟨_, hne, _⟩
    · obtain rfl : id = id' := Except.ok.inj (hid.symm.trans hid')
      exact htext period hperiod (congrArg FiscalPeriodDto.id (Body.period.inj hbody)).symm
    · exact hne rfl

end IdRequest

variable [Formats]

/-- A request answers for the resource it names, whatever is stored for another id under its key,
if and only if its endpoint embeds the id in the scope, or it is refused before the store. -/
theorem answersForItself_iff {e : IdEndpoint} {q : IdRequest e} {key otherId : String} {s : Db}
    (hkey : q.ctx.idempotencyKey = some key) (hne : q.id ≠ otherId) :
    q.AnswersForItself key otherId s ↔
      e = .allocatePayment ∨ e = .issueInvoice ∨ q.Refused := by
  by_cases he : e = .allocatePayment ∨ e = .issueInvoice
  · exact iff_of_true (IdRequest.answersForItself_embedded he hkey hne) (or_assoc.mp (.inl he))
  · have he' : e = .payVendorBill ∨ e = .closePeriod := by
      cases e <;> simp at he ⊢
    rw [← or_assoc, or_iff_right he]
    constructor
    · intro h
      by_contra hq
      exact IdRequest.not_answersForItself he' hkey hq h
    · intro hq _ _ _ _ h
      exact absurd hq (IdRequest.not_refused_of_ok he' h)

def Db.twoBills : Db :=
  let bill (id : Uuid) : VendorBillRow :=
    { publicId := (PublicId.mk .vendorBill id).asStr
      supplierRef := "supplier"
      sourceType := "manual"
      sourceId := none
      currency := "USD"
      amountMinor := 100
      amountPaidMinor := 0
      status := .open
      memo := none
      paymentJournalPublicId := none
      createdAt := 0
      updatedAt := 0
      version := 1 }
  { Db.empty with vendorBills := (Table.empty.insert 11 (bill 11)).insert 12 (bill 12) }

/-- Pay a bill in full, under one key for all bills. -/
def payOnce (n : Nat) (id : Uuid) : IdRequest .payVendorBill where
  ctx := { RequestCtx.nth n with idempotencyKey := some "retry" }
  id := (PublicId.mk .vendorBill id).asStr
  body := ({} : PayVendorBillRequest)

omit [Formats] in
theorem answersForItself_iff_paid :
    letI := canonicalFormats
    (payOnce 2 12).AnswersForItself "retry" (payOnce 1 11).id Db.twoBills ↔
      IdEndpoint.payVendorBill = .allocatePayment ∨ IdEndpoint.payVendorBill = .issueInvoice ∨
        (payOnce 2 12).Refused := by
  let := canonicalFormats
  exact answersForItself_iff rfl (by decide +kernel)

omit [Formats] in
/-- The second bill is answered with the first one's stored response and stays unpaid. -/
theorem payVendorBill_answers_for_other :
    letI := canonicalFormats
    ∃ r s t, (payOnce 1 11).handler.run Db.twoBills = .ok (r, s) ∧
      (payOnce 2 12).handler.run s = .ok (r, t) ∧ (payOnce 1 11).id ≠ (payOnce 2 12).id ∧
      t.idempotency.find? ("vendor_bill.pay", "retry") = some ⟨200, r.body⟩ ∧
      (t.vendorBills.find? 12).map (·.amountPaidMinor) = some 0 := by
  let := canonicalFormats
  let both : Tx (Response × Response) := do
    let first ← (payOnce 1 11).handler
    let second ← (payOnce 2 12).handler
    pure (first, second)
  obtain ⟨⟨r, r'⟩, t, hrun, hP⟩ := Prog.run_of_check (p := both) (s := Db.twoBills)
    (P := fun r t => r.2 = r.1 ∧
      t.idempotency.find? ("vendor_bill.pay", "retry") = some ⟨200, r.1.body⟩ ∧
      (t.vendorBills.find? 12).map (·.amountPaidMinor) = some 0) (by decide +kernel)
  obtain ⟨a, s, h₁, h⟩ := Prog.run_bind_ok.mp hrun
  obtain ⟨b, u, h₂, h⟩ := Prog.run_bind_ok.mp h
  cases h
  obtain ⟨he, hstored, hpaid⟩ := of_decide_eq_true hP
  obtain rfl : r' = r := he
  exact ⟨r', s, t, h₁, h₂, by decide +kernel, hstored, hpaid⟩

end Noxara.Finance
