import Noxara.HandlerEffects

/-! The settlement of an invoice. An issued invoice that is not void represents a receivable:
a total of which part is settled, by payments or by credits, and the rest is outstanding. -/
namespace Noxara.Finance

structure Receivable where
  total : Int
  settled : Int
  within : settled ≤ total

namespace Receivable

def outstanding (x : Receivable) : Int := x.total - x.settled

theorem outstanding_nonneg (x : Receivable) : 0 ≤ x.outstanding := by
  have := x.within
  unfold outstanding
  omega

def settle (x : Receivable) (amount : Int) (h : amount ≤ x.outstanding) : Receivable :=
  ⟨x.total, x.settled + amount, by unfold outstanding at h; omega⟩

theorem outstanding_settle (x : Receivable) {amount : Int} (h : amount ≤ x.outstanding) :
    (x.settle amount h).outstanding = x.outstanding - amount := by
  simp only [outstanding, settle]
  omega

end Receivable

/-- The row is in the state that the receivable says. -/
structure InvoiceRow.Represents (r : InvoiceRow) (x : Receivable) : Prop where
  total : r.totalMinor = x.total
  settled : r.amountPaidMinor + r.amountCreditedMinor = x.settled
  balance : r.balanceMinor = x.outstanding
  paid : r.status = .paid ↔ x.outstanding = 0

/-- `balance_and_status` of amounts within the total: the rest, and paid when nothing is left. -/
theorem balanceAndStatus_eq {total paid credited : Int} (status : InvoiceStatus)
    (h : paid + credited ≤ total) :
    (balanceAndStatus total paid credited status).1 = total - paid - credited ∧
      ((balanceAndStatus total paid credited status).2 = .paid ↔ total - paid - credited = 0) := by
  simp only [balanceAndStatus]
  refine ⟨by omega, ?_⟩
  split_ifs with h₀ h₁
  · exact ⟨fun _ => by omega, fun _ => rfl⟩
  · exact ⟨nofun, fun _ => by omega⟩
  · cases status <;> simp <;> omega

theorem balanceAndStatus_open {total paid credited : Int} {status : InvoiceStatus} :
    (balanceAndStatus total paid credited status).2 ≠ .draft ∧
      (balanceAndStatus total paid credited status).2 ≠ .void := by
  simp only [balanceAndStatus]
  split_ifs
  · simp
  · simp
  · cases status <;> simp

theorem InvoiceRow.Represents.pay {r : InvoiceRow} {x : Receivable} (h : r.Represents x)
    {amount : Int} (ha : amount ≤ x.outstanding) (now : Timestamp) :
    (r.pay now amount r).Represents (x.settle amount ha) := by
  have hw := (x.settle amount ha).within
  have ht := h.total
  have hs := h.settled
  simp only [Receivable.settle] at hw
  obtain ⟨hb, hp⟩ := balanceAndStatus_eq r.status
    (show r.amountPaidMinor + amount + r.amountCreditedMinor ≤ r.totalMinor by omega)
  have hout : r.totalMinor - (r.amountPaidMinor + amount) - r.amountCreditedMinor =
      (x.settle amount ha).outstanding := by
    simp only [Receivable.outstanding, Receivable.settle]
    omega
  exact ⟨ht, by simp only [InvoiceRow.pay, Receivable.settle]; omega, hb.trans hout, hout ▸ hp⟩

theorem InvoiceRow.Represents.credit {r : InvoiceRow} {x : Receivable} (h : r.Represents x)
    {amount : Int} (ha : amount ≤ x.outstanding) (now : Timestamp) :
    (r.credit now amount r).Represents (x.settle amount ha) := by
  have hw := (x.settle amount ha).within
  have ht := h.total
  have hs := h.settled
  simp only [Receivable.settle] at hw
  obtain ⟨hb, hp⟩ := balanceAndStatus_eq r.status
    (show r.amountPaidMinor + (r.amountCreditedMinor + amount) ≤ r.totalMinor by omega)
  have hout : r.totalMinor - r.amountPaidMinor - (r.amountCreditedMinor + amount) =
      (x.settle amount ha).outstanding := by
    simp only [Receivable.outstanding, Receivable.settle]
    omega
  exact ⟨ht, by simp only [InvoiceRow.credit, Receivable.settle]; omega, hb.trans hout, hout ▸ hp⟩

theorem InvoiceRow.Represents.markSent {r : InvoiceRow} {x : Receivable} (h : r.Represents x)
    (hs : r.status ≠ .paid) (now : Timestamp) (url : String) : (r.markSent now url).Represents x :=
  ⟨h.total, h.settled, h.balance, by
    have hx : x.outstanding ≠ 0 := fun h0 => hs (h.paid.mpr h0)
    simp [InvoiceRow.markSent, hx]⟩

theorem IssueInvoiceRequest.represents (body : IssueInvoiceRequest) (ctx : RequestCtx)
    (number : String) {doc : DocumentTotals} (base : Int) (issueDate fxDate : Date)
    (dueDate : Option Date) {r : InvoiceRow} (hp : r.amountPaidMinor = 0)
    (hc : r.amountCreditedMinor = 0) (ht : 0 < doc.totalMinor) :
    (body.apply ctx number doc base issueDate fxDate dueDate r).Represents
      ⟨doc.totalMinor, 0, Int.le_of_lt ht⟩ where
  total := rfl
  settled := by simp [apply, hp, hc]
  balance := by simp [apply, Receivable.outstanding]
  paid := by
    simp only [apply, Receivable.outstanding, reduceCtorEq, false_iff]
    omega

/-- What the row says agrees with its status. -/
def InvoiceRow.Consistent (r : InvoiceRow) : Prop :=
  match r.status with
  | .draft => r.amountPaidMinor = 0 ∧ r.amountCreditedMinor = 0 ∧ r.balanceMinor = 0
  | .void => r.balanceMinor = 0
  | _ => ∃ x, r.Represents x

theorem InvoiceRow.consistent_open {r : InvoiceRow} (hd : r.status ≠ .draft) (hv : r.status ≠ .void) :
    r.Consistent ↔ ∃ x, r.Represents x := by
  unfold Consistent
  cases h : r.status <;> simp_all

/-- The amount an open invoice owes, over all of them the balance of receivables. -/
def InvoiceRow.openBalance (r : InvoiceRow) : Int :=
  if r.status = .draft then 0 else r.balanceMinor

theorem InvoiceRow.openBalance_issued {r : InvoiceRow} (h : r.status ≠ .draft) :
    r.openBalance = r.balanceMinor := if_neg h

theorem InvoiceRow.pay_status (r : InvoiceRow) (now : Timestamp) (amount : Int) :
    (r.pay now amount r).status ≠ .draft ∧ (r.pay now amount r).status ≠ .void := balanceAndStatus_open

theorem InvoiceRow.credit_status (r : InvoiceRow) (now : Timestamp) (amount : Int) :
    (r.credit now amount r).status ≠ .draft ∧ (r.credit now amount r).status ≠ .void :=
  balanceAndStatus_open

theorem InvoiceRow.Consistent.pay {r : InvoiceRow} (h : r.Consistent) (hd : r.status ≠ .draft)
    (hv : r.status ≠ .void) {amount : Int} (ha : amount ≤ r.balanceMinor) (now : Timestamp) :
    (r.pay now amount r).Consistent ∧ (r.pay now amount r).openBalance = r.openBalance - amount := by
  obtain ⟨x, hx⟩ := (consistent_open hd hv).mp h
  have ha : amount ≤ x.outstanding := hx.balance ▸ ha
  have hp := hx.pay ha now
  obtain ⟨hd', hv'⟩ := r.pay_status now amount
  refine ⟨(consistent_open hd' hv').mpr ⟨_, hp⟩, ?_⟩
  rw [openBalance_issued hd, openBalance_issued hd', hp.balance, x.outstanding_settle ha, hx.balance]

theorem InvoiceRow.Consistent.credit {r : InvoiceRow} (h : r.Consistent) (hd : r.status ≠ .draft)
    (hv : r.status ≠ .void) {amount : Int} (ha : amount ≤ r.balanceMinor) (now : Timestamp) :
    (r.credit now amount r).Consistent ∧
      (r.credit now amount r).openBalance = r.openBalance - amount := by
  obtain ⟨x, hx⟩ := (consistent_open hd hv).mp h
  have ha : amount ≤ x.outstanding := hx.balance ▸ ha
  have hp := hx.credit ha now
  obtain ⟨hd', hv'⟩ := r.credit_status now amount
  refine ⟨(consistent_open hd' hv').mpr ⟨_, hp⟩, ?_⟩
  rw [openBalance_issued hd, openBalance_issued hd', hp.balance, x.outstanding_settle ha, hx.balance]

end Noxara.Finance
