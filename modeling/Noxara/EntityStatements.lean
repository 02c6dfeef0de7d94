import Noxara.EliminatedSum

/-! The balance sheet of an entity: whether assets are liabilities and equity. Every account type of the chart of
accounts is looked up in two passes, and one of the six is in neither. -/
namespace Noxara.Finance

/-- A row of the profit and loss, as (revenue, expense). -/
def addPnlExact (acc : Int × Int) (r : TrialBalanceRow) : Int × Int :=
  match r.accountType with
  | .revenue => (acc.1 + (r.creditMinor - r.debitMinor), acc.2)
  | .expense => (acc.1, acc.2 + (r.debitMinor - r.creditMinor))
  | _ => acc

/-- `pnl_from_tb` with sums over exact integers. -/
def pnlExact (rows : List TrialBalanceRow) : PnLSummary :=
  let (revenue, expense) := rows.foldl addPnlExact (0, 0)
  ⟨revenue, expense, revenue - expense⟩

def addBsExact (acc : Int × Int × Int) (r : TrialBalanceRow) : Int × Int × Int :=
  let net := r.debitMinor - r.creditMinor
  match r.accountType with
  | .asset => (acc.1 + net, acc.2.1, acc.2.2)
  | .liability => (acc.1, acc.2.1 + -net, acc.2.2)
  | .equity => (acc.1, acc.2.1, acc.2.2 + -net)
  | _ => acc

/-- `bs_from_tb` with sums over exact integers. -/
def bsExact (rows : List TrialBalanceRow) : BsSummary :=
  let (assets, liabilities, equity) := rows.foldl addBsExact (0, 0, 0)
  ⟨assets, liabilities, equity + (pnlExact rows).netIncomeMinor⟩

/-- The words that hold the sums. -/
def BsSummary.wrapped (b : BsSummary) : BsSummary :=
  ⟨wrapI64 b.assetsMinor, wrapI64 b.liabilitiesMinor, wrapI64 b.equityMinor⟩

/-- What the rows of one account type are debited beyond what they are credited. -/
def netOf (type : AccountType) (rows : List TrialBalanceRow) : Int :=
  (rows.map fun r => if r.accountType = type then r.net else 0).sum

theorem netOf_cons (type : AccountType) (r : TrialBalanceRow) (rows : List TrialBalanceRow) :
    netOf type (r :: rows) = (if r.accountType = type then r.net else 0) + netOf type rows := List.sum_cons

/-- Every row has one of the six types. -/
theorem net_split (rows : List TrialBalanceRow) : (rows.map TrialBalanceRow.net).sum =
    netOf .asset rows + netOf .liability rows + netOf .equity rows + netOf .revenue rows + netOf .income rows +
      netOf .expense rows := by
  induction rows with
  | nil => rfl
  | cons r rows ih =>
    simp only [List.map_cons, List.sum_cons, netOf_cons, ih]
    cases r.accountType <;> simp <;> omega

theorem foldl_addPnlExact (rows : List TrialBalanceRow) (acc : Int × Int) :
    rows.foldl addPnlExact acc = (acc.1 - netOf .revenue rows, acc.2 + netOf .expense rows) := by
  induction rows generalizing acc with
  | nil => simp [netOf]
  | cons r rows ih =>
    rw [List.foldl_cons, ih, netOf_cons, netOf_cons]
    unfold addPnlExact TrialBalanceRow.net
    cases r.accountType <;> simp <;> omega

theorem foldl_addBsExact (rows : List TrialBalanceRow) (acc : Int × Int × Int) :
    rows.foldl addBsExact acc =
      (acc.1 + netOf .asset rows, acc.2.1 - netOf .liability rows, acc.2.2 - netOf .equity rows) := by
  induction rows generalizing acc with
  | nil => simp [netOf]
  | cons r rows ih =>
    rw [List.foldl_cons, ih, netOf_cons, netOf_cons, netOf_cons]
    unfold addBsExact TrialBalanceRow.net
    cases r.accountType <;> simp <;> omega

theorem bsExact_eq (rows : List TrialBalanceRow) : bsExact rows =
    ⟨netOf .asset rows, -netOf .liability rows,
      -netOf .equity rows + (-netOf .revenue rows - netOf .expense rows)⟩ := by
  simp [bsExact, pnlExact, foldl_addBsExact, foldl_addPnlExact]

theorem wrapI64_add_wrap (x y : Int) : wrapI64 (wrapI64 x + wrapI64 y) = wrapI64 (x + y) := by
  rw [wrapI64_add_left, Int.add_comm x, wrapI64_add_left, Int.add_comm]

theorem wrapI64_neg_wrap (x : Int) : wrapI64 (-wrapI64 x) = wrapI64 (-x) := by
  rw [wrapI64_eq_iff, show -wrapI64 x - -x = x - wrapI64 x by omega]
  exact modulus_dvd_sub_wrap x

theorem wrapI64_sub_wrap (x y : Int) : wrapI64 (wrapI64 x - wrapI64 y) = wrapI64 (x - y) := by
  rw [Int.sub_eq_add_neg, wrapI64_add_left, Int.add_comm, ← wrapI64_add_left, wrapI64_neg_wrap, wrapI64_add_left]
  congr 1
  omega

theorem foldl_addPnl (rows : List TrialBalanceRow) (acc : Int × Int) :
    rows.foldl addPnl (wrapI64 acc.1, wrapI64 acc.2) =
      (wrapI64 (rows.foldl addPnlExact acc).1, wrapI64 (rows.foldl addPnlExact acc).2) := by
  induction rows generalizing acc with
  | nil => rfl
  | cons r rows ih =>
    rw [List.foldl_cons, List.foldl_cons, ← ih]
    congr 1
    unfold addPnl addPnlExact
    cases r.accountType <;> simp only [wrapI64_add_wrap]

theorem foldl_addBs (rows : List TrialBalanceRow) (acc : Int × Int × Int) :
    rows.foldl addBs (wrapI64 acc.1, wrapI64 acc.2.1, wrapI64 acc.2.2) =
      (wrapI64 (rows.foldl addBsExact acc).1, wrapI64 (rows.foldl addBsExact acc).2.1,
        wrapI64 (rows.foldl addBsExact acc).2.2) := by
  induction rows generalizing acc with
  | nil => rfl
  | cons r rows ih =>
    rw [List.foldl_cons, List.foldl_cons, ← ih]
    congr 1
    unfold addBs addBsExact
    cases r.accountType <;> simp only [wrapI64_add_wrap, wrapI64_neg_wrap]

theorem pnlFromTb_netIncome (tb : TrialBalance) :
    (pnlFromTb tb).netIncomeMinor = wrapI64 (pnlExact tb.rows).netIncomeMinor := by
  have h := foldl_addPnl tb.rows (0, 0)
  have hzero : wrapI64 0 = 0 := rfl
  simp only [hzero] at h
  simp only [pnlFromTb, pnlExact, h, wrapI64_sub_wrap]

theorem bsFromTb_eq (tb : TrialBalance) : bsFromTb tb = (bsExact tb.rows).wrapped := by
  have h := foldl_addBs tb.rows (0, 0, 0)
  have hzero : wrapI64 0 = 0 := rfl
  simp only [hzero] at h
  simp only [bsFromTb, bsExact, BsSummary.wrapped, h, pnlFromTb_netIncome, wrapI64_add_wrap]

/-- Debits and credits agree, over exact integers. -/
def Balances (rows : List TrialBalanceRow) : Prop :=
  (rows.map (·.debitMinor)).sum = (rows.map (·.creditMinor)).sum

/-- Of a balanced trial balance assets are liabilities and equity if and only if its income rows have no net; what
the code returns are the words of these sums. -/
theorem accounting_equation_iff (tb : TrialBalance) (hbalances : Balances tb.rows) :
    ((bsExact tb.rows).assetsMinor = (bsExact tb.rows).liabilitiesMinor + (bsExact tb.rows).equityMinor ↔
      ((tb.rows.filter fun r => r.accountType = .income).map (·.debitMinor)).sum =
        ((tb.rows.filter fun r => r.accountType = .income).map (·.creditMinor)).sum) ∧
    bsFromTb tb = (bsExact tb.rows).wrapped := by
  refine ⟨?_, bsFromTb_eq tb⟩
  have hnet : (tb.rows.map TrialBalanceRow.net).sum = 0 := by
    have hsub := sum_map_sub (·.debitMinor) (·.creditMinor) tb.rows
    unfold Balances at hbalances
    rw [hbalances, Int.sub_self] at hsub
    exact hsub
  have hsplit := net_split tb.rows
  have hincome : netOf .income tb.rows =
      ((tb.rows.filter fun r => r.accountType = .income).map (·.debitMinor)).sum -
        ((tb.rows.filter fun r => r.accountType = .income).map (·.creditMinor)).sum := by
    rw [← sum_map_sub]
    unfold netOf
    induction tb.rows with
    | nil => rfl
    | cons r rows ih =>
      by_cases h : r.accountType = .income
      · simp only [List.map_cons, List.sum_cons, h, if_true, List.filter_cons, decide_true, ih]
        rfl
      · simpa [List.filter_cons, h] using ih
  simp only [bsExact_eq]
  omega

/-- A sale booked on an account of type income. -/
def incomeTb : TrialBalance :=
  .ofRows "USD" [⟨"1000", "Cash", .asset, 100, 0⟩, ⟨"4000", "Sales", .income, 0, 100⟩]

/-- The asset stands alone: neither pass takes the income. -/
theorem accounting_equation_income : incomeTb.balanced = true ∧ Balances incomeTb.rows ∧
    bsFromTb incomeTb = ⟨100, 0, 0⟩ ∧
    ¬(bsFromTb incomeTb).assetsMinor = (bsFromTb incomeTb).liabilitiesMinor + (bsFromTb incomeTb).equityMinor ∧
    ¬(bsExact incomeTb.rows).assetsMinor =
      (bsExact incomeTb.rows).liabilitiesMinor + (bsExact incomeTb.rows).equityMinor := by
  unfold Balances
  decide

theorem accounting_equation_revenue :
    let tb := TrialBalance.ofRows "USD" [⟨"1000", "Cash", .asset, 100, 0⟩, ⟨"4000", "Sales", .revenue, 0, 100⟩]
    (bsExact tb.rows).assetsMinor = (bsExact tb.rows).liabilitiesMinor + (bsExact tb.rows).equityMinor :=
  (accounting_equation_iff (.ofRows "USD"
    [⟨"1000", "Cash", .asset, 100, 0⟩, ⟨"4000", "Sales", .revenue, 0, 100⟩])
    rfl).1.mpr rfl

end Noxara.Finance
