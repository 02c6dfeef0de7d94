import Noxara.FinanceStatements

/-! Chart-of-accounts seeding, fiscal periods and journal posting. Invoice issue debits
receivables and credits revenue and tax; an allocated payment debits cash and credits
receivables, an overpayment customer credits; a credit note debits revenue and tax and
credits receivables. Every entry must balance. -/
namespace Noxara.Finance

open Transaction

namespace codes

def CASH := "1000"
def AR := "1100"
def CUSTOMER_CREDITS := "2200"
def TAX_PAYABLE := "2100"
def REVENUE := "4000"
def EXPENSE := "5000"
def WAGES_EXPENSE := "5100"
def PAYROLL_DEDUCTIONS := "2300"
def NET_PAY_CLEARING := "2400"
def INVENTORY := "1200"
def AP_VENDORS := "2000"
def COGS := "5200"
def DEPRECIATION_EXPENSE := "5300"
def ACCUMULATED_DEPRECIATION := "1300"
def IC_RECEIVABLE := "1500"
def IC_PAYABLE := "2500"
def IC_REVENUE := "4900"
def IC_EXPENSE := "5900"

end codes

def standardAccounts : List (String × String × AccountType) :=
  [(codes.CASH, "Cash", .asset),
    (codes.AR, "Accounts Receivable", .asset),
    (codes.TAX_PAYABLE, "Tax Payable", .liability),
    (codes.CUSTOMER_CREDITS, "Customer Credits", .liability),
    (codes.PAYROLL_DEDUCTIONS, "Payroll Deductions Payable", .liability),
    (codes.NET_PAY_CLEARING, "Net Pay Clearing", .liability),
    ("3000", "Retained Earnings", .equity),
    (codes.REVENUE, "Revenue", .revenue),
    (codes.EXPENSE, "Operating Expenses", .expense),
    (codes.WAGES_EXPENSE, "Wages Expense", .expense),
    (codes.INVENTORY, "Inventory", .asset),
    (codes.AP_VENDORS, "Accounts Payable — Vendors", .liability),
    (codes.COGS, "Cost of Goods Sold", .expense),
    (codes.DEPRECIATION_EXPENSE, "Depreciation Expense", .expense),
    (codes.ACCUMULATED_DEPRECIATION, "Accumulated Depreciation", .asset),
    (codes.IC_RECEIVABLE, "Intercompany Receivable", .asset),
    (codes.IC_PAYABLE, "Intercompany Payable", .liability),
    (codes.IC_REVENUE, "Intercompany Revenue", .revenue),
    (codes.IC_EXPENSE, "Intercompany Expense", .expense)]

/-- `INSERT .. ON CONFLICT (org_id, code) DO UPDATE`: the row is locked in both cases, and an
account that exists keeps its type and its activation. -/
def upsertAccount (a : String × String × AccountType) : Tx Unit :=
  Prog.execute (fun _ => [.account a.1]) (fun _ => .ok ()) fun v db =>
    { db with accounts :=
      if (v.accounts.find? a.1).isSome then db.accounts.modify a.1 fun r => { r with name := a.2.1 }
      else db.accounts.insert a.1 ⟨a.2.1, a.2.2, true⟩ }

def upsertAccounts : List (String × String × AccountType) → Tx Unit
  | [] => pure ()
  | a :: as => do
    upsertAccount a
    upsertAccounts as

def ensureLedgerAccounts : Tx Unit := upsertAccounts standardAccounts

theorem upsertAccounts_run (as : List (String × String × AccountType)) (s : Db) :
    ∃ accounts, (upsertAccounts as).run s = .ok ((), { s with accounts }) := by
  induction as generalizing s with
  | nil => exact ⟨s.accounts, rfl⟩
  | cons a as ih => exact ih _

theorem run_ensureLedgerAccounts_bind {β : Type} {g : Unit → Tx β} {s : Db} {r : β × Db}
    (h : (ensureLedgerAccounts >>= g).run s = .ok r) :
    ∃ accounts, (g ()).run { s with accounts } = .ok r := by
  obtain ⟨accounts, hrun⟩ := upsertAccounts_run standardAccounts s
  rw [Prog.run_bind, ensureLedgerAccounts, hrun] at h
  exact ⟨accounts, h⟩

theorem ensureLedgerAccounts_gated {β : Type} (f : Unit → Tx β) :
    (ensureLedgerAccounts >>= f).Gated (.account codes.CASH) := fun _ => List.mem_singleton.mpr rfl

structure LedgerLine where
  accountCode : String
  debitMinor : Int
  creditMinor : Int
  memo : Option String
  deriving DecidableEq

def LedgerLine.debit (accountCode : String) (amount : Int) (memo : Option String) : LedgerLine :=
  ⟨accountCode, amount, 0, memo⟩

def LedgerLine.credit (accountCode : String) (amount : Int) (memo : Option String) : LedgerLine :=
  ⟨accountCode, 0, amount, memo⟩

structure JournalDraft where
  memo : String
  sourceType : SourceType
  sourceId : Uuid
  currency : Currency
  lines : List LedgerLine
  entryDate : Option Date := none
  reversesEntryId : Option Uuid := none
  postedBy : Option Uuid := none
  entityId : Option Uuid := none

def addLine (acc : Int × Int) (l : LedgerLine) : Except MoneyError (Int × Int) := do
  let debit ← checked (acc.1 + l.debitMinor)
  let credit ← checked (acc.2 + l.creditMinor)
  if (l.debitMinor > 0 ∧ l.creditMinor > 0) ∨ (l.debitMinor = 0 ∧ l.creditMinor = 0) then
    .error .overflow
  else .ok (debit, credit)

def JournalDraft.assertBalanced (d : JournalDraft) : Except MoneyError Unit := do
  let (debit, credit) ← d.lines.foldlM addLine (0, 0)
  if debit ≠ credit then .error .overflow else .ok ()

def JournalDraft.balanced (d : JournalDraft) : Except MoneyError JournalDraft := do
  d.assertBalanced
  .ok d

theorem JournalDraft.balanced_ok {d j : JournalDraft} :
    d.balanced = .ok j ↔ d.assertBalanced = .ok () ∧ j = d := by
  simp only [balanced, bind_ok]
  exact ⟨fun ⟨_, hb, hj⟩ => ⟨hb, (Except.ok.inj hj).symm⟩, fun ⟨hb, hj⟩ => ⟨(), hb, hj ▸ rfl⟩⟩

variable [Formats]

def invoiceIssueEntry (invoiceId : Uuid) (currency : Currency) (netMinor taxMinor totalMinor : Int) :
    Except MoneyError JournalDraft :=
  JournalDraft.balanced
    { memo := s!"Invoice issue {Formats.uuidDisplay invoiceId}"
      sourceType := .invoiceIssue
      sourceId := invoiceId
      currency
      lines := [LedgerLine.debit codes.AR totalMinor (some "Accounts receivable"),
          LedgerLine.credit codes.REVENUE netMinor (some "Revenue"),
          LedgerLine.credit codes.TAX_PAYABLE taxMinor (some "Tax payable")].filter
        fun l => l.debitMinor > 0 ∨ l.creditMinor > 0 }

def paymentEntry (paymentId : Uuid) (currency : Currency) (allocatedMinor unappliedMinor : Int) :
    Except MoneyError JournalDraft := do
  let cash ← checked (allocatedMinor + unappliedMinor)
  JournalDraft.balanced
    { memo := s!"Payment {Formats.uuidDisplay paymentId}"
      sourceType := .payment
      sourceId := paymentId
      currency
      lines := [LedgerLine.debit codes.CASH cash (some "Cash received")] ++
        (if allocatedMinor > 0 then
          [LedgerLine.credit codes.AR allocatedMinor (some "AR settlement")] else []) ++
        (if unappliedMinor > 0 then
          [LedgerLine.credit codes.CUSTOMER_CREDITS unappliedMinor
            (some "Customer credit / overpayment")] else []) }

def creditNoteEntry (creditId : Uuid) (currency : Currency) (netMinor taxMinor totalMinor : Int) :
    Except MoneyError JournalDraft :=
  JournalDraft.balanced
    { memo := s!"Credit note {Formats.uuidDisplay creditId}"
      sourceType := .creditNote
      sourceId := creditId
      currency
      lines :=
        (if netMinor > 0 then
          [LedgerLine.debit codes.REVENUE netMinor (some "Revenue reversal")] else []) ++
        (if taxMinor > 0 then
          [LedgerLine.debit codes.TAX_PAYABLE taxMinor (some "Tax reversal")] else []) ++
        [LedgerLine.credit codes.AR totalMinor (some "AR credit")] }

/-- The error of a draft that does not balance, as the document handlers report it. -/
def journalError (x : Except MoneyError JournalDraft) : Except AppError JournalDraft :=
  x.mapError fun e => validation s!"journal: {e.display}"

def PeriodRow.Covers (p : PeriodRow) (d : Date) : Prop := p.startDate ≤ d ∧ d ≤ p.endDate

instance (p : PeriodRow) (d : Date) : Decidable (p.Covers d) := inferInstanceAs (Decidable (_ ∧ _))

def Db.coveringPeriods (db : Db) (d : Date) : List (Uuid × PeriodRow) :=
  db.periods.rows.filter fun r => r.2.Covers d

/-- One of the covering rows: the query has `LIMIT 1` and no order. -/
def findPeriodForDate (pick : Nat) (entryDate : Date) : Tx (Option (Uuid × PeriodRow)) :=
  Prog.query fun db =>
    (db.coveringPeriods entryDate)[pick % (db.coveringPeriods entryDate).length]?

def Db.CodeTaken (db : Db) (code : String) : Prop := ∃ r ∈ db.periods.rows, r.2.code = code

instance (db : Db) (code : String) : Decidable (db.CodeTaken code) := by
  unfold Db.CodeTaken
  infer_instance

def monthlyPeriod (id : Uuid) (entryDate : Date) : PeriodRow :=
  let code := s!"{zeroPad 4 entryDate.year}-{zeroPad 2 entryDate.month}"
  { publicId := (PublicId.mk .fiscalPeriod id).asStr
    code
    name := s!"{code} fiscal period"
    startDate := entryDate.firstOfMonth
    endDate := entryDate.lastOfMonth
    status := .open
    checklist := "\x7b\x7d"
    closedAt := none
    reopenedAt := none
    reopenReason := none }

/-- `ON CONFLICT (org_id, code) DO NOTHING`. -/
def insertMonthlyPeriod (id : Uuid) (entryDate : Date) : Tx Unit :=
  let row := monthlyPeriod id entryDate
  Prog.execute (fun v => if v.CodeTaken row.code then [] else [.periodCode row.code, .period id])
    (fun v => if v.CodeTaken row.code then .ok ()
      else ensure (v.periods.find? id = none) (uniqueViolation "finance_fiscal_period_pkey"))
    fun v db => if v.CodeTaken row.code then db else { db with periods := db.periods.insert id row }

/-- The second look-up, after the insert. -/
def refindPeriodForDate (ctx : RequestCtx) (entryDate : Date) : Tx (Uuid × PeriodRow) := do
  match ← findPeriodForDate (ctx.pick 1) entryDate with
  | some row => pure row
  | none => lift (.error (internal
      "no rows returned by a query that expected to return at least one row"))

/-- Look up the period covering `entryDate`, creating an open monthly period if missing. -/
def ensurePeriodForDate (ctx : RequestCtx) (entryDate : Date) : Tx (Uuid × PeriodRow) := do
  match ← findPeriodForDate (ctx.pick 0) entryDate with
  | some row => pure row
  | none => do
    insertMonthlyPeriod (ctx.fresh 1) entryDate
    refindPeriodForDate ctx entryDate

def assertPeriodAcceptsPosting (period : PeriodRow) : Except AppError Unit :=
  match period.status with
  | .open => .ok ()
  | .closed => .error (conflict
      s!"fiscal period {period.code} ({period.publicId}) is closed; reopen required before posting")
  | .locked => .error (conflict
      s!"fiscal period {period.code} ({period.publicId}) is locked; reopen required before posting")

omit [Formats] in
theorem assertPeriodAcceptsPosting_ok {period : PeriodRow} :
    assertPeriodAcceptsPosting period = .ok () ↔ period.status = .open := by
  unfold assertPeriodAcceptsPosting
  cases h : period.status <;> simp

def journalPublicId (entryId : Uuid) : String := s!"jrn_{Formats.uuidDisplay entryId}"

def JournalDraft.row (d : JournalDraft) (ctx : RequestCtx) (entryId periodId : Uuid) :
    JournalEntryRow where
  publicId := journalPublicId entryId
  entryDate := d.entryDate.getD ctx.today
  memo := d.memo
  sourceType := d.sourceType
  sourceId := d.sourceId
  currency := d.currency.code
  periodId
  reversesEntryId := d.reversesEntryId
  postedBy := d.postedBy
  entityId := d.entityId

def LedgerLine.row (l : LedgerLine) (entryId : Uuid) : JournalLineRow :=
  ⟨entryId, l.accountCode, l.debitMinor, l.creditMinor, l.memo⟩

/-- The lines of an entry, in the order they were written. -/
def Db.linesOf (db : Db) (entryId : Uuid) : List JournalLineRow :=
  db.journalLines.filter fun l => l.entryId = entryId

/-- What a line adds to an account, debits minus credits. -/
def JournalLineRow.netOn (code : String) (l : JournalLineRow) : Int :=
  if l.accountCode = code then l.debitMinor - l.creditMinor else 0

/-- One payroll entry per source. -/
def Db.PayrollFree (db : Db) (sourceType : SourceType) (sourceId : Uuid) : Prop :=
  sourceType = .payroll →
    ∀ r ∈ db.journalEntries.rows, r.2.sourceType = .payroll → r.2.sourceId ≠ sourceId

instance (db : Db) (sourceType : SourceType) (sourceId : Uuid) :
    Decidable (db.PayrollFree sourceType sourceId) := by
  unfold Db.PayrollFree
  infer_instance

def insertJournalEntry (id : Uuid) (row : JournalEntryRow) : Tx Unit :=
  Prog.execute
    (fun _ => .journalEntry id :: if row.sourceType = .payroll then [.payrollSource row.sourceId] else [])
    (fun v => do
      ensure (v.journalEntries.find? id = none) (uniqueViolation "finance_journal_entry_pkey")
      ensure (v.PayrollFree row.sourceType row.sourceId)
        (uniqueViolation "finance_journal_entry_org_source_payroll_uidx")
      ensure (∀ e, row.reversesEntryId = some e → (v.journalEntries.find? e).isSome)
        (databaseError "insert or update on table \"finance_journal_entry\" violates foreign key constraint \"finance_journal_entry_reverses_entry_id_fkey\"")
      ensure (∀ e, row.entityId = some e → (v.entities.find? e).isSome)
        (databaseError "insert or update on table \"finance_journal_entry\" violates foreign key constraint \"finance_journal_entry_entity_id_fkey\""))
    fun _ db => { db with journalEntries := db.journalEntries.insert id row }

/-- The check constraint of a journal line: exactly one side is positive. -/
def LedgerLine.OneSided (l : LedgerLine) : Prop :=
  (l.debitMinor > 0 ∧ l.creditMinor = 0) ∨ (l.creditMinor > 0 ∧ l.debitMinor = 0)

instance (l : LedgerLine) : Decidable l.OneSided := inferInstanceAs (Decidable (_ ∨ _))

def postLine (entryId : Uuid) (l : LedgerLine) : Tx Unit := do
  let acct ← Prog.query fun db => db.accounts.find? l.accountCode
  let acct ← lift (foundOr acct (validation s!"unknown account_code: {l.accountCode}"))
  lift (if acct.isActive then .ok () else .error (validation s!"account {l.accountCode} is inactive"))
  Prog.execute (fun _ => [])
    (fun _ => ensure l.OneSided (databaseError
      "new row for relation \"finance_journal_line\" violates check constraint \"finance_journal_line_check\""))
    fun _ db => { db with journalLines := db.journalLines ++ [l.row entryId] }

def postLines (entryId : Uuid) : List LedgerLine → Tx Unit
  | [] => pure ()
  | l :: ls => do
    postLine entryId l
    postLines entryId ls

def JournalDraft.date (d : JournalDraft) (ctx : RequestCtx) : Date := d.entryDate.getD ctx.today

/-- Post into the period that was read, if it is open. -/
def postIntoPeriod (ctx : RequestCtx) (draft : JournalDraft) (period : Uuid × PeriodRow) :
    Tx Uuid := do
  lift (assertPeriodAcceptsPosting period.2)
  insertJournalEntry (ctx.fresh 0) (draft.row ctx (ctx.fresh 0) period.1)
  postLines (ctx.fresh 0) draft.lines
  pure (ctx.fresh 0)

def postJournal (ctx : RequestCtx) (draft : JournalDraft) : Tx Uuid := do
  lift (draft.assertBalanced.mapError fun _ => validation "journal lines must balance")
  let period ← ensurePeriodForDate ctx (draft.date ctx)
  postIntoPeriod ctx draft period

omit [Formats] in
theorem exits_upsertAccounts (as : List (String × String × AccountType)) :
    (upsertAccounts as).Exits TxExit.IsError := by
  induction as with
  | nil => trivial
  | cons a as ih => exact (Prog.exits_execute fun _ _ h => by cases h).bind fun _ => ih

theorem exits_ensurePeriodForDate (ctx : RequestCtx) (d : Date) :
    (ensurePeriodForDate ctx d).Exits TxExit.IsError := by
  refine (Prog.exits_query _).bind fun found => ?_
  cases found with
  | some row => trivial
  | none =>
    refine (Prog.exits_execute fun v _ h => ?_).bind fun _ => (Prog.exits_query _).bind fun row => ?_
    · by_cases hc : v.CodeTaken (monthlyPeriod (ctx.fresh 1) d).code
      · rw [if_pos hc] at h
        cases h
      · rw [if_neg hc] at h
        exact ensure_isError h
    · cases row with
      | some row => trivial
      | none => exact exits_lift _

omit [Formats] in
theorem exits_postLines (entryId : Uuid) (ls : List LedgerLine) :
    (postLines entryId ls).Exits TxExit.IsError := by
  induction ls with
  | nil => trivial
  | cons l ls ih =>
    refine Prog.Exits.bind ?_ fun _ => ih
    refine (Prog.exits_query _).bind fun _ => (exits_lift _).bind fun _ => (exits_lift _).bind fun _ => ?_
    exact Prog.exits_execute fun _ _ h => ensure_isError h

/-- A posting that fails fails with an error. -/
theorem exits_postJournal (ctx : RequestCtx) (draft : JournalDraft) :
    (postJournal ctx draft).Exits TxExit.IsError := by
  refine (exits_lift _).bind fun _ => (exits_ensurePeriodForDate _ _).bind fun _ => ?_
  refine (exits_lift _).bind fun _ => Prog.Exits.bind ?_ fun _ => ?_
  · refine Prog.exits_execute fun v e h => ?_
    exact ensure_bind_isError (fun _ => ensure_bind_isError fun _ => ensure_bind_isError fun _ =>
      ensure_isError) h
  · exact (exits_postLines _ _).bind fun _ => trivial

omit [Formats] in
theorem find_period_covers {db : Db} {d : Date} {n : Nat} {row : Uuid × PeriodRow}
    (h : (db.coveringPeriods d)[n]? = some row) :
    db.periods.find? row.1 = some row.2 ∧ row.2.Covers d := by
  have hm := List.mem_of_getElem? h
  simp only [Db.coveringPeriods, List.mem_filter, decide_eq_true_eq] at hm
  exact ⟨Table.find?_eq_some.mpr hm.1, hm.2⟩

/-- The period found or created covers the date and is in the table; nothing else changes. -/
theorem ensurePeriodForDate_ok {ctx : RequestCtx} {d : Date} {s t : Db} {row : Uuid × PeriodRow}
    (h : (ensurePeriodForDate ctx d).run s = .ok (row, t)) :
    ∃ periods, t = { s with periods } ∧ periods.find? row.1 = some row.2 ∧ row.2.Covers d := by
  simp only [ensurePeriodForDate, findPeriodForDate, Prog.run_query_bind] at h
  split at h
  · next found hf =>
    cases h
    exact ⟨s.periods, rfl, find_period_covers hf⟩
  · obtain ⟨_, h⟩ := Prog.run_execute_bind_ok.mp h
    rw [refindPeriodForDate, findPeriodForDate, Prog.run_query_bind] at h
    split at h
    · next found hf =>
      cases h
      split_ifs at hf ⊢
      · exact ⟨s.periods, rfl, find_period_covers hf⟩
      · exact ⟨_, rfl, find_period_covers hf⟩
    · simp [lift, Prog.ofExcept, Except.mapError] at h

omit [Formats] in
theorem postLines_ok {entryId : Uuid} {ls : List LedgerLine} {s t : Db}
    (h : (postLines entryId ls).run s = .ok ((), t)) :
    t = { s with journalLines := s.journalLines ++ ls.map (·.row entryId) } ∧
      ∀ l ∈ ls, l.OneSided := by
  induction ls generalizing s with
  | nil =>
    cases h
    simp
  | cons l ls ih =>
    obtain ⟨_, s', hl, hr⟩ := Prog.run_bind_ok.mp h
    simp only [postLine, Prog.run_query_bind, run_lift_bind_ok, Prog.run_execute_ok, ensure_ok] at hl
    obtain ⟨_, _, _, _, hone, hs⟩ := hl
    obtain ⟨ht, hls⟩ := ih hr
    cases hs
    refine ⟨by simp [ht], fun x hx => ?_⟩
    rcases List.mem_cons.mp hx with rfl | hx
    · exact hone
    · exact hls x hx

/-- An accepted posting: a balanced draft became one entry with its lines, in an open period
that covers its date. -/
structure Posted (ctx : RequestCtx) (draft : JournalDraft) (s t : Db) : Prop where
  balanced : draft.assertBalanced = .ok ()
  oneSided : ∀ l ∈ draft.lines, l.OneSided
  reverses : ∀ e, draft.reversesEntryId = some e → (s.journalEntries.find? e).isSome
  unused : s.journalEntries.find? (ctx.fresh 0) = none
  stored : ∃ periods pid p, periods.find? pid = some p ∧ p.status = .open ∧
    p.Covers (draft.date ctx) ∧
    t = { s with
      periods
      journalEntries := s.journalEntries.insert (ctx.fresh 0) (draft.row ctx (ctx.fresh 0) pid)
      journalLines := s.journalLines ++ draft.lines.map (·.row (ctx.fresh 0)) }

theorem Posted.invoices {ctx : RequestCtx} {draft : JournalDraft} {s t : Db}
    (h : Posted ctx draft s t) : t.invoices = s.invoices := by
  obtain ⟨_, _, _, _, _, _, rfl⟩ := h.stored
  rfl

theorem Posted.adds {ctx : RequestCtx} {draft : JournalDraft} {s t : Db} (h : Posted ctx draft s t) :
    ∃ entry lines, t.journalEntries.rows = s.journalEntries.rows ++ [(ctx.fresh 0, entry)] ∧
      entry.sourceType = draft.sourceType ∧ entry.sourceId = draft.sourceId ∧
      t.journalLines = s.journalLines ++ lines ∧ ∀ l ∈ lines, l.entryId = ctx.fresh 0 := by
  obtain ⟨_, pid, _, _, _, _, rfl⟩ := h.stored
  refine ⟨draft.row ctx (ctx.fresh 0) pid, _, Table.rows_insert h.unused _, rfl, rfl, rfl, ?_⟩
  intro l hl
  obtain ⟨x, _, rfl⟩ := List.mem_map.mp hl
  rfl

theorem Posted.documents {ctx : RequestCtx} {draft : JournalDraft} {s t : Db}
    (h : Posted ctx draft s t) : t.payments = s.payments ∧ t.allocations = s.allocations ∧
      t.idempotency = s.idempotency ∧ t.creditNotes = s.creditNotes := by
  obtain ⟨_, _, _, _, _, _, rfl⟩ := h.stored
  exact ⟨rfl, rfl, rfl, rfl⟩

theorem postJournal_ok {ctx : RequestCtx} {draft : JournalDraft} {s t : Db} {id : Uuid}
    (h : (postJournal ctx draft).run s = .ok (id, t)) :
    id = ctx.fresh 0 ∧ Posted ctx draft s t := by
  simp only [postJournal, run_lift_bind_ok, mapError_ok] at h
  obtain ⟨_, hbal, h⟩ := h
  obtain ⟨period, s₁, hp, h⟩ := Prog.run_bind_ok.mp h
  obtain ⟨periods, rfl, hfind, hcov⟩ := ensurePeriodForDate_ok hp
  obtain ⟨_, hopen, h⟩ := run_lift_bind_ok.mp h
  simp only [insertJournalEntry, Prog.run_execute_bind_ok, ensure_bind_ok, ensure_ok] at h
  obtain ⟨⟨hfree, _, hrev, _⟩, h⟩ := h
  obtain ⟨_, s₂, hl, h⟩ := Prog.run_bind_ok.mp h
  obtain ⟨rfl, hone⟩ := postLines_ok hl
  cases h
  exact ⟨rfl, hbal, hone, hrev, hfree,
    periods, period.1, period.2, hfind, assertPeriodAcceptsPosting_ok.mp hopen, hcov, rfl⟩

/-- One entity with one entry, over a dollar of cash revenue. -/
def Db.oneEntry : Db :=
  { Db.empty with
    entities := Table.empty.insert 61 ⟨(PublicId.mk .financeEntity 61).asStr, "HQ", true⟩
    accounts := (Table.empty.insert codes.CASH ⟨"Cash", .asset, true⟩).insert codes.REVENUE
      ⟨"Revenue", .revenue, true⟩
    periods := Table.empty.insert 51 (monthlyPeriod 51 (RequestCtx.nth 0).today)
    journalEntries := Table.empty.insert 41
      { publicId := journalPublicId 41
        entryDate := (RequestCtx.nth 0).today
        memo := "Cash sale"
        sourceType := .manual
        sourceId := 42
        currency := "USD"
        periodId := 51
        reversesEntryId := none
        postedBy := some 1
        entityId := some 61 }
    journalLines := [⟨41, codes.CASH, 100, 0, none⟩, ⟨41, codes.REVENUE, 0, 100, none⟩] }

end Noxara.Finance
