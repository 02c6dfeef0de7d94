import Noxara.JournalNets
import Noxara.LedgerGate
import Noxara.TransactionGate

/-! Expenses: an approval posts the expense at once, a rejection only records who decided. Every decider locks the
accounts before it reads the expense, so the first of concurrent decisions is the only one. -/
namespace Noxara.Finance

open Transaction

def ExpenseRow.dto (x : ExpenseRow) (db : Db) : ExpenseDto where
  id := x.publicId
  status := x.status
  currency := x.currency
  amountMinor := x.amountMinor
  description := x.description
  categoryCode := x.categoryId.bind fun c => (db.expenseCategories.find? c).map (·.code)
  receiptUrl := x.receiptUrl
  incurredAt := x.incurredAt
  createdAt := x.createdAt
  approvalId := x.approvalId

def fetchExpense (id : Uuid) : Tx ExpenseRow := do
  let row ← Prog.query (·.expenses.find? id)
  lift (foundOr row (notFound "expense"))

def updateExpense (id : Uuid) (f : ExpenseRow → ExpenseRow) : Tx Unit :=
  Prog.execute (fun v => if (v.expenses.find? id).isSome then [.expense id] else [])
    (fun _ => .ok ())
    fun _ db => { db with expenses := db.expenses.modify id f }

section Handlers
variable [Formats]

/-- Dr Operating Expenses, Cr Cash. -/
def expenseEntry (expenseId : Uuid) (currency : Currency) (amountMinor : Int) :
    Except MoneyError JournalDraft :=
  JournalDraft.balanced
    { memo := s!"Expense {Formats.uuidDisplay expenseId}"
      sourceType := .expense
      sourceId := expenseId
      currency
      lines := [LedgerLine.debit codes.EXPENSE amountMinor (some "Expense"),
        LedgerLine.credit codes.CASH amountMinor (some "Cash")] }

def ExpenseRow.markPosted (now : Timestamp) (x : ExpenseRow) : ExpenseRow :=
  { x with status := .posted, updatedAt := now }

def postExpenseJournal (ctx : RequestCtx) (expenseId : Uuid) (currency : Currency)
    (amountMinor : Int) : Tx Unit := do
  let journal ← lift (journalError (expenseEntry expenseId currency amountMinor))
  let _ ← postJournal ctx journal
  updateExpense expenseId (ExpenseRow.markPosted ctx.now)

structure DecideExpenseRequest where
  approve : Bool
  note : Option String := none

def ExpenseRow.decide (ctx : RequestCtx) (status : ExpenseStatus) (note : Option String)
    (x : ExpenseRow) : ExpenseRow :=
  { x with
    status
    decidedBy := some ctx.actorUserId
    decidedAt := some ctx.now
    decisionNote := note
    updatedAt := ctx.now }

def approveExpense (ctx : RequestCtx) (expenseId : Uuid) (row : ExpenseRow)
    (note : Option String) : Tx Unit := do
  updateExpense expenseId (ExpenseRow.decide ctx .approved note)
  let currency ← lift (parseCurrency "currency" row.currency)
  postExpenseJournal ctx expenseId currency row.amountMinor

def decideExpense (ctx : RequestCtx) (id : String) (body : DecideExpenseRequest) : Tx Response := do
  let expenseId ← lift (parsePublicId .expense id)
  lift (ctx.authorize .expenseApprove)
  ensureLedgerAccounts
  let row ← fetchExpense expenseId
  lift (ctx.authorizeOwner .expenseApprove row.ownerUserId)
  Prog.require (row.status = .pendingApproval)
    (.error (conflict s!"expense status {row.status.asStr} is not pending_approval"))
  if body.approve then approveExpense ctx expenseId row body.note
  else updateExpense expenseId (ExpenseRow.decide ctx .rejected body.note)
  let dto ← Prog.query fun db => (db.expenses.find? expenseId).map (·.dto db)
  let dto ← lift (foundOr dto (notFound "expense"))
  pure ⟨200, .expense dto⟩

theorem decideExpense_gated (ctx : RequestCtx) (id : String) (body : DecideExpenseRequest) :
    (decideExpense ctx id body).Gated (.account codes.CASH) := by
  unfold decideExpense
  refine gated_lift_bind fun _ _ => ?_
  refine gated_lift_bind fun _ _ => ?_
  exact ensureLedgerAccounts_gated _

def Decided (ctx : RequestCtx) (expenseId : Uuid) (note : Option String) (s t : Db) : Prop :=
  ∃ row, s.expenses.find? expenseId = some row ∧ row.status = .pendingApproval ∧
    ((∃ currency journal s',
        expenseEntry expenseId currency row.amountMinor = .ok journal ∧
        Posted ctx journal
          { s with expenses := s.expenses.modify expenseId (ExpenseRow.decide ctx .approved note) } s' ∧
        t = { s' with expenses := s'.expenses.modify expenseId (ExpenseRow.markPosted ctx.now) }) ∨
      t = { s with expenses := s.expenses.modify expenseId (ExpenseRow.decide ctx .rejected note) })

theorem decideExpense_ok {ctx : RequestCtx} {id : String} {body : DecideExpenseRequest} {s t : Db}
    {r : Response} (h : (decideExpense ctx id body).run s = .ok (r, t)) :
    ∃ expenseId accounts, parsePublicId .expense id = .ok expenseId ∧
      Decided ctx expenseId body.note { s with accounts } t := by
  simp only [decideExpense, run_lift_bind_ok] at h
  obtain ⟨expenseId, hid, _, _, h⟩ := h
  obtain ⟨accounts, h⟩ := run_ensureLedgerAccounts_bind h
  simp only [fetchExpense, bind_assoc, Prog.run_query_bind, run_lift_bind_ok, foundOr_ok,
    Prog.run_require_bind_ok] at h
  obtain ⟨row, hrow, _, _, hpending, h⟩ := h
  refine ⟨expenseId, accounts, hid, row, hrow, hpending, ?_⟩
  split_ifs at h
  · obtain ⟨_, u, ha, h⟩ := Prog.run_bind_ok.mp h
    simp only [approveExpense, updateExpense, postExpenseJournal, journalError,
      Prog.run_execute_bind_ok, run_lift_bind_ok, mapError_ok] at ha
    obtain ⟨_, currency, _, journal, hj, ha⟩ := ha
    obtain ⟨_, s', hp, ha⟩ := Prog.run_bind_ok.mp ha
    have hu := congrArg Prod.snd (Prog.run_execute_ok.mp ha).2
    simp only [Prog.run_query_bind, run_lift_bind_ok] at h
    obtain ⟨_, _, h⟩ := h
    cases h
    exact .inl ⟨currency, journal, s', hj, (postJournal_ok hp).2, hu⟩
  · simp only [updateExpense, Prog.run_execute_bind_ok, Prog.run_query_bind, run_lift_bind_ok] at h
    obtain ⟨_, _, _, h⟩ := h
    cases h
    exact .inr rfl

end Handlers

def fromExpense (expenseId : Uuid) (sourceType : SourceType) (sourceId : Uuid) : Bool :=
  sourceType = .expense ∧ sourceId = expenseId

/-- How an expense that once was pending stands: undecided, rejected, or posted by one entry. -/
inductive ExpenseState (status : ExpenseStatus) (posted : Nat) : Prop
  | pending (status_eq : status = .pendingApproval) (posted_eq : posted = 0)
  | rejected (status_eq : status = .rejected) (posted_eq : posted = 0)
  | posted (status_eq : status = .posted) (posted_eq : posted = 1)

/-- The number of entries that post the expense. -/
def Db.timesPosted (db : Db) (expenseId : Uuid) : Nat := (db.entriesFrom (fromExpense expenseId)).length

def Db.ExpenseStands (db : Db) (expenseId : Uuid) : Prop :=
  ∃ x, db.expenses.find? expenseId = some x ∧ ExpenseState x.status (db.timesPosted expenseId)

variable [Formats]

theorem expenseEntry_source {id : Uuid} {currency : Currency} {amount : Int} {j : JournalDraft}
    (h : expenseEntry id currency amount = .ok j) : j.sourceType = .expense ∧ j.sourceId = id := by
  obtain ⟨_, rfl⟩ := JournalDraft.balanced_ok.mp h
  exact ⟨rfl, rfl⟩

theorem Posted.timesPosted {ctx : RequestCtx} {draft : JournalDraft} {s t : Db}
    (h : Posted ctx draft s t) (hs : draft.sourceType = .expense) (expenseId : Uuid) :
    t.timesPosted expenseId =
      s.timesPosted expenseId + if draft.sourceId = expenseId then 1 else 0 := by
  obtain ⟨row, hrows⟩ := h.entriesFrom (fromExpense expenseId)
  rw [Db.timesPosted, hrows, List.length_append]
  by_cases hid : draft.sourceId = expenseId <;> simp [fromExpense, hs, hid, Db.timesPosted]

theorem Posted.expenses {ctx : RequestCtx} {draft : JournalDraft} {s t : Db}
    (h : Posted ctx draft s t) : t.expenses = s.expenses := by
  obtain ⟨_, _, _, _, _, _, rfl⟩ := h.stored
  rfl

omit [Formats] in
theorem Db.ExpenseStands.modify_ne {s t : Db} {e d : Uuid} {f : ExpenseRow → ExpenseRow}
    (h : s.ExpenseStands e) (hne : e ≠ d) (hx : t.expenses = s.expenses.modify d f)
    (hn : t.timesPosted e = s.timesPosted e) : t.ExpenseStands e := by
  obtain ⟨x, hfind, hstate⟩ := h
  refine ⟨x, ?_, hn ▸ hstate⟩
  rw [hx, Table.find?_modify_ne _ _ hne]
  exact hfind

/-- A decision on any expense, on the store it finds, leaves each expense in one of the three
states. -/
theorem Decided.stands {ctx : RequestCtx} {d e : Uuid} {note : Option String} {s t : Db}
    (h : Decided ctx d note s t) (hs : s.ExpenseStands e) : t.ExpenseStands e := by
  obtain ⟨row, hrow, hpending, ⟨currency, journal, s', hj, hp, rfl⟩ | rfl⟩ := h
  · obtain ⟨hsource, hid⟩ := expenseEntry_source hj
    have hcount := hp.timesPosted hsource e
    rw [hid] at hcount
    have hmods : s'.expenses.modify d (ExpenseRow.markPosted ctx.now) =
        (s.expenses.modify d (ExpenseRow.decide ctx .approved note)).modify d
          (ExpenseRow.markPosted ctx.now) := by
      rw [hp.expenses]
    by_cases he : e = d
    · subst he
      obtain ⟨x, hx, hstate⟩ := hs
      cases hrow.symm.trans hx
      have hzero : s.timesPosted e = 0 := by
        cases hstate with
        | pending _ h0 => exact h0
        | rejected hst _ => exact absurd (hpending.symm.trans hst) nofun
        | posted hst _ => exact absurd (hpending.symm.trans hst) nofun
      refine ⟨(row.decide ctx .approved note).markPosted ctx.now, ?_, .posted rfl ?_⟩
      · rw [hmods, Table.find?_modify_self, Table.find?_modify_self, hrow]
        rfl
      · rw [if_pos rfl] at hcount
        have h1 : s'.timesPosted e = s.timesPosted e + 1 := hcount
        rw [hzero] at h1
        exact h1
    · rw [if_neg (Ne.symm he), add_zero] at hcount
      obtain ⟨x, hx, hstate⟩ := hs
      have hkept : s'.timesPosted e = s.timesPosted e := hcount
      refine ⟨x, ?_, ?_⟩
      · rw [hmods, Table.find?_modify_ne _ _ he, Table.find?_modify_ne _ _ he, hx]
      · rw [← hkept] at hstate
        exact hstate
  · by_cases he : e = d
    · subst he
      obtain ⟨x, hx, hstate⟩ := hs
      cases hrow.symm.trans hx
      refine ⟨row.decide ctx .rejected note, ?_, .rejected rfl ?_⟩
      · rw [Table.find?_modify_self, hrow]
        rfl
      cases hstate with
      | pending _ h0 => exact h0
      | rejected _ h0 => exact h0
      | posted hst _ => exact absurd (hpending.symm.trans hst) nofun
    · exact hs.modify_ne he rfl rfl

structure DecideExpenseCall where
  ctx : RequestCtx
  id : String
  body : DecideExpenseRequest

def DecideExpenseCall.run (c : DecideExpenseCall) : Tx Response := decideExpense c.ctx c.id c.body

/-- In every interleaving of decisions on an expense that was pending and unposted, it is posted
at most once, exactly once when its status says so, and not at all when it is rejected. -/
theorem expense_posted_once {ι : Type} [DecidableEq ι] {calls : ι → DecideExpenseCall} {db : Db}
    {c : Config ι Db RowKey TxExit Response} {expenseId : Uuid} {x : ExpenseRow}
    (hx : db.expenses.find? expenseId = some x) (hpending : x.status = .pendingApproval)
    (hnone : db.timesPosted expenseId = 0) (h : Reachable (fun i => (calls i).run) db c) :
    ∃ y, c.db.expenses.find? expenseId = some y ∧ c.db.timesPosted expenseId ≤ 1 ∧
      (c.db.timesPosted expenseId = 1 ↔ y.status = .posted) ∧
      (y.status = .rejected → c.db.timesPosted expenseId = 0) := by
  have hstands : c.db.ExpenseStands expenseId := by
    refine h.gated_invariant (I := fun s => s.ExpenseStands expenseId) (g := ledgerGate)
      (fun i => decideExpense_gated _ _ _) ⟨x, hx, .pending hpending hnone⟩ fun i s a t hs hr => ?_
    obtain ⟨d, accounts, _, hd⟩ := decideExpense_ok hr
    exact hd.stands (s := { s with accounts }) hs
  obtain ⟨y, hy, hstate⟩ := hstands
  refine ⟨y, hy, ?_⟩
  cases hstate with
  | pending hst h0 => simp [hst, h0]
  | rejected hst h0 => simp [hst, h0]
  | posted hst h1 => simp [hst, h1]

def Db.oneExpense : Db :=
  { Db.empty with
    expenses := Table.empty.insert 71
      { publicId := (PublicId.mk .expense 71).asStr
        ownerUserId := 1
        categoryId := none
        status := .pendingApproval
        currency := "USD"
        amountMinor := 100
        description := "Taxi"
        receiptUrl := none
        incurredAt := (RequestCtx.nth 0).today
        decidedBy := none
        decidedAt := none
        decisionNote := none
        approvalId := none
        createdAt := 0
        updatedAt := 0 } }

def approveAndReject : Fin 2 → DecideExpenseCall :=
  sideBySide ⟨.nth 1, (PublicId.mk .expense 71).asStr, { approve := true }⟩
    ⟨.nth 2, (PublicId.mk .expense 71).asStr, { approve := false }⟩

omit [Formats] in
theorem expense_posted_once_approved :
    letI := canonicalFormats
    ∃ c, Reachable (fun i => (approveAndReject i).run) Db.oneExpense c ∧
      c.log.map (fun l => (l.1, l.2.toBool)) = [(0, true), (1, false)] ∧
      ∃ y, c.db.expenses.find? 71 = some y ∧ c.db.timesPosted 71 ≤ 1 ∧
        (c.db.timesPosted 71 = 1 ↔ y.status = .posted) ∧
        (y.status = .rejected → c.db.timesPosted 71 = 0) := by
  let := canonicalFormats
  obtain ⟨c, hc, hlog⟩ := Reachable.of_play (fun i => (approveAndReject i).run) Db.oneExpense
    (Move.through 0 31 ++ Move.through 1 20)
    (fun c => c.log.map (fun l => (l.1, l.2.toBool)) = [(0, true), (1, false)]) (by decide +kernel)
  exact ⟨c, hc, of_decide_eq_true hlog, expense_posted_once rfl rfl rfl hc⟩

end Noxara.Finance
