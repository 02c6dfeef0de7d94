import Noxara.FinanceJournal
import Noxara.TransactionInterleaving

/-! Fiscal periods: create, close and reopen. These handlers do not seed the ledger accounts, so nothing orders them
before each other or before a posting but the period rows they lock. A posting reads the status of one covering period
row without a lock and is held to it no later than that read, so a closed period keeps entries out only where no
posting has its read behind it when the close commits, and no open row covers the day as well. -/
namespace Noxara.Finance

open Transaction

def PeriodRow.dto (p : PeriodRow) : FiscalPeriodDto :=
  ⟨p.publicId, p.code, p.name, p.startDate, p.endDate, p.status, p.checklist, p.closedAt,
    p.reopenedAt, p.reopenReason⟩

/-- Month-end close checklist of a new period, as JSON. -/
def defaultChecklist : String :=
  "\x7b\"bank_reconciled\":false,\"expenses_posted\":false,\"accruals_reviewed\":false,\"trial_balance_reviewed\":false,\"payroll_posted\":false\x7d"

def insertPeriod (id : Uuid) (row : PeriodRow) : Tx Unit :=
  Prog.execute (fun _ => [.periodCode row.code, .period id])
    (fun v => do
      ensure (v.periods.find? id = none) (uniqueViolation "finance_fiscal_period_pkey")
      ensure (¬v.CodeTaken row.code) (conflict s!"period code {row.code} already exists"))
    fun _ db => { db with periods := db.periods.insert id row }

/-- `UPDATE finance_fiscal_period SET .. WHERE id = $2`. -/
def updatePeriod (id : Uuid) (f : PeriodRow → PeriodRow) : Tx Unit :=
  Prog.execute (fun v => if (v.periods.find? id).isSome then [.period id] else [])
    (fun _ => .ok ()) fun _ db => { db with periods := db.periods.modify id f }

def fetchPeriod (id : Uuid) : Tx PeriodRow := do
  let row ← Prog.query (·.periods.find? id)
  lift (foundOr row (notFound "fiscal period"))

section Handlers
variable [Formats]

structure CreateFiscalPeriodRequest where
  code : String
  name : String
  startDate : String
  endDate : String

def parsePeriodDate (raw field : String) : Except AppError Date :=
  match Formats.dateParseFromStr (trim raw) with
  | some d => .ok d
  | none => .error (validation s!"{field} must be YYYY-MM-DD")

def createPeriod (ctx : RequestCtx) (body : CreateFiscalPeriodRequest) : Tx Response := do
  lift (ctx.authorize .periodClose)
  let code := trim body.code
  Prog.require (code ≠ "") (.error (validation "code required"))
  let name := trim body.name
  Prog.require (name ≠ "") (.error (validation "name required"))
  let startDate ← lift (parsePeriodDate body.startDate "start_date")
  let endDate ← lift (parsePeriodDate body.endDate "end_date")
  Prog.require (startDate ≤ endDate) (.error (validation "end_date must be >= start_date"))
  let id := ctx.fresh 2
  insertPeriod id
    { publicId := (PublicId.mk .fiscalPeriod id).asStr
      code
      name
      startDate
      endDate
      status := .open
      checklist := defaultChecklist
      closedAt := none
      reopenedAt := none
      reopenReason := none }
  let row ← Prog.query (·.periods.find? id)
  let row ← lift (foundOr row ⟨.internal, "period missing after insert"⟩)
  pure ⟨201, .period row.dto⟩

structure ClosePeriodRequest where
  checklist : Option String := none

/-- Store the checklist of a close request, if it has one. -/
def overrideChecklist (periodId : Uuid) : Option String → Tx Unit
  | some checklist => updatePeriod periodId fun p => { p with checklist }
  | none => pure ()

def closePeriod (ctx : RequestCtx) (id : String) (body : ClosePeriodRequest) : Tx Response := do
  let periodId ← lift (parsePublicId .fiscalPeriod id)
  lift (ctx.authorize .periodClose)
  Idempotency.replayOr ctx.idempotencyKey "period.close" 200 do
    let row ← fetchPeriod periodId
    if row.status = .closed ∨ row.status = .locked then do
      Idempotency.record ctx.idempotencyKey "period.close" 200 (.period row.dto)
      pure ⟨200, .period row.dto⟩
    else do
      overrideChecklist periodId body.checklist
      updatePeriod periodId fun p => { p with status := .closed, closedAt := some ctx.now }
      let row ← fetchPeriod periodId
      Idempotency.record ctx.idempotencyKey "period.close" 200 (.period row.dto)
      pure ⟨200, .period row.dto⟩

structure ReopenPeriodRequest where
  reason : String

def reopenPeriod (ctx : RequestCtx) (id : String) (body : ReopenPeriodRequest) : Tx Response := do
  let periodId ← lift (parsePublicId .fiscalPeriod id)
  lift (ctx.authorize .periodReopen)
  let reason := trim body.reason
  Prog.require (reason ≠ "") (.error (validation "reason required to reopen period"))
  let row ← fetchPeriod periodId
  Prog.require (row.status ≠ .open) (.answered ⟨200, .period row.dto⟩)
  updatePeriod periodId fun p =>
    { p with
      status := .open
      reopenedAt := some ctx.now
      reopenReason := some reason }
  let row ← fetchPeriod periodId
  pure ⟨200, .period row.dto⟩

end Handlers

inductive PeriodOp
  | createPeriod (ctx : RequestCtx) (body : CreateFiscalPeriodRequest)
  | closePeriod (ctx : RequestCtx) (id : String) (body : ClosePeriodRequest)
  | reopenPeriod (ctx : RequestCtx) (id : String) (body : ReopenPeriodRequest)
  | postJournal (ctx : RequestCtx) (draft : JournalDraft)

section Operations
variable [Formats]

def PeriodOp.body : PeriodOp → Tx (Response ⊕ Uuid)
  | createPeriod ctx body => do
    let r ← Finance.createPeriod ctx body
    pure (.inl r)
  | closePeriod ctx id body => do
    let r ← Finance.closePeriod ctx id body
    pure (.inl r)
  | reopenPeriod ctx id body => do
    let r ← Finance.reopenPeriod ctx id body
    pure (.inl r)
  | postJournal ctx draft => do
    let entryId ← Finance.postJournal ctx draft
    pure (.inr entryId)

def periodOf (raw : String) : Option Uuid := (parsePublicId .fiscalPeriod raw).toOption

def PeriodOp.closes : PeriodOp → Option Uuid
  | closePeriod _ id _ => periodOf id
  | _ => none

def PeriodOp.reopens : PeriodOp → Option Uuid
  | reopenPeriod _ id _ => periodOf id
  | _ => none

/-- The day an operation posts on. -/
def PeriodOp.postsOn : PeriodOp → Option Date
  | postJournal ctx draft => some (draft.date ctx)
  | _ => none

end Operations

/-- Entries of one day only, and no period row other than `target` is changed. -/
structure PeriodFrame (day : Option Date) (target : Option Uuid) (f : Db → Db) : Prop where
  entries : ∀ db id je, (f db).journalEntries.find? id = some je →
    db.journalEntries.find? id = some je ∨ day = some je.entryDate
  periods : ∀ db id p, target ≠ some id → db.periods.find? id = some p →
    (f db).periods.find? id = some p

namespace PeriodFrame
variable {day : Option Date} {target : Option Uuid}

theorem refl : PeriodFrame day target id := ⟨fun _ _ _ h => .inl h, fun _ _ _ _ h => h⟩

theorem comp {f g : Db → Db} (hf : PeriodFrame day target f) (hg : PeriodFrame day target g) :
    PeriodFrame day target (f ∘ g) where
  entries db id je h := (hf.entries _ id je h).elim (hg.entries db id je) .inr
  periods db id p ht h := hf.periods _ id p ht (hg.periods db id p ht h)

theorem of_eq {f : Db → Db} (he : ∀ db, (f db).journalEntries = db.journalEntries)
    (hp : ∀ db, (f db).periods = db.periods) : PeriodFrame day target f where
  entries db _ _ h := .inl (he db ▸ h)
  periods db _ _ _ h := (hp db).symm ▸ h

theorem of_periods {f : Db → Db} (he : ∀ db, (f db).journalEntries = db.journalEntries)
    (hp : ∀ db id p, target ≠ some id → db.periods.find? id = some p →
      (f db).periods.find? id = some p) : PeriodFrame day target f where
  entries db _ _ h := .inl (he db ▸ h)
  periods := hp

theorem lift {α : Type} (x : Except AppError α) : (lift x).Writes (PeriodFrame day target) :=
  Prog.writes_ofExcept _

/-- A step on a value that was parsed writes what the rest writes with that value. -/
theorem lift_bind {α β : Type} {x : Except AppError α} {f : α → Tx β}
    (h : ∀ a, x = .ok a → (f a).Writes (PeriodFrame day target)) :
    (Finance.lift x >>= f).Writes (PeriodFrame day target) := by
  cases x with
  | error e => trivial
  | ok a => exact h a rfl

theorem query {α : Type} (f : Db → α) : (Prog.query f : Tx α).Writes (PeriodFrame day target) :=
  Prog.writes_query refl f

theorem updatePeriod (id : Uuid) (f : PeriodRow → PeriodRow) :
    (updatePeriod id f).Writes (PeriodFrame day (some id)) := by
  refine Prog.writes_execute refl fun v _ => of_periods (fun _ => rfl) fun db j p hj h => ?_
  have hne : j ≠ id := by
    rintro rfl
    exact hj rfl
  rwa [Table.find?_modify_ne _ _ hne]

theorem record (key : Option String) (scope : String) (status : Int) (body : Body) :
    (Idempotency.record key scope status body).Writes (PeriodFrame day target) :=
  AnswerTable.writes_record refl (fun _ _ _ => of_eq (fun _ => rfl) fun _ => rfl) _ _ _

theorem fetchPeriod (id : Uuid) : (fetchPeriod id).Writes (PeriodFrame day target) :=
  (query _).bind fun _ => lift _

theorem replayOr {key : Option String} {scope : String} {default : Nat} {handler : Tx Response}
    (h : handler.Writes (PeriodFrame day target)) :
    (Idempotency.replayOr key scope default handler).Writes (PeriodFrame day target) :=
  AnswerTable.writes_replayOr refl h

variable [Formats]

theorem createPeriod (ctx : RequestCtx) (body : CreateFiscalPeriodRequest) :
    (createPeriod ctx body).Writes (PeriodFrame day target) := by
  unfold Finance.createPeriod
  refine (lift _).bind fun _ => ?_
  generalize trim body.code = code
  generalize trim body.name = name
  dsimp only
  refine Prog.writes_require.bind fun _ => Prog.writes_require.bind fun _ => ?_
  refine (lift _).bind fun _ => (lift _).bind fun _ => Prog.writes_require.bind fun _ => ?_
  refine Prog.Writes.bind ?_ fun _ => (query _).bind fun _ => (lift _).bind fun _ => trivial
  exact Prog.writes_execute refl fun _ _ => of_periods (fun _ => rfl) fun db j p _ h =>
    Table.find?_insert_of_some h _

theorem closePeriod (ctx : RequestCtx) (id : String) (body : ClosePeriodRequest) :
    (closePeriod ctx id body).Writes (PeriodFrame day (periodOf id)) := by
  refine lift_bind fun periodId hid => ?_
  rw [periodOf, hid]
  refine (lift _).bind fun _ => replayOr ((fetchPeriod _).bind fun row => ?_)
  split_ifs
  · exact (record _ _ _ _).bind fun _ => trivial
  · refine Prog.Writes.bind ?_ fun _ => (updatePeriod _ _).bind fun _ => ?_
    · cases body.checklist with
      | none => trivial
      | some checklist => exact updatePeriod _ _
    · exact (fetchPeriod _).bind fun _ => (record _ _ _ _).bind fun _ => trivial

theorem reopenPeriod (ctx : RequestCtx) (id : String) (body : ReopenPeriodRequest) :
    (reopenPeriod ctx id body).Writes (PeriodFrame day (periodOf id)) := by
  refine lift_bind fun periodId hid => ?_
  rw [periodOf, hid]
  refine (lift _).bind fun _ => ?_
  generalize trim body.reason = reason
  dsimp only
  refine Prog.writes_require.bind fun _ => (fetchPeriod _).bind fun _ => ?_
  refine Prog.writes_require.bind fun _ => (updatePeriod _ _).bind fun _ => ?_
  exact (fetchPeriod _).bind fun _ => trivial

omit [Formats] in
theorem postLines (entryId : Uuid) (ls : List LedgerLine) :
    (postLines entryId ls).Writes (PeriodFrame day target) := by
  induction ls with
  | nil => trivial
  | cons l ls ih =>
    refine Prog.Writes.bind ?_ fun _ => ih
    refine (query _).bind fun _ => (lift _).bind fun _ => (lift _).bind fun _ => ?_
    exact Prog.writes_execute refl fun _ _ => of_eq (fun _ => rfl) fun _ => rfl

theorem insertMonthlyPeriod (id : Uuid) (d : Date) :
    (insertMonthlyPeriod id d).Writes (PeriodFrame day target) := by
  refine Prog.writes_execute refl fun v _ => ?_
  by_cases hc : v.CodeTaken (monthlyPeriod id d).code
  · simp only [if_pos hc]
    exact refl
  · simp only [if_neg hc]
    exact of_periods (fun _ => rfl) fun db j p _ h => Table.find?_insert_of_some h _

theorem ensurePeriodForDate (ctx : RequestCtx) (d : Date) :
    (ensurePeriodForDate ctx d).Writes (PeriodFrame day target) := by
  refine (query _).bind fun found => ?_
  cases found with
  | some row => trivial
  | none =>
    refine (insertMonthlyPeriod _ _).bind fun _ => (query _).bind fun row => ?_
    cases row with
    | some row => trivial
    | none => exact lift _

theorem postJournal (ctx : RequestCtx) (draft : JournalDraft) :
    (postJournal ctx draft).Writes (PeriodFrame (some (draft.date ctx)) target) := by
  refine (lift _).bind fun _ => (ensurePeriodForDate _ _).bind fun _ => (lift _).bind fun _ => ?_
  refine Prog.Writes.bind ?_ fun _ => (postLines _ _).bind fun _ => trivial
  refine Prog.writes_execute refl fun v _ => ⟨fun db j je h => ?_, fun _ _ _ _ h => h⟩
  rcases Table.find?_insert_some h with h | ⟨_, rfl⟩
  · exact .inl h
  · exact .inr rfl

theorem body (op : PeriodOp) :
    op.body.Writes (PeriodFrame op.postsOn (op.closes.or op.reopens)) := by
  cases op with
  | createPeriod ctx body => exact (createPeriod _ _).bind fun _ => trivial
  | closePeriod ctx id body =>
    simp only [PeriodOp.closes, PeriodOp.reopens, Option.or_none]
    exact (closePeriod _ _ _).bind fun _ => trivial
  | reopenPeriod ctx id body => exact (reopenPeriod _ _ _).bind fun _ => trivial
  | postJournal ctx draft => exact (postJournal _ _).bind fun _ => trivial

end PeriodFrame

section Postings
variable [Formats]

/-- The rest of a posting, once its period is there. -/
def postInto (ctx : RequestCtx) (draft : JournalDraft) (period : Tx (Uuid × PeriodRow)) :
    Tx (Response ⊕ Uuid) := do
  let entryId ← period >>= postIntoPeriod ctx draft
  pure (.inr entryId)

/-- The posting has not read an open period: it has not started, it is about to create the monthly
period or to look for a period again, or it was refused. -/
inductive Unread (ctx : RequestCtx) (draft : JournalDraft) : Tx (Response ⊕ Uuid) → Prop
  | start : Unread ctx draft (PeriodOp.postJournal ctx draft).body
  | missing : Unread ctx draft (postInto ctx draft do
      insertMonthlyPeriod (ctx.fresh 1) (draft.date ctx)
      refindPeriodForDate ctx (draft.date ctx))
  | created : Unread ctx draft (postInto ctx draft (refindPeriodForDate ctx (draft.date ctx)))
  | refused (e : TxExit) : Unread ctx draft (.fail e)

namespace Unread
variable {ctx : RequestCtx} {draft : JournalDraft} {q : Tx (Response ⊕ Uuid)}

theorem of_closed {row : Uuid × PeriodRow} (h : row.2.status ≠ .open) :
    Unread ctx draft (postInto ctx draft (pure row)) := by
  have hfail : ∃ e, assertPeriodAcceptsPosting row.2 = .error e := by
    cases hc : assertPeriodAcceptsPosting row.2 with
    | error e => exact ⟨e, rfl⟩
    | ok u => exact absurd (assertPeriodAcceptsPosting_ok.mp hc) h
  obtain ⟨e, he⟩ := hfail
  have hpost : postInto ctx draft (pure row) = .fail (.error e) := by
    change (lift (assertPeriodAcceptsPosting row.2) >>= _) >>= _ = _
    rw [he]
    rfl
  exact hpost ▸ .refused _

theorem body_eq (ctx : RequestCtx) (draft : JournalDraft) : (PeriodOp.postJournal ctx draft).body =
      postInto ctx draft (ensurePeriodForDate ctx (draft.date ctx)) ∨
    ∃ e, (PeriodOp.postJournal ctx draft).body = .fail e := by
  cases hb : draft.assertBalanced with
  | ok u =>
    refine .inl ?_
    simp only [PeriodOp.body, Finance.postJournal, hb]
    rfl
  | error e =>
    refine .inr ⟨.error (validation "journal lines must balance"), ?_⟩
    simp only [PeriodOp.body, Finance.postJournal, hb]
    rfl

theorem postInto_bind {α : Type} (p : Tx α) (f : α → Tx (Uuid × PeriodRow)) :
    postInto ctx draft (p >>= f) = p >>= fun a => postInto ctx draft (f a) := by
  simp only [postInto, bind_assoc]

/-- A statement that sees no open period on the day leads no further. -/
theorem after (h : Unread ctx draft q) {v : Db}
    (hclosed : ∀ r ∈ v.coveringPeriods (draft.date ctx), r.2.status ≠ .open) :
    Unread ctx draft (q.after v) := by
  have hfound : ∀ {n : Nat} {row : Uuid × PeriodRow},
      (v.coveringPeriods (draft.date ctx))[n]? = some row → row.2.status ≠ .open :=
    fun hrow => hclosed _ (List.mem_of_getElem? hrow)
  cases h with
  | start =>
    rcases body_eq ctx draft with hb | ⟨e, hb⟩
    · rw [hb, ensurePeriodForDate, findPeriodForDate, postInto_bind, Prog.after_query_bind]
      split
      · next row hrow => exact of_closed (hfound hrow)
      · exact .missing
    · rw [hb]
      exact .refused e
  | missing =>
    rw [postInto_bind]
    unfold insertMonthlyPeriod
    rcases Prog.after_execute_bind v _ _ _ _ with hb | ⟨e, hb⟩
    · rw [hb]
      exact .created
    · rw [hb]
      exact .refused e
  | created =>
    rw [refindPeriodForDate, findPeriodForDate, postInto_bind, Prog.after_query_bind]
    split
    · next row hrow => exact of_closed (hfound hrow)
    · exact .refused _
  | refused e => exact .refused e

theorem ne_pure (h : Unread ctx draft q) (a : Response ⊕ Uuid) : q ≠ .pure a := by
  cases h with
  | start =>
    rcases body_eq ctx draft with hb | ⟨e, hb⟩
    · rw [hb]
      exact nofun
    · rw [hb]
      exact nofun
  | missing => exact nofun
  | created => exact nofun
  | refused e => exact nofun

end Unread

variable {ι : Type}

abbrev PeriodConfig (ι : Type) := Config ι Db RowKey TxExit (Response ⊕ Uuid)

/-- Whether a period counts as closed after one more transaction has ended. -/
def closedAfter (ops : ι → PeriodOp) (pid : Uuid) (closed : Bool)
    (x : ι × Except TxExit (Response ⊕ Uuid)) : Bool :=
  match x.2 with
  | .error _ => closed
  | .ok _ =>
    if (ops x.1).closes = some pid then true
    else if (ops x.1).reopens = some pid then false
    else closed

/-- A close of the period has committed, and no reopen of it since. -/
def ClosedSince (ops : ι → PeriodOp) (pid : Uuid)
    (log : List (ι × Except TxExit (Response ⊕ Uuid))) : Prop :=
  log.foldl (closedAfter ops pid) false = true

instance (ops : ι → PeriodOp) (pid : Uuid) (log : List (ι × Except TxExit (Response ⊕ Uuid))) :
    Decidable (ClosedSince ops pid log) := inferInstanceAs (Decidable (_ = _))

/-- The period is closed, and no posting in flight that falls into it has read it open. -/
def KeptClosed (ops : ι → PeriodOp) (pid : Uuid) (db : Db)
    (threads : ι → Status Db RowKey TxExit (Response ⊕ Uuid)) : Prop :=
  ∃ p, db.periods.find? pid = some p ∧ p.status ≠ .open ∧
    ∀ j ctx draft t, ops j = .postJournal ctx draft → threads j = .running t →
      p.Covers (draft.date ctx) → Unread ctx draft t.prog

/-- What keeps the books closed over a step. Where a committed closed period covers the day of a
posting that has not read its period, the posting sees no open one on that day; and a close
commits with its period closed and no posting in flight that has read it open. -/
structure Orderly (ops : ι → PeriodOp) (c d : PeriodConfig ι) : Prop where
  agree : ∀ j ctx draft t, ops j = .postJournal ctx draft → c.threads j = .running t →
    Unread ctx draft t.prog → ∀ r ∈ c.db.coveringPeriods (draft.date ctx), r.2.status ≠ .open →
      ∀ q ∈ (t.view c.db).coveringPeriods (draft.date ctx), q.2.status ≠ .open
  close : ∀ i pid t a, (ops i).closes = some pid → c.threads i = .running t →
    d.threads i = .committed a → KeptClosed ops pid (t.view c.db) c.threads

variable {ops : ι → PeriodOp} {pid : Uuid} {c d : PeriodConfig ι}

theorem closedSince_error {log : List (ι × Except TxExit (Response ⊕ Uuid))} {i : ι} {e : TxExit} :
    ClosedSince ops pid (log ++ [(i, .error e)]) ↔ ClosedSince ops pid log := by
  rw [ClosedSince, List.foldl_append]
  rfl

theorem closedSince_ok {log : List (ι × Except TxExit (Response ⊕ Uuid))} {i : ι}
    {a : Response ⊕ Uuid} : ClosedSince ops pid (log ++ [(i, .ok a)]) ↔
      (ops i).closes = some pid ∨ ((ops i).reopens ≠ some pid ∧ ClosedSince ops pid log) := by
  simp only [ClosedSince, List.foldl_append, List.foldl_cons, List.foldl_nil, closedAfter]
  by_cases hc : (ops i).closes = some pid
  · simp [hc]
  · by_cases hr : (ops i).reopens = some pid <;> simp [hc, hr]

variable [DecidableEq ι]

/-- Only the transactions in flight matter. -/
theorem KeptClosed.ended {db : Db} (h : KeptClosed ops pid db c.threads) {i : ι}
    {s : Status Db RowKey TxExit (Response ⊕ Uuid)} (hs : ∀ t, s ≠ .running t) :
    KeptClosed ops pid db (c.setThread i s).threads := by
  obtain ⟨p, hp, hclosed, hunread⟩ := h
  refine ⟨p, hp, hclosed, fun j ctx draft t hj ht hcov => ?_⟩
  rcases Config.running_setThread ht with ⟨_, he⟩ | ⟨_, ht⟩
  · exact absurd he (hs t)
  · exact hunread j ctx draft t hj ht hcov

theorem reachable_frame {db : Db} (h : Reachable (fun i => (ops i).body) db c) {i : ι}
    {t : Thread Db RowKey TxExit (Response ⊕ Uuid)} (ht : c.threads i = .running t) :
    PeriodFrame (ops i).postsOn ((ops i).closes.or (ops i).reopens) t.pend :=
  (h.writes (W := fun i => PeriodFrame (ops i).postsOn ((ops i).closes.or (ops i).reopens))
    (fun _ => .refl) (fun _ _ _ => .comp) (fun i => PeriodFrame.body (ops i)) i t ht).1

theorem KeptClosed.step {db : Db} (hc : Reachable (fun i => (ops i).body) db c)
    (h : ClosedSince ops pid c.log → KeptClosed ops pid c.db c.threads) (next : Step c d)
    (horderly : Orderly ops c d) (hclosed : ClosedSince ops pid d.log) :
    KeptClosed ops pid d.db d.threads := by
  cases next with
  | @exec i t l w n running prog free =>
    obtain ⟨p, hp, hstatus, hunread⟩ := h hclosed
    refine ⟨p, hp, hstatus, fun j ctx draft u hj hu hcov => ?_⟩
    rcases Config.running_setThread hu with ⟨rfl, he⟩ | ⟨_, hu⟩
    · cases he
      have hread := hunread j ctx draft t hj running hcov
      have hmem : (pid, p) ∈ c.db.coveringPeriods (draft.date ctx) :=
        List.mem_filter.mpr ⟨Table.find?_eq_some.mp hp, decide_eq_true hcov⟩
      have hnext := hread.after (horderly.agree j ctx draft t hj running hread _ hmem hstatus)
      rw [prog] at hnext
      exact hnext
    · exact hunread j ctx draft u hj hu hcov
  | @commit i t a running prog =>
    have hcommitted : ∀ u : Thread Db RowKey TxExit (Response ⊕ Uuid), Status.committed a ≠ .running u :=
      fun _ => nofun
    rcases closedSince_ok.mp hclosed with hcloses | ⟨hreopens, hold⟩
    · exact (horderly.close i pid t a hcloses running (c.setThread_same i _)).ended hcommitted
    · by_cases hcloses : (ops i).closes = some pid
      · exact (horderly.close i pid t a hcloses running (c.setThread_same i _)).ended hcommitted
      · obtain ⟨p, hp, hstatus, hunread⟩ := h hold
        have htarget : (ops i).closes.or (ops i).reopens ≠ some pid := fun he =>
          (Option.or_eq_some_iff.mp he).elim hcloses fun hr => hreopens hr.2
        have hkept := (reachable_frame hc running).periods c.db pid p htarget hp
        exact KeptClosed.ended ⟨p, hkept, hstatus, hunread⟩ hcommitted
  | exit running prog => exact (h (closedSince_error.mp hclosed)).ended fun _ => nofun
  | crash running => exact (h hclosed).ended fun _ => nofun

theorem keptClosed_of_orderly {db : Db} (h : ReachableWhere (Orderly ops) (fun i => (ops i).body) db c)
    (hclosed : ClosedSince ops pid c.log) : KeptClosed ops pid c.db c.threads := by
  induction h with
  | initial => cases hclosed
  | step prior next horderly ih => exact KeptClosed.step prior.reachable ih next horderly hclosed

/-- In a run of orderly steps, from the commit of a close to the commit of a reopen the period is
closed, and no step commits an entry of a day in it. -/
theorem closed_period_keeps_closed {db : Db}
    (h : ReachableWhere (Orderly ops) (fun i => (ops i).body) db c)
    (hclosed : ClosedSince ops pid c.log) (next : Step c d) :
    ∃ p, c.db.periods.find? pid = some p ∧ p.status ≠ .open ∧
      ∀ id je, d.db.journalEntries.find? id = some je → p.Covers je.entryDate →
        c.db.journalEntries.find? id = some je := by
  obtain ⟨p, hp, hstatus, hunread⟩ := keptClosed_of_orderly h hclosed
  refine ⟨p, hp, hstatus, fun id je hje hcov => ?_⟩
  cases next with
  | exec | exit | crash => exact hje
  | @commit i t a running prog =>
    rcases (reachable_frame h.reachable running).entries c.db id je hje with hold | hday
    · exact hold
    · cases hop : ops i with
      | postJournal ctx draft =>
        rw [hop] at hday
        rw [← Option.some.inj hday] at hcov
        exact absurd prog ((hunread i ctx draft t hop running hcov).ne_pure a)
      | createPeriod ctx body | closePeriod ctx id body | reopenPeriod ctx id body =>
        rw [hop] at hday
        cases hday

/-- A close of March, and a posting into March. -/
def closeAndPost : Fin 2 → PeriodOp :=
  sideBySide (.closePeriod (.nth 1) (PublicId.mk .fiscalPeriod 51).asStr {})
    (.postJournal (.nth 2)
      { memo := "Cash sale"
        sourceType := .manual
        sourceId := 43
        currency := .USD
        lines := [.debit codes.CASH 100 none, .credit codes.REVENUE 100 none] })

/-- The two transactions before either has ended, the close as far as `u`. -/
def closing (u : Thread Db RowKey TxExit (Response ⊕ Uuid)) : PeriodConfig (Fin 2) :=
  (Config.initial (fun i => (closeAndPost i).body) Db.oneEntry).setThread left (.running u)

theorem closing_post (u : Thread Db RowKey TxExit (Response ⊕ Uuid)) :
    (closing u).threads 1 = .running (.fresh (closeAndPost 1).body) := rfl

/-- Until the close has committed no period is closed, so all that matters is what it commits. -/
theorem closing_orderly {u : Thread Db RowKey TxExit (Response ⊕ Uuid)} {d : PeriodConfig (Fin 2)}
    (hclose : ∀ a pid, d.threads 0 = .committed a → (closeAndPost 0).closes = some pid →
      KeptClosed closeAndPost pid (u.view Db.oneEntry) (closing u).threads) :
    Orderly closeAndPost (closing u) d where
  agree := by
    intro j ctx draft t _ _ _ r hr hopen
    have hrows : ∀ r ∈ Db.oneEntry.periods.rows, r.2.status = .open := by
      intro r hr
      rw [List.mem_singleton.mp hr]
      rfl
    exact absurd (hrows r (List.mem_filter.mp hr).1) hopen
  close := by
    intro i pid t a hcloses ht hd
    by_cases hi : i = 0
    · subst hi
      cases ht
      exact hclose a pid hd hcloses
    · simp only [closeAndPost, sideBySide, if_neg hi, PeriodOp.closes] at hcloses
      cases hcloses

omit [Formats] in
/-- March is closed before the posting starts, which then only reads. -/
theorem closed_period_keeps_closed_march :
    letI := canonicalFormats
    ∃ c d, ReachableWhere (Orderly closeAndPost) (fun i => (closeAndPost i).body) Db.oneEntry c ∧
      Step c d ∧ ClosedSince closeAndPost 51 c.log ∧ ∃ p, c.db.periods.find? 51 = some p ∧
        p.status ≠ .open ∧ ∀ id je, d.db.journalEntries.find? id = some je →
          p.Covers je.entryDate → c.db.journalEntries.find? id = some je := by
  let := canonicalFormats
  have hcloses : (closeAndPost 0).closes = some 51 := by decide +kernel
  obtain ⟨a, s, hrun, hs⟩ := Prog.run_of_check (p := (closeAndPost 0).body) (s := Db.oneEntry)
    (P := fun _ s => (s.periods.find? 51).any fun p => p.status ≠ .open) (by decide +kernel)
  obtain ⟨p, hp, hstatus⟩ := (Option.any_eq_true _ _).mp hs
  -- Nothing but the end of the close is asked for on the way.
  have hstart : ReachableWhere (Orderly closeAndPost) (fun i => (closeAndPost i).body) Db.oneEntry
      (.initial (fun i => (closeAndPost i).body) Db.oneEntry) := .initial
  have hreach := hstart.through (i := 0) rfl
    (fun _ _ => rfl) hrun (fun u v => closing_orderly fun a pid hd _ => by cases hd) fun u hu => by
      refine closing_orderly fun b pid _ hpid => ?_
      cases hpid.symm.trans hcloses
      refine ⟨p, hu ▸ hp, of_decide_eq_true hstatus, fun j ctx draft t hj ht _ => ?_⟩
      by_cases hi : j = 0
      · subst hi
        cases hj
      · have hj1 : j = 1 := by omega
        subst hj1
        cases (closing_post u).symm.trans ht
        rw [Thread.fresh, hj]
        exact .start
  have hclosed : ClosedSince closeAndPost 51 ([] ++ [(0, .ok a)]) :=
    closedSince_ok.mpr (.inl hcloses)
  have hnext : ∃ d, Step { (Config.initial (fun i => (closeAndPost i).body) Db.oneEntry).setThread 0
      (.committed a) with db := s, log := [(0, .ok a)] } d :=
    ⟨_, .exec (i := 1) (t := .fresh (closeAndPost 1).body) rfl rfl fun _ _ _ hk => absurd hk List.not_mem_nil⟩
  obtain ⟨d, hnext⟩ := hnext
  exact ⟨_, d, hreach, hnext, hclosed, closed_period_keeps_closed hreach hclosed hnext⟩

/-- The posting reads March open, March is closed, and the entry is committed into it. -/
def postAcrossClose : List (Move (Fin 2)) :=
  .exec right :: Move.through left 3 ++ List.replicate 5 (.exec right)

omit [Formats] in
theorem posted_into_closed_period :
    letI := canonicalFormats
    ∃ c d, Reachable (fun i => (closeAndPost i).body) Db.oneEntry c ∧ Step c d ∧
      ClosedSince closeAndPost 51 c.log ∧ ∃ p je, c.db.periods.find? 51 = some p ∧
        d.db.journalEntries.find? 200 = some je ∧ p.Covers je.entryDate ∧
        c.db.journalEntries.find? 200 = none := by
  let := canonicalFormats
  obtain ⟨c, hc, hP⟩ := Reachable.of_play (fun i => (closeAndPost i).body) Db.oneEntry postAcrossClose
    (fun c => ClosedSince closeAndPost 51 c.log ∧ c.db.journalEntries.find? 200 = none ∧
      (c.move (.finish 1)).any fun d => (c.db.periods.find? 51).any fun p =>
        (d.db.journalEntries.find? 200).any fun je => p.Covers je.entryDate) (by decide +kernel)
  obtain ⟨hclosed, hnew, hd⟩ := of_decide_eq_true hP
  obtain ⟨d, hmove, hp⟩ := (Option.any_eq_true _ _).mp hd
  obtain ⟨p, hp, hje⟩ := (Option.any_eq_true _ _).mp hp
  obtain ⟨je, hje, hcov⟩ := (Option.any_eq_true _ _).mp hje
  exact ⟨c, d, hc, Config.move_sound hmove, hclosed, p, je, hp, hje, of_decide_eq_true hcov, hnew⟩

end Postings

end Noxara.Finance
