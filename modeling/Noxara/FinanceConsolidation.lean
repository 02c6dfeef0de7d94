import Noxara.FinanceJournal
import Mathlib.Data.List.Sort

/-! Consolidation runs: the trial balances of the selected entities are added up in a map by
account code, and the intercompany accounts are eliminated against each other. Nothing here
checks the 64-bit sums, so they wrap. -/
namespace Noxara.Finance

open Transaction

structure ConsolidationRequest where
  entityIds : Option (List String) := none
  currency : Option String := none
  asOf : Option String := none

def Db.entityLines (db : Db) (entityId : Uuid) (currency : String) : List JournalLineRow :=
  db.journalLines.filter fun l =>
    (db.journalEntries.find? l.entryId).any fun je =>
      je.currency = currency ∧ je.entityId = some entityId

/-- The group of an account. -/
def tbRow (lines : List JournalLineRow) (account : String × AccountRow) : TrialBalanceRow where
  accountCode := account.1
  accountName := account.2.name
  accountType := account.2.accountType
  debitMinor := ((lines.filter fun l => l.accountCode = account.1).map (·.debitMinor)).sum
  creditMinor := ((lines.filter fun l => l.accountCode = account.1).map (·.creditMinor)).sum

def TrialBalanceRow.Nonzero (r : TrialBalanceRow) : Prop := r.debitMinor ≠ 0 ∨ r.creditMinor ≠ 0

instance (r : TrialBalanceRow) : Decidable r.Nonzero := inferInstanceAs (Decidable (_ ∨ _))

/-- `ORDER BY a.code`, and the order of the consolidated rows. -/
def byAccountCode (rows : List TrialBalanceRow) : List TrialBalanceRow :=
  rows.insertionSort fun a b => a.accountCode ≤ b.accountCode

def Db.tbRows (db : Db) (entityId : Uuid) (currency : String) : List TrialBalanceRow :=
  byAccountCode ((db.accounts.rows.map (tbRow (db.entityLines entityId currency))).filter (·.Nonzero))

def TrialBalance.ofRows (currency : String) (rows : List TrialBalanceRow) : TrialBalance :=
  let debit := wrapI64 (rows.map (·.debitMinor)).sum
  let credit := wrapI64 (rows.map (·.creditMinor)).sum
  { currency
    rows
    totalDebitMinor := debit
    totalCreditMinor := credit
    balanced := debit = credit }

/-- The sums of a group are cast to `BIGINT`. -/
def entityTb (entityId : Uuid) (currency : String) : Tx TrialBalance := do
  let rows ← Prog.query (·.tbRows entityId currency)
  lift (if ∀ r ∈ rows, InI64 r.debitMinor ∧ InI64 r.creditMinor then .ok ()
    else .error ⟨.internal, "error returned from database: bigint out of range"⟩)
  pure (.ofRows currency rows)

/-- One row of the profit and loss, as (revenue, expense). -/
def addPnl (acc : Int × Int) (r : TrialBalanceRow) : Int × Int :=
  match r.accountType with
  | .revenue => (wrapI64 (acc.1 + wrapI64 (r.creditMinor - r.debitMinor)), acc.2)
  | .expense => (acc.1, wrapI64 (acc.2 + wrapI64 (r.debitMinor - r.creditMinor)))
  | _ => acc

def pnlFromTb (tb : TrialBalance) : PnLSummary :=
  let (revenue, expense) := tb.rows.foldl addPnl (0, 0)
  ⟨revenue, expense, wrapI64 (revenue - expense)⟩

def addBs (acc : Int × Int × Int) (r : TrialBalanceRow) : Int × Int × Int :=
  let net := wrapI64 (r.debitMinor - r.creditMinor)
  match r.accountType with
  | .asset => (wrapI64 (acc.1 + net), acc.2.1, acc.2.2)
  | .liability => (acc.1, wrapI64 (acc.2.1 + wrapI64 (-net)), acc.2.2)
  | .equity => (acc.1, acc.2.1, wrapI64 (acc.2.2 + wrapI64 (-net)))
  | _ => acc

def bsFromTb (tb : TrialBalance) : BsSummary :=
  let (assets, liabilities, equity) := tb.rows.foldl addBs (0, 0, 0)
  ⟨assets, liabilities, wrapI64 (equity + (pnlFromTb tb).netIncomeMinor)⟩

structure CombinedRow where
  name : String
  accountType : AccountType
  debitMinor : Int
  creditMinor : Int

abbrev Combined := Table String CombinedRow

def CombinedRow.addDebit (amount : Int) (e : CombinedRow) : CombinedRow :=
  { e with debitMinor := wrapI64 (e.debitMinor + amount) }

def CombinedRow.addCredit (amount : Int) (e : CombinedRow) : CombinedRow :=
  { e with creditMinor := wrapI64 (e.creditMinor + amount) }

/-- `entry(code).or_insert_with(..)`, and the row's amounts added to it. -/
def Combined.addRow (combined : Combined) (r : TrialBalanceRow) : Combined :=
  (combined.insert r.accountCode ⟨r.accountName, r.accountType, 0, 0⟩).modify r.accountCode
    fun e => (e.addDebit r.debitMinor).addCredit r.creditMinor

def Combined.amount (combined : Combined) (code : String) (f : CombinedRow → Int) : Int :=
  (combined.find? code).elim 0 f

def CombinedRow.debitNet (e : CombinedRow) : Int := wrapI64 (e.debitMinor - e.creditMinor)

def CombinedRow.creditNet (e : CombinedRow) : Int := wrapI64 (e.creditMinor - e.debitMinor)

/-- The receivable and payable that cancel. -/
def Combined.elimBs (combined : Combined) : Int :=
  max (min (combined.amount codes.IC_RECEIVABLE CombinedRow.debitNet)
    (combined.amount codes.IC_PAYABLE CombinedRow.creditNet)) 0

/-- The revenue and expense that cancel. -/
def Combined.elimPnl (combined : Combined) : Int :=
  max (min (combined.amount codes.IC_REVENUE CombinedRow.creditNet)
    (combined.amount codes.IC_EXPENSE CombinedRow.debitNet)) 0

def eliminationLines (elimBs elimPnl : Int) : List EliminationLine :=
  (if elimBs > 0 then
    [⟨codes.IC_RECEIVABLE, 0, elimBs, "Eliminate IC receivable"⟩,
      ⟨codes.IC_PAYABLE, elimBs, 0, "Eliminate IC payable"⟩] else []) ++
  if elimPnl > 0 then
    [⟨codes.IC_REVENUE, elimPnl, 0, "Eliminate IC revenue"⟩,
      ⟨codes.IC_EXPENSE, 0, elimPnl, "Eliminate IC expense"⟩] else []

/-- An amount credited to one account and debited to another, where they are in the map. -/
def Combined.cancel (combined : Combined) (credited debited : String) (amount : Int) : Combined :=
  if amount > 0 then
    (combined.modify credited (·.addCredit amount)).modify debited (·.addDebit amount)
  else combined

def Combined.eliminate (combined : Combined) : Combined :=
  (combined.cancel codes.IC_RECEIVABLE codes.IC_PAYABLE combined.elimBs).cancel codes.IC_EXPENSE
    codes.IC_REVENUE combined.elimPnl

def intercompanyCodes : List String :=
  [codes.IC_RECEIVABLE, codes.IC_PAYABLE, codes.IC_REVENUE, codes.IC_EXPENSE]

def Combined.rowsByCode (combined : Combined) : List TrialBalanceRow :=
  byAccountCode ((combined.rows.map fun (code, e) =>
    ⟨code, e.name, e.accountType, e.debitMinor, e.creditMinor⟩).filter (·.Nonzero))

/-- The rows that stay: first the eliminated ones go, then every row without a net. -/
def consolidatedRows (rows : List TrialBalanceRow) : List TrialBalanceRow :=
  (rows.filter fun r => r.debitMinor ≠ r.creditMinor ∨ r.accountCode ∉ intercompanyCodes).filter
    fun r => r.debitMinor ≠ r.creditMinor

section Run
variable [Formats]

/-- The entities a request names, as often as it names them. -/
def findEntities : List String → Tx (List (Uuid × EntityRow))
  | [] => pure []
  | id :: ids => do
    let uuid ← lift (parsePublicId .financeEntity id)
    let row ← Prog.query (·.entities.find? uuid)
    let r ← lift (foundOr row (validation s!"entity not found: {id}"))
    let rest ← findEntities ids
    pure ((uuid, r) :: rest)

def selectEntities : Option (List String) → Tx (List (Uuid × EntityRow))
  | some ids => findEntities ids
  | none => Prog.query fun db => db.entities.rows.insertionSort fun a b => a.2.code ≤ b.2.code

omit [Formats] in
def addEntity (currency : String) (acc : List EntityStatementPack × Combined)
    (entity : Uuid × EntityRow) : Tx (List EntityStatementPack × Combined) := do
  let tb ← entityTb entity.1 currency
  Prog.require (tb.balanced = true)
    (.error (conflict s!"entity {entity.2.code} trial balance does not balance"))
  pure (acc.1 ++
      [{ entityId := entity.2.publicId
         entityCode := entity.2.code
         trialBalance := tb
         profitAndLoss := pnlFromTb tb
         balanceSheet := bsFromTb tb }],
    tb.rows.foldl Combined.addRow acc.2)

def parseAsOf (ctx : RequestCtx) (asOf : Option String) : Except AppError Date :=
  (parseDate asOf "as_of").map (·.getD ctx.today)

/-- A value of a `CHAR(3)` column. -/
def FitsChar3 (s : String) : Prop := ∀ c ∈ s.toList.drop 3, c = ' '

instance (s : String) : Decidable (FitsChar3 s) := inferInstanceAs (Decidable (∀ _ ∈ _, _))

omit [Formats] in
def insertConsolidationRun (id : Uuid) (row : ConsolidationRunRow) : Tx Unit :=
  Prog.execute (fun _ => [.consolidationRun id])
    (fun v => do
      ensure (FitsChar3 row.currency) (databaseError "value too long for type character(3)")
      ensure (v.consolidationRuns.find? id = none) (uniqueViolation "finance_consolidation_run_pkey"))
    fun _ db => { db with consolidationRuns := db.consolidationRuns.insert id row }

def runConsolidation (ctx : RequestCtx) (body : ConsolidationRequest) : Tx ConsolidationRunDto := do
  lift (ctx.authorize .consolidationRun)
  let currency := body.currency.getD "USD"
  let asOf ← lift (parseAsOf ctx body.asOf)
  let entities ← selectEntities body.entityIds
  let (entityStatements, combined) ← entities.foldlM (addEntity currency) ([], Table.empty)
  let consRows := combined.eliminate.rowsByCode
  Prog.require (∀ r ∈ consRows, r.accountCode ∈ intercompanyCodes → r.debitMinor = r.creditMinor)
    (.error (conflict "intercompany eliminations did not net to zero"))
  let statements : ConsolidationStatements :=
    { entityStatements
      consolidatedTrialBalance := .ofRows currency (consolidatedRows consRows)
      eliminations := eliminationLines combined.elimBs combined.elimPnl }
  let eliminatedMinor := wrapI64 (combined.elimBs + combined.elimPnl)
  let publicId := (PublicId.mk .consolidationRun (ctx.fresh 2)).asStr
  insertConsolidationRun (ctx.fresh 2)
    { publicId
      currency
      asOf
      status := "completed"
      entityIds := entities.map Prod.fst
      eliminatedMinor
      statements
      createdBy := ctx.actorUserId }
  pure
    { toConsolidationStatements := statements
      id := publicId
      currency
      asOf
      status := "completed"
      eliminatedMinor }

end Run

end Noxara.Finance
