import Noxara.FinanceJournals
import Noxara.InventoryReceipts

/-! Fixed assets: straight-line depreciation over the months elapsed is added to the asset, and
posted as a journal in the finance service, which keeps one entry for each source document. -/
namespace Noxara.Inventory

open Transaction
open Finance (Uuid Timestamp Date AppError Formats InI64 saturateI64 i32Max Money internal notFound validation
  databaseError)

def monthsElapsed (start through : Date) : Int :=
  if through ≤ start then 0
  else
    let months : Int := (through.year - start.year) * 12 + (through.month - start.month)
    max (if through.day < start.day then months - 1 else months) 0

/-- The expense of some months, as far as the depreciable base goes. -/
def straightLineDepreciationMinor (acquisitionCostMinor salvageMinor usefulLifeMonths
    accumulatedDepreciationMinor months : Int) : Except ValuationError Int :=
  if usefulLifeMonths ≤ 0 ∨ months ≤ 0 then .ok 0
  else if ¬InI64 (acquisitionCostMinor - salvageMinor) then .error .overflow
  else
    let depreciableBase := max (acquisitionCostMinor - salvageMinor) 0
    match Money.roundHalfUp depreciableBase usefulLifeMonths with
    | .error _ => .error .overflow
    | .ok monthly =>
      if ¬InI64 (monthly * months) then .error .overflow
      else
        let remaining := depreciableBase - accumulatedDepreciationMinor
        .ok (min (monthly * months) (max (if InI64 remaining then remaining else 0) 0))

example : straightLineDepreciationMinor 360000 0 36 359000 5 = .ok 1000 := by decide

structure Services where
  inventory : Db
  finance : Finance.Db

/-- A body of the inventory service that calls the finance service on its way. -/
abbrev Call := Prog Services RowKey AppError

/-- Statements on the inventory's own store. -/
def inInventory {α : Type} (p : Tx α) : Call α :=
  p.zoom (·.inventory) (fun f s => { s with inventory := f s.inventory }) id

/-- What the finance service takes from outside when it is called, and the text of a refusal, its
status and its body, as the caller receives it. -/
structure FinanceLink where
  ctx : Finance.RequestCtx
  problem : AppError → String

def mapUpstreamStatus : Finance.ErrorCode → Finance.ErrorCode
  | .conflict => .conflict
  | .validationFailed => .validationFailed
  | .forbidden => .forbidden
  | .notFound => .notFound
  | .unauthorized | .internal => .internal

section
variable [Formats]

/-- Two lines, both with the memo of the entry. -/
def JournalRequest.body (req : JournalRequest) : Finance.PostJournalRequest where
  sourceType := req.sourceType
  sourceId := Formats.uuidDisplay req.sourceId
  currency := req.currency
  memo := some req.memo
  lines := [⟨req.debitAccount, req.amountMinor, 0, some req.memo⟩,
    ⟨req.creditAccount, 0, req.amountMinor, some req.memo⟩]

/-- The finance service's answer and its store afterwards. -/
def FinanceLink.serve (link : FinanceLink) (req : JournalRequest) (db : Finance.Db) :
    Except AppError (Finance.Response × Finance.Db) :=
  let ctx := { link.ctx with idempotencyKey := req.idempotencyKey }
  match (Finance.postJournalHandler ctx req.body).run db with
  | .ok r => .ok r
  | .error (.answered r) => .ok (r, db)
  | .error (.error e) =>
    let problem := link.problem e
    .error ⟨mapUpstreamStatus e.code, s!"finance journal post failed: {problem}"⟩

def journalId : Finance.Response → Except AppError String
  | ⟨_, .journal dto⟩ => .ok dto.id
  | _ => .error ⟨.internal, "finance journal response missing id"⟩

/-- The finance service commits before the caller does. -/
def postJournalLines (link : FinanceLink) (req : JournalRequest) : Call String := do
  let r ← Prog.executeReturning (fun _ => []) (fun v => (link.serve req v.finance).map Prod.fst)
    fun v s =>
      match link.serve req v.finance with
      | .ok r => { s with finance := r.2 }
      | .error _ => s
  Prog.ofExcept (journalId r)

end

/-- Dr Depreciation Expense / Cr Accumulated Depreciation. -/
def depreciationJournal (assetId : Uuid) (row : AssetRow) (amountMinor : Int) : JournalRequest where
  sourceType := "inventory_depreciation"
  sourceId := assetId
  currency := row.currency
  memo := s!"Depreciation for asset {row.publicId}"
  debitAccount := "5300"
  creditAccount := "1300"
  amountMinor := amountMinor
  idempotencyKey := none

structure InventoryAssetDto where
  id : String
  itemId : Option String
  name : String
  assetTag : Option String
  status : AssetStatus
  acquisitionCostMinor : Int
  currency : String
  acquiredAt : Option Date
  usefulLifeMonths : Int
  salvageMinor : Int
  accumulatedDepreciationMinor : Int
  lastDepreciatedAt : Option Date
  createdAt : Timestamp
  updatedAt : Timestamp
  version : Int
  deriving DecidableEq

def AssetRow.intoDto (row : AssetRow) : InventoryAssetDto where
  id := row.publicId
  itemId := row.itemPublicId
  name := row.name
  assetTag := row.assetTag
  status := row.status
  acquisitionCostMinor := row.acquisitionCostMinor
  currency := row.currency
  acquiredAt := row.acquiredAt
  usefulLifeMonths := row.usefulLifeMonths
  salvageMinor := row.salvageMinor
  accumulatedDepreciationMinor := row.accumulatedDepreciationMinor
  lastDepreciatedAt := row.lastDepreciatedAt
  createdAt := row.createdAt
  updatedAt := row.updatedAt
  version := row.version

structure DepreciateAssetRequest where
  asOfDate : Option String := none

structure DepreciateAssetResponse where
  asset : InventoryAssetDto
  depreciationExpenseMinor : Int
  journalPublicId : Option String
  deriving DecidableEq

def fetchAsset (assetId : Uuid) : Tx AssetRow := do
  Prog.okOr (← Prog.query fun db => db.assets.find? assetId) (notFound "asset")

/-- The expense of the months from the last depreciation on. -/
def AssetRow.straightLine (row : AssetRow) (months : Int) : Except ValuationError Int :=
  straightLineDepreciationMinor row.acquisitionCostMinor row.salvageMinor row.usefulLifeMonths
    row.accumulatedDepreciationMinor months

def AssetRow.depreciated (row : AssetRow) (ctx : RequestCtx) (newAccum : Int) (asOf : Date) : AssetRow :=
  { row with
    accumulatedDepreciationMinor := newAccum
    lastDepreciatedAt := some asOf
    version := row.version + 1
    updatedAt := ctx.now }

def updateDepreciation (ctx : RequestCtx) (assetId : Uuid) (newAccum : Int) (asOf : Date) : Tx Unit :=
  Prog.execute (fun _ => [.asset assetId])
    (fun db =>
      match db.assets.find? assetId with
      | some row =>
        if row.version + 1 ≤ i32Max then .ok () else .error (databaseError "integer out of range")
      | none => .ok ())
    fun _ db => { db with assets := db.assets.modify assetId (·.depreciated ctx newAccum asOf) }

def answerDepreciated (assetId : Uuid) (dep newAccum : Int) (journalPublicId : String) :
    Tx DepreciateAssetResponse := do
  let updated ← fetchAsset assetId
  let dto := updated.intoDto
  insertEvent (.assetDepreciated dto.id dep newAccum journalPublicId)
  pure ⟨dto, dep, some journalPublicId⟩

section
variable [Formats]

/-- The asset, then the journal; what comes after the journal finds the asset and cannot fail. -/
def chargeDepreciation (ctx : RequestCtx) (link : FinanceLink) (assetId : Uuid) (row : AssetRow)
    (asOf : Date) (dep : Int) : Call DepreciateAssetResponse := do
  let newAccum := saturateI64 (row.accumulatedDepreciationMinor + dep)
  inInventory (updateDepreciation ctx assetId newAccum asOf)
  let journalPublicId ← postJournalLines link (depreciationJournal assetId row dep)
  inInventory (answerDepreciated assetId dep newAccum journalPublicId)

def parseAsOf (ctx : RequestCtx) : Option String → Except AppError Date
  | none => .ok ctx.today
  | some s => Finance.foundOr (Formats.dateParseFromStr s) (validation "as_of_date must be YYYY-MM-DD")

def depreciateAsset (ctx : RequestCtx) (link : FinanceLink) (id : String) (body : DepreciateAssetRequest) :
    Call DepreciateAssetResponse := do
  let assetId ← Prog.ofExcept (parsePublicId .fixedAsset id)
  Prog.ofExcept (ctx.authorize .assetWrite)
  let asOf ← Prog.ofExcept (parseAsOf ctx body.asOfDate)
  let row ← inInventory (fetchAsset assetId)
  let acquiredAt ← Prog.okOr row.acquiredAt
    (validation "asset has no acquired_at date; cannot depreciate")
  let months := monthsElapsed (row.lastDepreciatedAt.getD acquiredAt) asOf
  if months ≤ 0 then pure ⟨row.intoDto, 0, none⟩
  else do
    let dep ← Prog.ofExcept ((row.straightLine months).mapError fun e => validation e.display)
    if dep ≤ 0 then pure ⟨row.intoDto, 0, none⟩
    else chargeDepreciation ctx link assetId row asOf dep

end

end Noxara.Inventory
