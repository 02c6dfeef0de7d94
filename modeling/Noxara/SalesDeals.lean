import Noxara.SalesPipelines

/-! Deals of the CRM: how one is opened, edited, won and lost, and the history of its stages. -/
namespace Noxara.Sales

open Transaction
open Finance (Uuid Timestamp Date Formats PublicId AppError internal notFound validation conflict
  parsePublicId parseOptionalPublicId trim)

/-- `UPDATE sales_deal .. WHERE org_id = $1 AND id = $2 RETURNING`. -/
def updateDealRow (dealId : Uuid) (change : DealRow → DealRow) : SalesTx DealRow :=
  .executeReturning (fun _ => [.deal dealId])
    (fun v =>
      match v.deals.find? dealId with
      | none => .error (internal "no rows returned by a query that expected to return at least one row")
      | some old => do
        dealColumns (change old) v
        return change old)
    fun _ s => s.setDeals (·.modify dealId change)

def insertStageHistory (row : StageHistoryRow) : SalesTx Unit :=
  .execute (fun _ => [])
    (fun v => do
      ensure ((v.deals.find? row.dealId).isSome)
        (foreignKey "sales_deal_stage_history" "sales_deal_stage_history_deal_id_fkey")
      ensure (∀ k, row.fromStageId = some k → (v.stages.find? k).isSome)
        (foreignKey "sales_deal_stage_history" "sales_deal_stage_history_from_stage_id_fkey")
      ensure ((v.stages.find? row.toStageId).isSome)
        (foreignKey "sales_deal_stage_history" "sales_deal_stage_history_to_stage_id_fkey")
      ensure (∀ u, row.changedBy = some u → u ∈ v.users)
        (foreignKey "sales_deal_stage_history" "sales_deal_stage_history_changed_by_fkey"))
    fun _ s => { s with stageHistory := s.stageHistory ++ [row] }

section
variable [Formats]

/-- The history row of a move, where the stage that was read is another than the one written. -/
def recordMove (ctx : RequestCtx) (dealId fromStage toStage : Uuid) (note : Option String) : SalesTx Unit :=
  if toStage = fromStage then return ()
  else insertStageHistory
    ⟨"dsh_" ++ Formats.uuidDisplay (ctx.fresh 3), dealId, some fromStage, toStage, some ctx.actorUserId, note⟩

def parseCloseDate (raw : String) : Except AppError (Option Date) :=
  match Formats.dateParseFromStr raw with
  | some d => .ok (some d)
  | none => .error (validation "expected_close_date must be YYYY-MM-DD")

structure CreateDealRequest where
  pipelineId : Option String := none
  stageId : Option String := none
  customerId : Option String := none
  leadId : Option String := none
  name : String
  amountMinor : Int := 0
  currency : Option String := none
  probability : Option Int := none
  expectedCloseDate : Option String := none
  ownerUserId : Option String := none

def pipelineOr (ctx : RequestCtx) (given : Option Uuid) : SalesTx Uuid :=
  match given with
  | some p => return p
  | none => ensureDefaultPipeline ctx

/-- The stage that is given, or the first open one of the pipeline. -/
def stageOr (given : Option Uuid) (pipelineId : Uuid) : SalesTx Uuid :=
  match given with
  | some s => return s
  | none => do
    let stage ← defaultOpenStage pipelineId
    .okOr stage noStage

/-- The columns of a new deal that are neither given by its ids nor by its pipeline. -/
def newDeal (ctx : RequestCtx) (body : CreateDealRequest) (customerId leadId : Option Uuid)
    (pipelineId stageId : Uuid) : Except AppError DealRow := do
  let ownerUserId ← givenOr body.ownerUserId (parsePublicId .user) ctx.actorUserId
  let expectedCloseDate ← givenOr body.expectedCloseDate parseCloseDate none
  return {
    publicId := (PublicId.mk .deal (ctx.fresh 0)).asStr
    pipelineId
    stageId
    customerId
    leadId
    name := body.name
    amountMinor := body.amountMinor
    currency := body.currency.getD "USD"
    probability := body.probability
    expectedCloseDate
    ownerUserId := some ownerUserId
    status := .open
    wonReason := none
    lostReason := none
    wonAt := none
    lostAt := none
    version := 1 }

def createDealRow (ctx : RequestCtx) (row : DealRow) : SalesTx (Nat × SalesAnswer) := do
  insertDeal (ctx.fresh 0) row
  insertSalesEvent (.dealCreated row.publicId row.name)
  let deal ← fetchDealRow (ctx.fresh 0)
  let deal ← .okOr deal ⟨.internal, "deal missing after insert"⟩
  putSalesAnswer "deal.create" ctx.idempotencyKey (.deal deal)
  return (201, .deal deal)

def createDeal (ctx : RequestCtx) (body : CreateDealRequest) : SalesTx (Nat × SalesAnswer) := do
  .ofExcept ctx.anyScope
  .require (trim body.name ≠ "") (validation "name must not be empty")
  replayOr "deal.create" ctx.idempotencyKey do
    let customerId ← .ofExcept (parseOptionalPublicId .customer body.customerId)
    let leadId ← .ofExcept (parseOptionalPublicId .lead body.leadId)
    let pipeline ← .ofExcept (parseOptionalPublicId .pipeline body.pipelineId)
    let pipelineId ← pipelineOr ctx pipeline
    let stage ← .ofExcept (parseOptionalPublicId .stage body.stageId)
    let stageId ← stageOr stage pipelineId
    let row ← .ofExcept (newDeal ctx body customerId leadId pipelineId stageId)
    createDealRow ctx row

/-- The deal that a request names, where its caller may work on it. -/
def namedDeal (ctx : RequestCtx) (id : String) : SalesTx (Uuid × DealRow) := do
  let dealId ← .ofExcept (parsePublicId .deal id)
  .ofExcept ctx.anyScope
  let row ← fetchDealRow dealId
  let row ← .okOr row (notFound "deal")
  .ofExcept (ctx.rowScope row.ownerUserId)
  return (dealId, row)

structure UpdateDealRequest where
  stageId : Option String := none
  name : Option String := none
  amountMinor : Option Int := none
  currency : Option String := none
  probability : Option Int := none
  expectedCloseDate : Option String := none
  ownerUserId : Option String := none
  note : Option String := none

/-- The columns that an edit writes besides the stage, from the row that was read. -/
def editedDeal (row : DealRow) (body : UpdateDealRequest) : Except AppError (DealRow → DealRow) := do
  let expectedCloseDate ← givenOr body.expectedCloseDate parseCloseDate row.expectedCloseDate
  let ownerUserId ← givenOr body.ownerUserId (fun s => (parsePublicId .user s).map some) row.ownerUserId
  return fun r => { r with
    name := body.name.getD row.name
    amountMinor := body.amountMinor.getD row.amountMinor
    currency := body.currency.getD row.currency
    probability := body.probability.or row.probability
    expectedCloseDate
    ownerUserId }

/-- The deal at a stage, after `change`. -/
def movedDeal (stageId : Uuid) (change : DealRow → DealRow) (r : DealRow) : DealRow :=
  { change r with
    stageId
    version := r.version + 1 }

def updateDeal (ctx : RequestCtx) (id : String) (body : UpdateDealRequest) : SalesTx (Nat × SalesAnswer) := do
  let (dealId, row) ← namedDeal ctx id
  .ofExcept (match ctx.ifMatch with
    | some expected =>
      ensure (expected = row.version) (conflict s!"version mismatch: expected {expected}, current {row.version}")
    | none => .ok ())
  let newStageId ← .ofExcept (givenOr body.stageId (parsePublicId .stage) row.stageId)
  let change ← .ofExcept (editedDeal row body)
  let updated ← updateDealRow dealId (movedDeal newStageId change)
  recordMove ctx dealId row.stageId newStageId body.note
  return (200, .deal updated)

def wonDeal (now : Timestamp) (reason : Option String) (r : DealRow) : DealRow :=
  { r with
    status := .won
    wonReason := reason
    wonAt := some now
    probability := some 100 }

def lostDeal (now : Timestamp) (reason : Option String) (r : DealRow) : DealRow :=
  { r with
    status := .lost
    lostReason := reason
    lostAt := some now
    probability := some 0 }

/-- Close a deal: move it to the first stage that `ends` holds of, if its pipeline has one. A deal that has the
status already is answered as it is. -/
def closeDeal (ctx : RequestCtx) (id : String) (status : DealStatus) (ends : StageRow → Bool)
    (change : DealRow → DealRow) (note : String) (event : DealRow → SalesEvent) : SalesTx (Nat × SalesAnswer) := do
  let (dealId, row) ← namedDeal ctx id
  if row.status = status then
    -- Idempotent: no second event, no state change.
    return (200, .deal row)
  else
    let stage ← .query fun v => firstStage v.stages row.pipelineId ends
    let updated ← updateDealRow dealId (movedDeal (stage.getD row.stageId) change)
    recordMove ctx dealId row.stageId (stage.getD row.stageId) (some note)
    insertSalesEvent (event updated)
    return (200, .deal updated)

def winDeal (ctx : RequestCtx) (id : String) (reason : Option String) : SalesTx (Nat × SalesAnswer) :=
  closeDeal ctx id .won (·.isWon) (wonDeal ctx.now reason) "won" fun r => .dealWon r.publicId r.amountMinor r.currency

def loseDeal (ctx : RequestCtx) (id : String) (reason : Option String) : SalesTx (Nat × SalesAnswer) :=
  closeDeal ctx id .lost (·.isLost) (lostDeal ctx.now reason) "lost" fun r => .dealLost r.publicId reason

inductive DealRequest
  | create (ctx : RequestCtx) (body : CreateDealRequest)
  | update (ctx : RequestCtx) (id : String) (body : UpdateDealRequest)
  | win (ctx : RequestCtx) (id : String) (reason : Option String)
  | lose (ctx : RequestCtx) (id : String) (reason : Option String)

def DealRequest.body : DealRequest → SalesTx (Nat × SalesAnswer)
  | create ctx body => createDeal ctx body
  | update ctx id body => updateDeal ctx id body
  | win ctx id reason => winDeal ctx id reason
  | lose ctx id reason => loseDeal ctx id reason

end

end Noxara.Sales
