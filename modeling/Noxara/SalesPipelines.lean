import Noxara.SalesQuotes

/-! Leads, customers and deals of the CRM. A deal stands at a stage of a pipeline; the first use of an
organisation without one seeds a default pipeline. -/
namespace Noxara.Sales

open Transaction
open Finance (Uuid Timestamp Date Formats PublicId AppError internal uniqueViolation databaseError i32Max)

structure PipelineRow where
  publicId : String
  name : String
  isDefault : Bool
  createdAt : Timestamp
  deriving DecidableEq

structure StageRow where
  publicId : String
  pipelineId : Uuid
  name : String
  position : Int
  probability : Int
  isWon : Bool
  isLost : Bool
  deriving DecidableEq

structure CustomerRow where
  publicId : String
  name : String
  email : Option String
  phone : Option String
  ownerUserId : Option Uuid
  deriving DecidableEq

structure ContactRow where
  publicId : String
  customerId : Uuid
  firstName : String
  lastName : String
  email : Option String
  phone : Option String
  isPrimary : Bool
  ownerUserId : Option Uuid
  deriving DecidableEq

inductive LeadStatus
  | new | qualified | disqualified | converted
  deriving DecidableEq

def LeadStatus.ofText (s : String) : Option LeadStatus :=
  if s = "new" then some .new
  else if s = "qualified" then some .qualified
  else if s = "disqualified" then some .disqualified
  else if s = "converted" then some .converted
  else none

structure LeadRow where
  publicId : String
  name : String
  email : Option String
  phone : Option String
  companyName : Option String
  source : Option String
  status : LeadStatus
  score : Int
  ownerUserId : Option Uuid
  notes : Option String
  convertedCustomerId : Option Uuid
  convertedDealId : Option Uuid
  version : Int
  deriving DecidableEq

inductive DealStatus
  | open | won | lost
  deriving DecidableEq

structure DealRow where
  publicId : String
  pipelineId : Uuid
  stageId : Uuid
  customerId : Option Uuid
  leadId : Option Uuid
  name : String
  amountMinor : Int
  currency : String
  probability : Option Int
  expectedCloseDate : Option Date
  ownerUserId : Option Uuid
  status : DealStatus
  wonReason : Option String
  lostReason : Option String
  wonAt : Option Timestamp
  lostAt : Option Timestamp
  version : Int
  deriving DecidableEq

structure StageHistoryRow where
  publicId : String
  dealId : Uuid
  fromStageId : Option Uuid
  toStageId : Uuid
  changedBy : Option Uuid
  note : Option String
  deriving DecidableEq

/-- Events in the outbox, by the public ids of the rows they tell of. -/
inductive SalesEvent
  | customerCreated (id name source : String)
  | leadConverted (id customerId dealId : String)
  | dealCreated (id name : String)
  | dealWon (id : String) (amountMinor : Int) (currency : String)
  | dealLost (id : String) (reason : Option String)
  deriving DecidableEq

structure DuplicateMatch where
  customerId : Option String
  leadId : Option String
  name : String
  email : Option String
  score : Rat
  reason : String
  deriving DecidableEq

inductive SalesAnswer
  | lead (row : LeadRow)
  | conversion (lead : LeadRow) (customer : CustomerRow) (deal : DealRow)
  | duplicates (found : List DuplicateMatch)
  | deal (row : DealRow)
  deriving DecidableEq

/-- `seedStages` are the stages that the provisioning of the organisation left for its first pipeline. -/
structure SalesDb where
  pipelines : Table Uuid PipelineRow
  stages : Table Uuid StageRow
  customers : Table Uuid CustomerRow
  contacts : List ContactRow
  leads : Table Uuid LeadRow
  deals : Table Uuid DealRow
  stageHistory : List StageHistoryRow
  events : List SalesEvent
  idempotency : Table (String × String) (Int × SalesAnswer)
  seedStages : List (String × Int)
  users : List Uuid

def SalesDb.empty : SalesDb := ⟨.empty, .empty, .empty, [], .empty, .empty, [], [], .empty, [], []⟩

inductive SalesLock
  | pipeline (id : Uuid)
  | stage (id : Uuid)
  | customer (id : Uuid)
  | customerEmail (lower : String)
  | lead (id : Uuid)
  | deal (id : Uuid)
  | idempotency (scope key : String)
  deriving DecidableEq

abbrev SalesTx (α : Type) := Prog SalesDb SalesLock AppError α

namespace SalesDb

def setPipelines (s : SalesDb) (f : Table Uuid PipelineRow → Table Uuid PipelineRow) : SalesDb :=
  { s with pipelines := f s.pipelines }

def setStages (s : SalesDb) (f : Table Uuid StageRow → Table Uuid StageRow) : SalesDb :=
  { s with stages := f s.stages }

def setCustomers (s : SalesDb) (f : Table Uuid CustomerRow → Table Uuid CustomerRow) : SalesDb :=
  { s with customers := f s.customers }

def setLeads (s : SalesDb) (f : Table Uuid LeadRow → Table Uuid LeadRow) : SalesDb :=
  { s with leads := f s.leads }

def setDeals (s : SalesDb) (f : Table Uuid DealRow → Table Uuid DealRow) : SalesDb :=
  { s with deals := f s.deals }

end SalesDb

def insertSalesEvent (event : SalesEvent) : SalesTx Unit :=
  .execute (fun _ => []) (fun _ => .ok ()) fun _ s => { s with events := s.events ++ [event] }

def salesAnswers : AnswerTable SalesDb SalesLock (Int × SalesAnswer) where
  rows := SalesDb.idempotency
  keep s t := { s with idempotency := t }
  lock := .idempotency

/-- An answer that was stored for the key of the request, before anything else. -/
def replayOr (scope : String) (key : Option String) (body : SalesTx (Nat × SalesAnswer)) :
    SalesTx (Nat × SalesAnswer) :=
  salesAnswers.replayOr key scope (fun stored => (Finance.Idempotency.statusFromU16 stored.1 201, stored.2)) body

def putSalesAnswer (scope : String) (key : Option String) (answer : SalesAnswer) : SalesTx Unit :=
  salesAnswers.record key scope (201, answer)

def insertPipeline (id : Uuid) (row : PipelineRow) : SalesTx Unit :=
  .execute (fun _ => [.pipeline id])
    (fun v => ensure (v.pipelines.find? id = none) (uniqueViolation "sales_pipeline_pkey"))
    fun _ s => s.setPipelines (·.insert id row)

def insertStage (stage : Uuid × StageRow) : SalesTx Unit :=
  .execute (fun _ => [.stage stage.1])
    (fun v => do
      ensure (v.stages.find? stage.1 = none) (uniqueViolation "sales_pipeline_stage_pkey")
      ensure ((v.pipelines.find? stage.2.pipelineId).isSome)
        (foreignKey "sales_pipeline_stage" "sales_pipeline_stage_pipeline_id_fkey"))
    fun _ s => s.setStages (·.insert stage.1 stage.2)

def fetchDealRow (dealId : Uuid) : SalesTx (Option DealRow) := .query fun v => v.deals.find? dealId

def dealColumns (row : DealRow) (v : SalesDb) : Except AppError Unit := do
  ensure (row.version ≤ i32Max) (databaseError "integer out of range")
  ensure (row.currency.length ≤ 3) (databaseError "value too long for type character(3)")
  ensure (∀ p, row.probability = some p → 0 ≤ p ∧ p ≤ 100)
    (databaseError "new row for relation \"sales_deal\" violates check constraint \"sales_deal_probability_check\"")
  ensure ((v.stages.find? row.stageId).isSome) (foreignKey "sales_deal" "sales_deal_stage_id_fkey")
  ensure (∀ u, row.ownerUserId = some u → u ∈ v.users) (foreignKey "sales_deal" "sales_deal_owner_user_id_fkey")

def insertDeal (id : Uuid) (row : DealRow) : SalesTx Unit :=
  .execute (fun _ => [.deal id])
    (fun v => do
      ensure (v.deals.find? id = none) (uniqueViolation "sales_deal_pkey")
      dealColumns row v
      ensure ((v.pipelines.find? row.pipelineId).isSome) (foreignKey "sales_deal" "sales_deal_pipeline_id_fkey")
      ensure (∀ c, row.customerId = some c → (v.customers.find? c).isSome)
        (foreignKey "sales_deal" "sales_deal_customer_id_fkey")
      ensure (∀ l, row.leadId = some l → (v.leads.find? l).isSome)
        (foreignKey "sales_deal" "sales_deal_lead_id_fkey"))
    fun _ s => s.setDeals (·.insert id row)

def DEFAULT_STAGES : List String := ["New", "Qualified", "Proposal", "Negotiation", "Won", "Lost"]

/-- `ORDER BY .. LIMIT 1`; of equals the one that comes first in the table. -/
def least {α : Type} (before : α → α → Bool) : List α → Option α
  | [] => none
  | a :: as => some (as.foldl (fun b x => if before x b then x else b) a)

theorem mem_of_least {α : Type} {before : α → α → Bool} {l : List α} {x : α} (h : least before l = some x) :
    x ∈ l := by
  cases l with
  | nil => cases h
  | cons a as =>
    simp only [least, Option.some.injEq] at h
    subst h
    have hmem : ∀ (as : List α) (b : α), as.foldl (fun b x => if before x b then x else b) b ∈ b :: as := by
      intro as
      induction as with
      | nil => simp
      | cons y ys ih =>
        intro b
        rcases List.mem_cons.mp (ih (if before y b then y else b)) with hb | hys
        · rw [List.foldl_cons, hb]
          split_ifs
          · simp
          · simp
        · exact List.mem_cons_of_mem _ (List.mem_cons_of_mem _ hys)
    exact hmem as a

def firstPipeline (pipelines : Table Uuid PipelineRow) : Option Uuid :=
  (least (fun a b => (a.2.isDefault && !b.2.isDefault) ||
    (a.2.isDefault == b.2.isDefault && decide (a.2.createdAt < b.2.createdAt))) pipelines.rows).map Prod.fst

/-- The stage of a pipeline with the lowest position that `p` holds of. -/
def firstStage (stages : Table Uuid StageRow) (pipelineId : Uuid) (p : StageRow → Bool) : Option Uuid :=
  (least (fun a b => decide (a.2.position < b.2.position))
    (stages.rows.filter fun r => r.2.pipelineId = pipelineId && p r.2)).map Prod.fst

theorem of_firstStage {stages : Table Uuid StageRow} {pipelineId id : Uuid} {p : StageRow → Bool}
    (h : firstStage stages pipelineId p = some id) :
    ∃ row, stages.find? id = some row ∧ row.pipelineId = pipelineId := by
  obtain ⟨⟨k, row⟩, hrow, rfl⟩ := Option.map_eq_some_iff.mp h
  obtain ⟨hmem, hp⟩ := List.mem_filter.mp (mem_of_least hrow)
  simp only [Bool.and_eq_true, decide_eq_true_eq] at hp
  exact ⟨row, Table.find?_eq_some.mpr hmem, hp.1⟩

def eqIgnoreAsciiCase (a b : String) : Bool := a.toList.map Char.toLower = b.toList.map Char.toLower

section
variable [Formats]

/-- The stages of a new pipeline: those that are set for the organisation, or the usual ones. -/
def seededStages (ctx : RequestCtx) (pipelineId : Uuid) (seeds : List (String × Int)) : List (Uuid × StageRow) :=
  let stages := if seeds.isEmpty then DEFAULT_STAGES.zipIdx.map (fun x => (x.1, (x.2 : Int))) else seeds
  stages.zipIdx.map fun x =>
    let isWon := eqIgnoreAsciiCase x.1.1 "won"
    (ctx.fresh (11 + x.2), {
      publicId := (PublicId.mk .stage (ctx.fresh (11 + x.2))).asStr
      pipelineId
      name := x.1.1
      position := x.1.2
      probability := if isWon then 100 else 0
      isWon
      isLost := eqIgnoreAsciiCase x.1.1 "lost" })

def seedPipeline (ctx : RequestCtx) : SalesTx Uuid := do
  insertPipeline (ctx.fresh 10)
    ⟨(PublicId.mk .pipeline (ctx.fresh 10)).asStr, "Default Pipeline", true, ctx.now⟩
  let seeds ← .query fun v => v.seedStages.mergeSort fun a b => decide (a.2 ≤ b.2)
  (Prog.each insertStage (seededStages ctx (ctx.fresh 10) seeds)).bind fun _ => .pure (ctx.fresh 10)

/-- The organisation's pipeline; on first use it is seeded. -/
def ensureDefaultPipeline (ctx : RequestCtx) : SalesTx Uuid := do
  let found ← .query fun v => firstPipeline v.pipelines
  match found with
  | some id => return id
  | none => seedPipeline ctx

end

/-- The first stage that is neither won nor lost, or the first of all. -/
def defaultOpenStage (pipelineId : Uuid) : SalesTx (Option Uuid) := do
  let found ← .query fun v => firstStage v.stages pipelineId fun s => !s.isWon && !s.isLost
  match found with
  | some id => return some id
  | none => .query fun v => firstStage v.stages pipelineId fun _ => true

def noStage : AppError := ⟨.internal, "no pipeline stage available"⟩

end Noxara.Sales
