import Noxara.SalesQuotes

/-! Contracts of the CRM: a draft is changed until it is published. -/
namespace Noxara.Sales

open Transaction
open Finance (Uuid Timestamp Date Formats AppError notFound validation conflict databaseError parsePublicId i32Max)

inductive ContractStatus
  | draft | active | expired | cancelled
  deriving DecidableEq

def ContractStatus.text : ContractStatus → String
  | draft => "draft"
  | active => "active"
  | expired => "expired"
  | cancelled => "cancelled"

structure ContractRow where
  publicId : String
  customerId : Uuid
  dealId : Option Uuid
  orderId : Option Uuid
  title : String
  status : ContractStatus
  termMonths : Option Int
  startDate : Option Date
  endDate : Option Date
  valueMinor : Int
  currency : String
  autoRenew : Bool
  renewalNoticeDays : Int
  ownerUserId : Option Uuid
  publishedAt : Option Timestamp
  version : Int
  deriving DecidableEq

inductive ContractEvent
  | published (id : String) (customerId : Uuid) (title : String) (endDate : Option String) (autoRenew : Bool)
  | renewalUpcoming (id : String) (endDate : Option String) (autoRenew : Bool)
  deriving DecidableEq

structure ContractDb where
  contracts : Table Uuid ContractRow
  events : List ContractEvent
  users : List Uuid

inductive ContractLock
  | contract (id : Uuid)
  deriving DecidableEq

abbrev ContractTx (α : Type) := Prog ContractDb ContractLock AppError α

def fetchContractRow (contractId : Uuid) : ContractTx (Option ContractRow) :=
  .query fun v => v.contracts.find? contractId

/-- `UPDATE sales_contract .. WHERE org_id = $1 AND id = $2 RETURNING`. -/
def updateContractRow (contractId : Uuid) (change : ContractRow → ContractRow) : ContractTx ContractRow :=
  .executeReturning (fun _ => [.contract contractId])
    (fun v =>
      match v.contracts.find? contractId with
      | none => .error (Finance.internal "no rows returned by a query that expected to return at least one row")
      | some old => do
        ensure ((change old).version ≤ i32Max) (databaseError "integer out of range")
        ensure ((change old).currency.length ≤ 3) (databaseError "value too long for type character(3)")
        ensure (∀ u, (change old).ownerUserId = some u → u ∈ v.users)
          (foreignKey "sales_contract" "sales_contract_owner_user_id_fkey")
        return change old)
    fun _ s => { s with contracts := s.contracts.modify contractId change }

def insertContractEvent (event : ContractEvent) : ContractTx Unit :=
  .execute (fun _ => []) (fun _ => .ok ()) fun _ s => { s with events := s.events ++ [event] }

section
variable [Formats]

def parseContractDate (raw : String) : Except AppError (Option Date) :=
  match Formats.dateParseFromStr raw with
  | some d => .ok (some d)
  | none => .error (validation "date must be YYYY-MM-DD")

structure UpdateContractRequest where
  title : Option String := none
  termMonths : Option Int := none
  startDate : Option String := none
  endDate : Option String := none
  valueMinor : Option Int := none
  currency : Option String := none
  autoRenew : Option Bool := none
  renewalNoticeDays : Option Int := none
  ownerUserId : Option String := none
  status : Option String := none

def draftStatus (status : String) : Except AppError ContractStatus :=
  if status = "draft" then .ok .draft
  else if status = "cancelled" then .ok .cancelled
  else .error (validation "status on draft contract must be draft|cancelled")

/-- The columns that an update writes, from the row that was read. -/
def updatedContract (row : ContractRow) (body : UpdateContractRequest) :
    Except AppError (ContractRow → ContractRow) := do
  let startDate ← givenOr body.startDate parseContractDate row.startDate
  let endDate ← givenOr body.endDate parseContractDate row.endDate
  let ownerUserId ← givenOr body.ownerUserId (fun s => (parsePublicId .user s).map some) row.ownerUserId
  let status ← draftStatus (body.status.getD row.status.text)
  return fun r => { r with
    title := body.title.getD row.title
    termMonths := body.termMonths.or row.termMonths
    startDate
    endDate
    valueMinor := body.valueMinor.getD row.valueMinor
    currency := body.currency.getD row.currency
    autoRenew := body.autoRenew.getD row.autoRenew
    renewalNoticeDays := body.renewalNoticeDays.getD row.renewalNoticeDays
    ownerUserId
    status
    version := r.version + 1 }

/-- The contract that a request names, where its caller may work on it. -/
def namedContract (ctx : RequestCtx) (id : String) : ContractTx (Uuid × ContractRow) := do
  let contractId ← .ofExcept (parsePublicId .salesContract id)
  .ofExcept ctx.anyScope
  let row ← fetchContractRow contractId
  let row ← .okOr row (notFound "contract")
  .ofExcept (ctx.rowScope row.ownerUserId)
  return (contractId, row)

def updateContract (ctx : RequestCtx) (id : String) (body : UpdateContractRequest) : ContractTx ContractRow := do
  let (contractId, row) ← namedContract ctx id
  .require (¬(row.publishedAt.isSome ∨ row.status = .active))
    (conflict "published contract is immutable; cannot PATCH after publish")
  .ofExcept (match ctx.ifMatch with
    | some expected =>
      ensure (expected = row.version) (conflict s!"version mismatch: expected {expected}, current {row.version}")
    | none => .ok ())
  let change ← .ofExcept (updatedContract row body)
  updateContractRow contractId change

def publishedContract (now : Timestamp) (r : ContractRow) : ContractRow :=
  { r with
    status := .active
    publishedAt := some now
    version := r.version + 1 }

/-- A renewal is announced for a contract that renews itself, or ends within its notice or 90 days. -/
def renewalDue (today : Date) (r : ContractRow) : Bool :=
  r.autoRenew || r.endDate.any fun d =>
    let days := d.dayNumber - today.dayNumber
    decide (0 ≤ days ∧ days ≤ max r.renewalNoticeDays 90)

def announceRenewal (r : ContractRow) : ContractTx Unit :=
  insertContractEvent (.renewalUpcoming r.publicId (r.endDate.map (·.display)) r.autoRenew)

def publishContract (ctx : RequestCtx) (id : String) (today : Date) : ContractTx ContractRow := do
  let (contractId, row) ← namedContract ctx id
  if row.status = .active ∧ row.publishedAt.isSome then
    return row
  else
    .require (row.status = .draft) (conflict s!"cannot publish contract in status {row.status.text}")
    let updated ← updateContractRow contractId (publishedContract ctx.now)
    insertContractEvent (.published updated.publicId updated.customerId updated.title
      (updated.endDate.map (·.display)) updated.autoRenew)
    if renewalDue today updated then
      announceRenewal updated
    return updated

inductive ContractRequest
  | update (ctx : RequestCtx) (id : String) (body : UpdateContractRequest)
  | publish (ctx : RequestCtx) (id : String) (today : Date)

def ContractRequest.body : ContractRequest → ContractTx ContractRow
  | update ctx id body => updateContract ctx id body
  | publish ctx id today => publishContract ctx id today

end

end Noxara.Sales
