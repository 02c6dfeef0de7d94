import Noxara.SalesPipelines

/-! Leads of the CRM: how one is edited, qualified, disqualified, and converted to a customer with a deal. -/
namespace Noxara.Sales

open Transaction
open Finance (Uuid Formats PublicId AppError internal notFound conflict uniqueViolation databaseError
  parsePublicId i32Max trim)

/-- What Postgres computes of texts: lower case, the similarity of trigrams, and `ILIKE`. -/
class TextSearch where
  lower : String → String
  similarity : String → String → Rat
  ilike : String → String → Bool

def threes : List Char → List (List Char)
  | a :: b :: c :: rest => [a, b, c] :: threes (b :: c :: rest)
  | _ => []

/-- The trigrams of the words of a text, with two blanks before each word and one after. -/
def trigrams (s : String) : List (List Char) :=
  let words := ((s.toList.map Char.toLower).splitOnP fun c => !c.isAlphanum).filter (· ≠ [])
  (words.flatMap fun w => threes (' ' :: ' ' :: w ++ [' '])).eraseDups

/-- `LIKE`, on a pattern. -/
def likeChars : List Char → List Char → Bool
  | [], s => s.isEmpty
  | '%' :: p, s => s.tails.any (likeChars p)
  | '_' :: p, _ :: s => likeChars p s
  | '\\' :: c :: p, d :: s => c = d && likeChars p s
  | c :: p, d :: s => c = d && likeChars p s
  | _ :: _, [] => false

/-- The search of ASCII texts, but for the rounding of a similarity to single precision. -/
@[reducible] def asciiSearch : TextSearch where
  lower s := String.ofList (s.toList.map Char.toLower)
  similarity a b := ((trigrams a).filter (trigrams b).contains).length / ((trigrams a ++ trigrams b).eraseDups).length
  ilike s pattern := likeChars (pattern.toList.map Char.toLower) (s.toList.map Char.toLower)

/-- The double nearest to 0.4. -/
def NAME_SIMILARITY_THRESHOLD : Rat := 3602879701896397 / 9007199254740992

/-- A row that may be a duplicate. -/
structure Candidate where
  publicId : String
  name : String
  email : Option String

section
variable [TextSearch]
open TextSearch

def exactMatches (rows : SalesDb → List Candidate) (email : Option String) : SalesTx (List Candidate) :=
  match (email.map trim).filter (· ≠ "") with
  | none => return []
  | some e => .query fun v => (rows v).filter fun c => c.email.any fun a => lower a = lower e

def nearMatches (rows : SalesDb → List Candidate) (name : String) : SalesTx (List (Candidate × Rat)) :=
  if trim name = "" then return []
  else .query fun v =>
    let scored := (rows v).map fun c => (c, similarity c.name (trim name))
    let near := scored.filter fun x =>
      NAME_SIMILARITY_THRESHOLD < x.2 || ilike x.1.name ("%" ++ trim name ++ "%")
    (near.mergeSort fun a b => decide (b.2 ≤ a.2)).take 10

/-- Those with the e-mail looked for, then those with a name near to the one looked for. -/
def findDuplicates (rows named : SalesDb → List Candidate) (asMatch : Candidate → Rat → String → DuplicateMatch)
    (name : String) (email : Option String) : SalesTx (List DuplicateMatch) := do
  let exact ← exactMatches rows email
  let near ← nearMatches named name
  return near.foldl (fun out x =>
      let m := asMatch x.1 x.2 "near_name"
      if out.any fun o => o.customerId = m.customerId && o.leadId = m.leadId then out else out ++ [m])
    (exact.map fun c => asMatch c 1 "exact_email")

def findCustomerDuplicates : String → Option String → SalesTx (List DuplicateMatch) :=
  let customers (v : SalesDb) := v.customers.values.map fun c => ⟨c.publicId, c.name, c.email⟩
  findDuplicates customers customers fun c score reason => ⟨some c.publicId, none, c.name, c.email, score, reason⟩

/-- Leads that are done with have no near names. -/
def findLeadDuplicates : String → Option String → SalesTx (List DuplicateMatch) :=
  let candidates (rows : List LeadRow) := rows.map fun l => (⟨l.publicId, l.name, l.email⟩ : Candidate)
  findDuplicates (fun v => candidates v.leads.values)
    (fun v => candidates (v.leads.values.filter fun l => l.status ≠ .converted ∧ l.status ≠ .disqualified))
    fun c score reason => ⟨none, some c.publicId, c.name, c.email, score, reason⟩

/-- Duplicates of what a lead becomes, the lead itself apart. -/
def duplicatesOf (row : LeadRow) (customerName : String) : SalesTx (List DuplicateMatch) := do
  let leads ← findLeadDuplicates customerName row.email
  let customers ← findCustomerDuplicates customerName row.email
  return leads.filter (fun m => m.leadId ≠ some row.publicId) ++ customers

end

def fetchLead (leadId : Uuid) : SalesTx (Option LeadRow) := .query fun v => v.leads.find? leadId

def fetchCustomer (customerId : Uuid) : SalesTx (Option CustomerRow) :=
  .query fun v => v.customers.find? customerId

/-- The columns that an `UPDATE sales_lead` sets besides those that `change` says. -/
def leadWith (status : LeadStatus) (change : LeadRow → LeadRow) (r : LeadRow) : LeadRow :=
  { change r with
    status
    version := r.version + 1 }

def leadStatusCheck : AppError :=
  databaseError "new row for relation \"sales_lead\" violates check constraint \"sales_lead_status_check\""

/-- `UPDATE sales_lead .. WHERE org_id = $1 AND id = $2 RETURNING`; no `status` is one that the column does
not take. -/
def updateLeadRow (leadId : Uuid) (status : Option LeadStatus) (change : LeadRow → LeadRow) : SalesTx LeadRow :=
  .executeReturning (fun _ => [.lead leadId])
    (fun v =>
      match v.leads.find? leadId, status with
      | none, _ => .error (internal "no rows returned by a query that expected to return at least one row")
      | some _, none => .error leadStatusCheck
      | some old, some status => do
        let new := leadWith status change old
        ensure (new.version ≤ i32Max) (databaseError "integer out of range")
        ensure (∀ u, new.ownerUserId = some u → u ∈ v.users)
          (foreignKey "sales_lead" "sales_lead_owner_user_id_fkey")
        ensure (∀ c, new.convertedCustomerId = some c → (v.customers.find? c).isSome)
          (foreignKey "sales_lead" "sales_lead_converted_customer_id_fkey")
        ensure (∀ d, new.convertedDealId = some d → (v.deals.find? d).isSome)
          (foreignKey "sales_lead" "sales_lead_converted_deal_id_fkey")
        return new)
    fun _ s => status.elim s fun status => s.setLeads (·.modify leadId (leadWith status change))

def insertContact (row : ContactRow) : SalesTx Unit :=
  .execute (fun _ => [])
    (fun v => do
      ensure ((v.customers.find? row.customerId).isSome) (foreignKey "sales_contact" "sales_contact_customer_id_fkey")
      ensure (∀ u, row.ownerUserId = some u → u ∈ v.users)
        (foreignKey "sales_contact" "sales_contact_owner_user_id_fkey"))
    fun _ s => { s with contacts := s.contacts ++ [row] }

def insertCustomer [TextSearch] (id : Uuid) (row : CustomerRow) : SalesTx Unit :=
  let mail := row.email.map TextSearch.lower
  .execute (fun _ => .customer id :: (mail.map .customerEmail).toList)
    (fun v => do
      ensure (v.customers.find? id = none) (uniqueViolation "sales_customer_pkey")
      ensure (∀ e, mail = some e → ∀ c ∈ v.customers.values, c.email.map TextSearch.lower ≠ some e)
        (uniqueViolation "sales_customer_org_email_unique_idx")
      ensure (∀ u, row.ownerUserId = some u → u ∈ v.users)
        (foreignKey "sales_customer" "sales_customer_owner_user_id_fkey"))
    fun _ s => s.setCustomers (·.insert id row)

section
variable [Formats]

/-- The lead, where the caller may work on it. -/
def ownedLead (ctx : RequestCtx) (leadId : Uuid) : SalesTx LeadRow := do
  let row ← fetchLead leadId
  let row ← .okOr row (notFound "lead")
  .ofExcept (ctx.rowScope row.ownerUserId)
  return row

structure UpdateLeadRequest where
  name : Option String := none
  email : Option String := none
  phone : Option String := none
  companyName : Option String := none
  source : Option String := none
  status : Option String := none
  score : Option Int := none
  ownerUserId : Option String := none
  notes : Option String := none

/-- The status that an update writes: the one it is given, or the one it read. -/
def UpdateLeadRequest.written (body : UpdateLeadRequest) (row : LeadRow) : Option LeadStatus :=
  match body.status with
  | some s => LeadStatus.ofText s
  | none => some row.status

/-- The other columns that an update writes, from the row that was read. -/
def UpdateLeadRequest.change (body : UpdateLeadRequest) (row : LeadRow) (ownerUserId : Option Uuid)
    (r : LeadRow) : LeadRow :=
  { r with
    name := body.name.getD row.name
    email := body.email.or row.email
    phone := body.phone.or row.phone
    companyName := body.companyName.or row.companyName
    source := body.source.or row.source
    score := body.score.getD row.score
    ownerUserId
    notes := body.notes.or row.notes }

def updateLead (ctx : RequestCtx) (id : String) (body : UpdateLeadRequest) : SalesTx (Nat × SalesAnswer) := do
  let leadId ← .ofExcept (parsePublicId .lead id)
  .ofExcept ctx.anyScope
  let row ← ownedLead ctx leadId
  .ofExcept (match ctx.ifMatch with
    | some expected =>
      ensure (expected = row.version) (conflict s!"version mismatch: expected {expected}, current {row.version}")
    | none => .ok ())
  let ownerUserId ← .ofExcept
    (givenOr body.ownerUserId (fun s => (parsePublicId .user s).map some) row.ownerUserId)
  let updated ← updateLeadRow leadId (body.written row) (body.change row ownerUserId)
  return (200, .lead updated)

def transitionStatus (ctx : RequestCtx) (id : String) (newStatus : LeadStatus) : SalesTx (Nat × SalesAnswer) := do
  let leadId ← .ofExcept (parsePublicId .lead id)
  .ofExcept ctx.anyScope
  let row ← ownedLead ctx leadId
  .require (row.status ≠ .converted) (conflict "lead already converted")
  let updated ← updateLeadRow leadId (some newStatus) fun r => r
  return (200, .lead updated)

def qualifyLead (ctx : RequestCtx) (id : String) : SalesTx (Nat × SalesAnswer) :=
  transitionStatus ctx id .qualified

def disqualifyLead (ctx : RequestCtx) (id : String) : SalesTx (Nat × SalesAnswer) :=
  transitionStatus ctx id .disqualified

structure ConvertLeadRequest where
  dealName : Option String := none
  amountMinor : Option Int := none
  currency : Option String := none
  force : Bool := false

def existingConversion (row : LeadRow) : SalesTx (Nat × SalesAnswer) :=
  match row.convertedCustomerId, row.convertedDealId with
  | some customerId, some dealId => do
    let customer ← fetchCustomer customerId
    let customer ← .okOr customer (notFound "converted customer")
    let deal ← fetchDealRow dealId
    let deal ← .okOr deal (notFound "converted deal")
    return (200, .conversion row customer deal)
  | _, _ => .fail (conflict "lead already converted")

def customerName (row : LeadRow) : String := (row.companyName.filter fun s => trim s ≠ "").getD row.name

def opportunity (ctx : RequestCtx) (leadId : Uuid) (row : LeadRow) (body : ConvertLeadRequest)
    (pipelineId stageId : Uuid) : DealRow where
  publicId := (PublicId.mk .deal (ctx.fresh 2)).asStr
  pipelineId
  stageId
  customerId := some (ctx.fresh 0)
  leadId := some leadId
  name := body.dealName.getD s!"{customerName row} opportunity"
  amountMinor := body.amountMinor.getD 0
  currency := body.currency.getD "USD"
  probability := none
  expectedCloseDate := none
  ownerUserId := some (row.ownerUserId.getD ctx.actorUserId)
  status := .open
  wonReason := none
  lostReason := none
  wonAt := none
  lostAt := none
  version := 1

variable [TextSearch]

/-- The customer with its first contact. -/
def insertConverted (ctx : RequestCtx) (row : LeadRow) : SalesTx Unit := do
  let ownerUserId := some (row.ownerUserId.getD ctx.actorUserId)
  insertCustomer (ctx.fresh 0)
    ⟨(PublicId.mk .customer (ctx.fresh 0)).asStr, customerName row, row.email, row.phone, ownerUserId⟩
  insertContact ⟨(PublicId.mk .contact (ctx.fresh 1)).asStr, ctx.fresh 0, row.name, "", row.email, row.phone, true,
    ownerUserId⟩

def createConversion (ctx : RequestCtx) (leadId : Uuid) (row : LeadRow) (body : ConvertLeadRequest) :
    SalesTx (Nat × SalesAnswer) := do
  insertConverted ctx row
  let pipelineId ← ensureDefaultPipeline ctx
  let stageId ← defaultOpenStage pipelineId
  let stageId ← .okOr stageId noStage
  let deal := opportunity ctx leadId row body pipelineId stageId
  insertDeal (ctx.fresh 2) deal
  let lead ← updateLeadRow leadId (some .converted) fun r => { r with
    convertedCustomerId := some (ctx.fresh 0)
    convertedDealId := some (ctx.fresh 2) }
  let customerPublic := (PublicId.mk .customer (ctx.fresh 0)).asStr
  insertSalesEvent (.customerCreated customerPublic (customerName row) "lead_conversion")
  insertSalesEvent (.leadConverted lead.publicId customerPublic deal.publicId)
  let deal ← fetchDealRow (ctx.fresh 2)
  let deal ← .okOr deal ⟨.internal, "deal missing after insert"⟩
  let customer ← fetchCustomer (ctx.fresh 0)
  let customer ← .okOr customer ⟨.internal, "customer missing after insert"⟩
  putSalesAnswer "lead.convert" ctx.idempotencyKey (.conversion lead customer deal)
  return (201, .conversion lead customer deal)

def convertUnless (found : List DuplicateMatch) (conversion : SalesTx (Nat × SalesAnswer)) :
    SalesTx (Nat × SalesAnswer) :=
  if found = [] then conversion else return (409, .duplicates found)

def convertOwned (ctx : RequestCtx) (leadId : Uuid) (body : ConvertLeadRequest) : SalesTx (Nat × SalesAnswer) := do
  let row ← ownedLead ctx leadId
  if row.status = .converted then
    existingConversion row
  else if body.force then
    createConversion ctx leadId row body
  else
    let found ← duplicatesOf row (customerName row)
    convertUnless found (createConversion ctx leadId row body)

def convertLead (ctx : RequestCtx) (id : String) (body : ConvertLeadRequest) : SalesTx (Nat × SalesAnswer) := do
  let leadId ← .ofExcept (parsePublicId .lead id)
  .ofExcept ctx.anyScope
  replayOr "lead.convert" ctx.idempotencyKey (convertOwned ctx leadId body)

inductive LeadRequest
  | update (ctx : RequestCtx) (id : String) (body : UpdateLeadRequest)
  | qualify (ctx : RequestCtx) (id : String)
  | disqualify (ctx : RequestCtx) (id : String)
  | convert (ctx : RequestCtx) (id : String) (body : ConvertLeadRequest)

def LeadRequest.body : LeadRequest → SalesTx (Nat × SalesAnswer)
  | update ctx id body => updateLead ctx id body
  | qualify ctx id => qualifyLead ctx id
  | disqualify ctx id => disqualifyLead ctx id
  | convert ctx id body => convertLead ctx id body

end

end Noxara.Sales
