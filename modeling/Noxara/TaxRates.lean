import Noxara.CalendarMonths
import Noxara.FinanceStatements

/-! Tax rates. The rate of a group is never changed: a new version is created, and the one it supersedes ends the day
before. -/
namespace Noxara.Tax

open Transaction
open Finance (Uuid Timestamp AppError PublicId Formats Date trim parseOptionalPublicId notFound validation
  uniqueViolation)

structure TaxGroupRow where
  publicId : String
  name : String

structure TaxRateRow where
  publicId : String
  name : String
  rateBps : Int
  validFrom : Date
  validTo : Option Date
  taxGroupId : Option Uuid
  supersedesId : Option Uuid
  componentName : Option String
  isComponent : Bool
  createdAt : Timestamp

structure CreateTaxRateRequest where
  name : String
  rateBps : Int
  validFrom : String
  validTo : Option String := none
  taxGroupId : Option String := none
  supersedesId : Option String := none
  componentName : Option String := none
  isComponent : Bool := false

structure TaxRateDto where
  id : String
  name : String
  rateBps : Int
  validFrom : String
  validTo : Option String
  taxGroupId : Option String
  supersedesId : Option String
  componentName : Option String
  isComponent : Bool
  createdAt : Timestamp

structure Db where
  groups : Table Uuid TaxGroupRow
  rates : Table Uuid TaxRateRow

inductive RowKey
  | rate (id : Uuid)
  deriving DecidableEq

abbrev Tx := Prog Db RowKey AppError

/-- A request: `authorize` is the decision of the membership tables, `rateId` the UUID that it draws. -/
structure CreateTaxRate where
  authorize : Except AppError Unit
  rateId : Uuid
  now : Timestamp
  body : CreateTaxRateRequest

def TaxRateRow.Covers (row : TaxRateRow) (asOf : Date) : Prop :=
  row.validFrom ≤ asOf ∧ ∀ last, row.validTo = some last → asOf ≤ last

instance (row : TaxRateRow) (asOf : Date) : Decidable (row.Covers asOf) := by
  unfold TaxRateRow.Covers
  infer_instance

/-- The versions of a group: its rates that are no components, in the order of their creation. -/
def Db.versions (db : Db) (groupId : Uuid) : List (Uuid × TaxRateRow) :=
  db.rates.rows.filter fun r => r.2.taxGroupId = some groupId ∧ r.2.isComponent = false

/-- The rate as of a date: an explicit rate whatever its validity, or the group's rate that became valid last. -/
def Db.resolveRateBps (db : Db) (taxGroupId taxRateId : Option Uuid) (asOf : Date) :
    Option (Uuid × Int × Option Uuid) :=
  match taxRateId with
  | some rateId => (db.rates.find? rateId).map fun r => (rateId, r.rateBps, r.taxGroupId)
  | none =>
    match taxGroupId with
    | none => none
    | some groupId =>
      (((db.versions groupId).filter fun r => r.2.Covers asOf).mergeSort
        fun a b => b.2.validFrom ≤ a.2.validFrom).head?.map fun r => (r.1, r.2.rateBps, r.2.taxGroupId)

section
variable [Formats]

def parseDate (raw field : String) : Except AppError Date :=
  match Formats.dateParseFromStr raw with
  | some d => .ok d
  | none => .error (validation s!"{field} must be YYYY-MM-DD")

def parseValidTo (raw : Option String) : Except AppError (Option Date) :=
  match raw with
  | none => .ok none
  | some s => (parseDate s "valid_to").map some

/-- `valid_to = COALESCE(valid_to, $3)`. -/
def TaxRateRow.close (closeTo : Date) (row : TaxRateRow) : TaxRateRow :=
  { row with validTo := row.validTo.or (some closeTo) }

/-- The update takes a rate that is open or ends on the new date at the earliest. -/
def TaxRateRow.StillOn (row : TaxRateRow) (validFrom : Date) : Prop :=
  ∀ last, row.validTo = some last → validFrom ≤ last

instance (row : TaxRateRow) (validFrom : Date) : Decidable (row.StillOn validFrom) := by
  unfold TaxRateRow.StillOn
  infer_instance

def closeRate (prev : Uuid) (validFrom : Date) : Tx Unit :=
  Prog.execute (fun v => if (v.rates.find? prev).any fun r => r.StillOn validFrom then [.rate prev] else [])
    (fun _ => .ok ())
    fun _ db => { db with
      rates := db.rates.modify prev fun row => if row.StillOn validFrom then row.close validFrom.pred else row }

/-- Close the previous version the day before the new one. The group is that of the request, or else the previous
version's. -/
def supersede (group : Option Uuid) (validFrom : Date) : Option Uuid → Tx (Option Uuid)
  | none => pure group
  | some prev => do
    let row ← Prog.query (·.rates.find? prev)
    let row ← Prog.okOr row (notFound "superseded tax rate")
    closeRate prev validFrom
    pure (group.or row.taxGroupId)

def requireGroup (group : Option Uuid) : Tx Unit :=
  match group with
  | none => pure ()
  | some gid => do
    let found ← Prog.query (·.groups.find? gid)
    Prog.require (found.isSome = true) (notFound "tax group")

def CreateTaxRate.row (op : CreateTaxRate) (validFrom : Date) (validTo : Option Date)
    (group supersedes : Option Uuid) : TaxRateRow where
  publicId := (PublicId.mk .taxRate op.rateId).asStr
  name := trim op.body.name
  rateBps := op.body.rateBps
  validFrom := validFrom
  validTo := validTo
  taxGroupId := group
  supersedesId := supersedes
  componentName := op.body.componentName
  isComponent := op.body.isComponent
  createdAt := op.now

def insertRate (id : Uuid) (row : TaxRateRow) : Tx Unit :=
  Prog.execute (fun _ => [.rate id])
    (fun v => if (v.rates.find? id).isSome then .error (uniqueViolation "finance_tax_rate_pkey") else .ok ())
    fun _ db => { db with rates := db.rates.insert id row }

def Db.fetchRateDto (db : Db) (id : Uuid) : Option TaxRateDto :=
  (db.rates.find? id).map fun r =>
    { id := r.publicId
      name := r.name
      rateBps := r.rateBps
      validFrom := r.validFrom.display
      validTo := r.validTo.map Date.display
      taxGroupId := r.taxGroupId.bind fun g => (db.groups.find? g).map (·.publicId)
      supersedesId := r.supersedesId.bind fun p => (db.rates.find? p).map (·.publicId)
      componentName := r.componentName
      isComponent := r.isComponent
      createdAt := r.createdAt }

def createTaxRate (op : CreateTaxRate) : Tx TaxRateDto := do
  Prog.ofExcept op.authorize
  Prog.require (trim op.body.name ≠ "") (validation "name is required")
  Prog.require (0 ≤ op.body.rateBps) (validation "rate_bps must be >= 0")
  let validFrom ← Prog.ofExcept (parseDate op.body.validFrom "valid_from")
  let validTo ← Prog.ofExcept (parseValidTo op.body.validTo)
  Prog.require (∀ last, validTo = some last → validFrom ≤ last) (validation "valid_to must be >= valid_from")
  let group ← Prog.ofExcept (parseOptionalPublicId .taxGroup op.body.taxGroupId)
  let supersedes ← Prog.ofExcept (parseOptionalPublicId .taxRate op.body.supersedesId)
  let group ← supersede group validFrom supersedes
  requireGroup group
  insertRate op.rateId (op.row validFrom validTo group supersedes)
  let dto ← Prog.query (·.fetchRateDto op.rateId)
  Prog.okOr dto (notFound "tax rate")

end

end Noxara.Tax
