import Noxara.FinanceStatements
import Noxara.TransactionRely

/-! The inventory tables of one organisation and what their handlers share: request context, row
locks, identifier parsing, the idempotency store. Master records that were soft-deleted are left
out of the tables, as no statement modelled here sees them. -/
namespace Noxara.Inventory

open Transaction
open Finance (Uuid Timestamp Date AppError PublicId IdKind Formats validation parseIdOfKind)

structure WarehouseRow where
  publicId : String
  deriving DecidableEq

structure ItemRow where
  publicId : String
  currency : String
  reorderPointQty : Int
  allowNegativeStock : Bool
  isActive : Bool
  deriving DecidableEq

structure StockLevelRow where
  qtyOnHand : Int
  avgUnitCostMinor : Int
  deriving DecidableEq

structure MovementRow where
  publicId : String
  warehouseId : Uuid
  itemId : Uuid
  qtyDelta : Int
  unitCostMinor : Int
  currency : String
  movementType : String
  sourceType : Option String
  sourceId : Option Uuid
  idempotencyKey : Option String
  memo : Option String
  createdBy : Uuid
  deriving DecidableEq

structure DriftAlertRow where
  warehouseId : Uuid
  itemId : Uuid
  cachedQty : Int
  movementSumQty : Int
  deriving DecidableEq

inductive PurchaseOrderStatus
  | draft | issued | partiallyReceived | received | cancelled
  deriving DecidableEq

def PurchaseOrderStatus.asStr : PurchaseOrderStatus → String
  | draft => "draft"
  | issued => "issued"
  | partiallyReceived => "partially_received"
  | received => "received"
  | cancelled => "cancelled"

structure PurchaseOrderRow where
  publicId : String
  status : PurchaseOrderStatus
  currency : String
  version : Int
  deriving DecidableEq

/-- The table's check constraints on the quantities are part of the row. -/
structure PurchaseOrderLineRow where
  publicId : String
  orderId : Uuid
  itemId : Uuid
  warehouseId : Uuid
  qtyOrdered : Int
  qtyReceived : Int
  unitCostMinor : Int
  ordered : 0 < qtyOrdered
  received : 0 ≤ qtyReceived
  deriving DecidableEq

inductive GoodsReceiptStatus
  | draft | posted
  deriving DecidableEq

structure GoodsReceiptRow where
  publicId : String
  purchaseOrderId : Uuid
  status : GoodsReceiptStatus
  receivedAt : Option Timestamp := none
  journalPublicId : Option String := none
  createdAt : Timestamp
  updatedAt : Timestamp
  version : Int := 1
  deriving DecidableEq

/-- The table's check constraint on the quantity is part of the row. -/
structure GoodsReceiptLineRow where
  publicId : String
  receiptId : Uuid
  poLineId : Uuid
  itemId : Uuid
  warehouseId : Uuid
  qtyReceived : Int
  unitCostMinor : Int
  positive : 0 < qtyReceived
  deriving DecidableEq

inductive AssetStatus
  | inStock | assigned | maintenance | disposed
  deriving DecidableEq

structure AssetRow where
  publicId : String
  itemPublicId : Option String
  name : String
  assetTag : Option String
  status : AssetStatus
  acquisitionCostMinor : Int
  currency : String
  acquiredAt : Option Date
  usefulLifeMonths : Int
  salvageMinor : Int
  accumulatedDepreciationMinor : Int
  lastDepreciatedAt : Option Date
  createdAt : Timestamp
  updatedAt : Timestamp
  version : Int
  deriving DecidableEq

structure GoodsReceiptLineDto where
  id : String
  poLineId : String
  itemId : String
  warehouseId : String
  qtyReceived : Int
  unitCostMinor : Int
  deriving DecidableEq

structure GoodsReceiptDto where
  id : String
  purchaseOrderId : String
  status : GoodsReceiptStatus
  receivedAt : Option Timestamp
  journalPublicId : Option String
  lines : List GoodsReceiptLineDto
  createdAt : Timestamp
  updatedAt : Timestamp
  version : Int
  deriving DecidableEq

inductive Event
  | movementRecorded (id warehouseId itemId : String) (qtyDelta : Int) (movementType : String)
      (qtyOnHand avgUnitCostMinor : Int)
  | stockLow (id warehouseId itemId : String) (qtyOnHand reorderPointQty : Int)
  | driftDetected (id warehouseId itemId : String) (cachedQty movementSumQty : Int)
  | receiptDrafted (id purchaseOrderId : String)
  | receiptPosted (id purchaseOrderId journalPublicId : String) (totalValueMinor : Int)
      (poStatus : PurchaseOrderStatus)
  | assetDepreciated (id : String) (depreciationExpenseMinor accumulatedDepreciationMinor : Int)
      (journalPublicId : String)
  deriving DecidableEq

structure Db where
  warehouses : Table Uuid WarehouseRow
  items : Table Uuid ItemRow
  stockLevels : Table (Uuid × Uuid) StockLevelRow
  movements : Table Uuid MovementRow
  driftAlerts : Table Uuid DriftAlertRow
  purchaseOrders : Table Uuid PurchaseOrderRow
  poLines : Table Uuid PurchaseOrderLineRow
  goodsReceipts : Table Uuid GoodsReceiptRow
  goodsReceiptLines : Table Uuid GoodsReceiptLineRow
  assets : Table Uuid AssetRow
  idempotency : Table (String × String) (Int × GoodsReceiptDto)
  outbox : List Event

def Db.empty : Db :=
  ⟨.empty, .empty, .empty, .empty, .empty, .empty, .empty, .empty, .empty, .empty, .empty, []⟩

/-- A row, or the place of a row in a unique index. -/
inductive RowKey
  | stockLevel (warehouseId itemId : Uuid)
  | movement (id : Uuid)
  | movementKey (key : String)
  | driftAlert (id : Uuid)
  | purchaseOrder (id : Uuid)
  | poLine (id : Uuid)
  | goodsReceipt (id : Uuid)
  | goodsReceiptLine (id : Uuid)
  | asset (id : Uuid)
  | idempotency (scope key : String)
  deriving DecidableEq

abbrev Tx := Prog Db RowKey AppError

inductive Permission
  | goodsReceiptWrite | assetWrite
  deriving DecidableEq

/-- The body of a request to post a journal in finance. -/
structure JournalRequest where
  sourceType : String
  sourceId : Uuid
  currency : String
  memo : String
  debitAccount : String
  creditAccount : String
  amountMinor : Int
  idempotencyKey : Option String
  deriving DecidableEq

/-- What a handler takes from outside its body and its tables. `authorize` is the decision of the
membership tables, `fresh` the UUIDs the request draws, `postJournal` the answer of the finance
service: the public id of the journal, or its error. -/
structure RequestCtx extends Finance.Caller where
  authorize : Permission → Except AppError Unit
  idempotencyKey : Option String
  postJournal : JournalRequest → Except AppError String
  today : Date

section
variable [Formats]

def parsePublicId (kind : IdKind) (raw : String) : Except AppError Uuid :=
  parseIdOfKind s!"invalid id: {raw}" s!"id {raw} is not a {kind.spec.1} id" kind raw

end

namespace Idempotency

def answers : AnswerTable Db RowKey (Int × GoodsReceiptDto) where
  rows := Db.idempotency
  keep db t := { db with idempotency := t }
  lock := .idempotency

def record (key : Option String) (scope : String) (status : Int) (body : GoodsReceiptDto) : Tx Unit :=
  answers.record key scope (status, body)

end Idempotency

def insertEvent (event : Event) : Tx Unit :=
  Prog.execute (fun _ => []) (fun _ => .ok ()) fun _ db => { db with outbox := db.outbox ++ [event] }

/-- Request number `n` of an actor with every permission, with identifiers of its own. -/
def RequestCtx.nth (n : Nat) : RequestCtx where
  actorUserId := 1
  authorize _ := .ok ()
  idempotencyKey := none
  postJournal _ := .ok "jrn_1"
  now := 0
  today := (Finance.RequestCtx.nth 0).today
  fresh k := 100 * n + k

end Noxara.Inventory
