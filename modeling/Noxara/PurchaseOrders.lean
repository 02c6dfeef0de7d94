import Noxara.InventoryReceipts
import Noxara.TransactionRows

/-! Purchase orders drafted from an approved purchase request. The request is read without a lock; the order
and its lines are written; and only then is the request marked as converted. -/
namespace Noxara.Purchasing

open Transaction
open Finance (Uuid Timestamp AppError PublicId Formats Currency i32Max saturateI64 notFound validation conflict
  uniqueViolation databaseError)
open Inventory (WarehouseRow ItemRow PurchaseOrderStatus parsePublicId)

structure SupplierRow where
  publicId : String

inductive PurchaseRequestStatus
  | draft | pendingApproval | approved | rejected | cancelled | converted
  deriving DecidableEq

def PurchaseRequestStatus.asStr : PurchaseRequestStatus → String
  | draft => "draft"
  | pendingApproval => "pending_approval"
  | approved => "approved"
  | rejected => "rejected"
  | cancelled => "cancelled"
  | converted => "converted"

structure PurchaseRequestRow where
  publicId : String
  status : PurchaseRequestStatus
  version : Int

structure OrderRow where
  publicId : String
  supplierId : Uuid
  purchaseRequestId : Option Uuid
  status : PurchaseOrderStatus
  currency : String
  totalAmountMinor : Int
  ownerUserId : Uuid
  issuedAt : Option Timestamp := none
  createdAt : Timestamp
  updatedAt : Timestamp
  version : Int := 1

/-- The table's check constraints on quantity and cost are part of the row. -/
structure OrderLineRow where
  publicId : String
  orderId : Uuid
  itemId : Uuid
  warehouseId : Uuid
  qtyOrdered : Int
  unitCostMinor : Int
  lineAmountMinor : Int
  qtyReceived : Int := 0
  ordered : 0 < qtyOrdered
  priced : 0 ≤ unitCostMinor

structure PurchaseOrderLineDto where
  id : String
  itemId : String
  warehouseId : String
  qtyOrdered : Int
  qtyReceived : Int
  unitCostMinor : Int
  lineAmountMinor : Int

structure PurchaseOrderDto where
  id : String
  supplierId : String
  purchaseRequestId : Option String
  status : String
  currency : String
  totalAmountMinor : Int
  issuedAt : Option Timestamp
  lines : List PurchaseOrderLineDto
  createdAt : Timestamp
  updatedAt : Timestamp
  version : Int

structure CreatePurchaseOrderLineRequest where
  itemId : String
  warehouseId : String
  qtyOrdered : Int
  unitCostMinor : Int

structure CreatePurchaseOrderRequest where
  supplierId : String
  purchaseRequestId : Option String := none
  currency : String
  lines : List CreatePurchaseOrderLineRequest

/-- `inventory.purchase_order.drafted`. -/
structure OrderDrafted where
  id : String
  totalAmountMinor : Int

/-- The lines come in the order of their creation. Their ids are drawn new and read by nobody here. -/
structure Db where
  suppliers : Table Uuid SupplierRow
  items : Table Uuid ItemRow
  warehouses : Table Uuid WarehouseRow
  requests : Table Uuid PurchaseRequestRow
  orders : Table Uuid OrderRow
  lines : List OrderLineRow
  outbox : List OrderDrafted

inductive RowKey
  | order (id : Uuid)
  | request (id : Uuid)
  deriving DecidableEq

abbrev Tx := Prog Db RowKey AppError

/-- `authorize` is the decision of the membership tables, `fresh` the UUIDs that the request draws. -/
structure RequestCtx extends Finance.Caller where
  authorize : Except AppError Unit

def Db.linesOf (db : Db) (orderId : Uuid) : List OrderLineRow := db.lines.filter fun l => l.orderId = orderId

/-- The row joined with its supplier, which has to be there, and its purchase request. -/
def Db.fetchPo (db : Db) (poId : Uuid) : Option (OrderRow × SupplierRow × Option PurchaseRequestRow) := do
  let po ← db.orders.find? poId
  let supplier ← db.suppliers.find? po.supplierId
  pure (po, supplier, po.purchaseRequestId.bind db.requests.find?)

def Db.lineDto (db : Db) (l : OrderLineRow) : Option PurchaseOrderLineDto := do
  let item ← db.items.find? l.itemId
  let warehouse ← db.warehouses.find? l.warehouseId
  pure ⟨l.publicId, item.publicId, warehouse.publicId, l.qtyOrdered, l.qtyReceived, l.unitCostMinor,
    l.lineAmountMinor⟩

def Db.fetchPoLines (db : Db) (poId : Uuid) : List PurchaseOrderLineDto := (db.linesOf poId).filterMap db.lineDto

def fetchPo (poId : Uuid) : Tx (OrderRow × SupplierRow × Option PurchaseRequestRow) := do
  Prog.okOr (← Prog.query fun db => db.fetchPo poId) (notFound "purchase order")

def toDto (poId : Uuid) (row : OrderRow × SupplierRow × Option PurchaseRequestRow) : Tx PurchaseOrderDto := do
  let lines ← Prog.query fun db => db.fetchPoLines poId
  let po := row.1
  pure
    { id := po.publicId
      supplierId := row.2.1.publicId
      purchaseRequestId := row.2.2.map (·.publicId)
      status := po.status.asStr
      currency := po.currency
      totalAmountMinor := po.totalAmountMinor
      issuedAt := po.issuedAt
      lines
      createdAt := po.createdAt
      updatedAt := po.updatedAt
      version := po.version }

def insertOrder (id : Uuid) (row : OrderRow) : Tx Unit :=
  Prog.execute (fun _ => [.order id])
    (fun db =>
      if (db.orders.find? id).isSome then .error (uniqueViolation "inventory_purchase_order_pkey") else .ok ())
    fun _ db => { db with orders := db.orders.insert id row }

def insertLine (row : OrderLineRow) : Tx Unit :=
  Prog.execute (fun _ => []) (fun _ => .ok ()) fun _ db => { db with lines := db.lines ++ [row] }

def PurchaseRequestRow.convert (row : PurchaseRequestRow) : PurchaseRequestRow :=
  { row with
    status := .converted
    version := row.version + 1 }

/-- `UPDATE .. SET status = 'converted' WHERE id = $2`, whatever the status is. -/
def convertRequest (id : Uuid) : Tx Unit :=
  Prog.execute (fun _ => [.request id])
    (fun db =>
      match db.requests.find? id with
      | some row => if row.version + 1 ≤ i32Max then .ok () else .error (databaseError "integer out of range")
      | none => .ok ())
    fun _ db => { db with requests := db.requests.modify id (·.convert) }

def insertEvent (event : OrderDrafted) : Tx Unit :=
  Prog.execute (fun _ => []) (fun _ => .ok ()) fun _ db => { db with outbox := db.outbox ++ [event] }

/-- A line of a request with the rows it names. -/
structure ResolvedLine where
  itemId : Uuid
  warehouseId : Uuid
  qtyOrdered : Int
  unitCostMinor : Int
  lineAmount : Int
  ordered : 0 < qtyOrdered
  priced : 0 ≤ unitCostMinor

section
variable [Formats]

def resolvePurchaseRequest : Option String → Tx (Option Uuid)
  | none => pure none
  | some raw => do
    let id ← Prog.ofExcept (parsePublicId .purchaseRequest raw)
    let found ← Prog.query fun db => db.requests.find? id
    let row ← Prog.okOr found (notFound "purchase request")
    let status := row.status.asStr
    Prog.require (row.status = .approved) (conflict s!"purchase request status {status} is not approved")
    pure (some id)

def resolveLine (line : CreatePurchaseOrderLineRequest) : Tx ResolvedLine :=
  if hq : 0 < line.qtyOrdered then
    if hc : 0 ≤ line.unitCostMinor then do
      let itemId ← Prog.ofExcept (parsePublicId .inventoryItem line.itemId)
      let warehouseId ← Prog.ofExcept (parsePublicId .warehouse line.warehouseId)
      let _ ← Prog.okOr (← Prog.query fun db => db.items.find? itemId) (notFound "item")
      let _ ← Prog.okOr (← Prog.query fun db => db.warehouses.find? warehouseId) (notFound "warehouse")
      pure ⟨itemId, warehouseId, line.qtyOrdered, line.unitCostMinor,
        saturateI64 (line.qtyOrdered * line.unitCostMinor), hq, hc⟩
    else .fail (validation "unit_cost_minor must be >= 0")
  else .fail (validation "qty_ordered must be > 0")

/-- The lines in order, with the total so far and theirs. -/
def resolveLines (totalAmountMinor : Int) : List CreatePurchaseOrderLineRequest → Tx (Int × List ResolvedLine)
  | [] => pure (totalAmountMinor, [])
  | line :: lines => do
    let resolved ← resolveLine line
    let rest ← resolveLines (saturateI64 (totalAmountMinor + resolved.lineAmount)) lines
    pure (rest.1, resolved :: rest.2)

def ResolvedLine.row (line : ResolvedLine) (poId lineId : Uuid) : OrderLineRow where
  publicId := (PublicId.mk .purchaseOrderLine lineId).asStr
  orderId := poId
  itemId := line.itemId
  warehouseId := line.warehouseId
  qtyOrdered := line.qtyOrdered
  unitCostMinor := line.unitCostMinor
  lineAmountMinor := line.lineAmount
  ordered := line.ordered
  priced := line.priced

def convertNamed : Option Uuid → Tx Unit
  | some id => convertRequest id
  | none => pure ()

def createPurchaseOrder (ctx : RequestCtx) (body : CreatePurchaseOrderRequest) : Tx (Nat × PurchaseOrderDto) := do
  Prog.ofExcept ctx.authorize
  Prog.require (body.lines ≠ []) (validation "at least one line is required")
  let _ ← Prog.ofExcept ((Currency.new body.currency).mapError fun _ => validation "invalid currency")
  let supplierId ← Prog.ofExcept (parsePublicId .supplier body.supplierId)
  let _ ← Prog.okOr (← Prog.query fun db => db.suppliers.find? supplierId) (notFound "supplier")
  let purchaseRequestId ← resolvePurchaseRequest body.purchaseRequestId
  let resolved ← resolveLines 0 body.lines
  let poId := ctx.fresh 0
  insertOrder poId
    { publicId := (PublicId.mk .purchaseOrder poId).asStr
      supplierId
      purchaseRequestId
      status := .draft
      currency := body.currency
      totalAmountMinor := resolved.1
      ownerUserId := ctx.actorUserId
      createdAt := ctx.now
      updatedAt := ctx.now }
  Prog.each insertLine (resolved.2.mapIdx fun k line => line.row poId (ctx.fresh (k + 1)))
  convertNamed purchaseRequestId
  let row ← fetchPo poId
  let dto ← toDto poId row
  insertEvent ⟨dto.id, dto.totalAmountMinor⟩
  pure (201, dto)

end

end Noxara.Purchasing
