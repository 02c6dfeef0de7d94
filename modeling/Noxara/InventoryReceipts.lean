import Noxara.InventoryStock

/-! Goods receipts: a draft is checked against what its purchase order has left, posting it adds its
lines to the stock and to the order. -/
namespace Noxara.Inventory

open Transaction
open Finance (Uuid PublicId Formats InI64 saturateI64 i32Max internal notFound validation conflict
  uniqueViolation databaseError)

structure CreateGoodsReceiptLineRequest where
  poLineId : String
  qtyReceived : Int
  unitCostMinor : Option Int := none

structure CreateGoodsReceiptRequest where
  purchaseOrderId : String
  lines : List CreateGoodsReceiptLineRequest

structure Response where
  status : Nat
  body : GoodsReceiptDto
  deriving DecidableEq

/-- The row joined with its purchase order, which has to be there. -/
def Db.fetchGrn (db : Db) (grnId : Uuid) : Option (GoodsReceiptRow × PurchaseOrderRow) :=
  (db.goodsReceipts.find? grnId).bind fun g => (db.purchaseOrders.find? g.purchaseOrderId).map (g, ·)

theorem Db.fetchGrn_some {db : Db} {grnId : Uuid} {found : GoodsReceiptRow × PurchaseOrderRow}
    (h : db.fetchGrn grnId = some found) : db.goodsReceipts.find? grnId = some found.1 := by
  obtain ⟨g, hg, hpo⟩ := Option.bind_eq_some_iff.mp h
  obtain ⟨po, -, rfl⟩ := Option.map_eq_some_iff.mp hpo
  exact hg

def fetchGrn (grnId : Uuid) : Tx (GoodsReceiptRow × PurchaseOrderRow) := do
  Prog.okOr (← Prog.query fun db => db.fetchGrn grnId) (notFound "goods receipt")

/-- The lines of a receipt, in the order of their creation. -/
def Db.receiptLines (db : Db) (grnId : Uuid) : List GoodsReceiptLineRow :=
  db.goodsReceiptLines.values.filter fun l => l.receiptId = grnId

def Db.lineDto (db : Db) (l : GoodsReceiptLineRow) : Option GoodsReceiptLineDto := do
  let poLine ← db.poLines.find? l.poLineId
  let item ← db.items.find? l.itemId
  let warehouse ← db.warehouses.find? l.warehouseId
  pure
    { id := l.publicId
      poLineId := poLine.publicId
      itemId := item.publicId
      warehouseId := warehouse.publicId
      qtyReceived := l.qtyReceived
      unitCostMinor := l.unitCostMinor }

/-- The lines joined with the order's line, the item and the warehouse. -/
def Db.fetchGrnLines (db : Db) (grnId : Uuid) : List GoodsReceiptLineDto :=
  (db.receiptLines grnId).filterMap db.lineDto

def toDto (grnId : Uuid) (row : GoodsReceiptRow × PurchaseOrderRow) : Tx GoodsReceiptDto := do
  let lines ← Prog.query fun db => db.fetchGrnLines grnId
  pure
    { id := row.1.publicId
      purchaseOrderId := row.2.publicId
      status := row.1.status
      receivedAt := row.1.receivedAt
      journalPublicId := row.1.journalPublicId
      lines
      createdAt := row.1.createdAt
      updatedAt := row.1.updatedAt
      version := row.1.version }

/-- A line of a request checked against its order's line. -/
structure ResolvedLine where
  poLineId : Uuid
  itemId : Uuid
  warehouseId : Uuid
  qtyReceived : Int
  unitCostMinor : Int
  positive : 0 < qtyReceived

def insertGoodsReceipt (id : Uuid) (row : GoodsReceiptRow) : Tx Unit :=
  Prog.execute (fun _ => [.goodsReceipt id])
    (fun db =>
      if (db.goodsReceipts.find? id).isSome then .error (uniqueViolation "inventory_goods_receipt_pkey")
      else .ok ())
    fun _ db => { db with goodsReceipts := db.goodsReceipts.insert id row }

def insertGoodsReceiptLine (id : Uuid) (row : GoodsReceiptLineRow) : Tx Unit :=
  Prog.execute (fun _ => [.goodsReceiptLine id])
    (fun db =>
      if (db.goodsReceiptLines.find? id).isSome then
        .error (uniqueViolation "inventory_goods_receipt_line_pkey")
      else .ok ())
    fun _ db => { db with goodsReceiptLines := db.goodsReceiptLines.insert id row }

def answerDrafted (grnId : Uuid) : Tx Response := do
  let row ← fetchGrn grnId
  let dto ← toDto grnId row
  insertEvent (.receiptDrafted dto.id dto.purchaseOrderId)
  pure ⟨201, dto⟩

section
variable [Formats]

def resolveLine (poId : Uuid) (line : CreateGoodsReceiptLineRequest) : Tx ResolvedLine :=
  if h : 0 < line.qtyReceived then do
    let poLineId ← Prog.ofExcept (parsePublicId .purchaseOrderLine line.poLineId)
    let found ← Prog.query fun db => (db.poLines.find? poLineId).filter fun r => r.orderId = poId
    let poLine ← Prog.okOr found (notFound "purchase order line")
    let qty := line.qtyReceived
    let remaining := poLine.qtyOrdered - poLine.qtyReceived
    Prog.require (qty ≤ remaining)
      (validation s!"qty_received {qty} exceeds remaining qty {remaining} for line")
    let unitCostMinor := line.unitCostMinor.getD poLine.unitCostMinor
    Prog.require (0 ≤ unitCostMinor) (validation "unit_cost_minor must be >= 0")
    pure ⟨poLineId, poLine.itemId, poLine.warehouseId, qty, unitCostMinor, h⟩
  else .fail (validation "qty_received must be > 0")

def resolveLines (poId : Uuid) : List CreateGoodsReceiptLineRequest → Tx (List ResolvedLine)
  | [] => pure []
  | line :: lines => do
    let resolved ← resolveLine poId line
    let rest ← resolveLines poId lines
    pure (resolved :: rest)

/-- The lines of the draft `grnId`; the request draws their identifiers from number `k` on. -/
def insertLines (ctx : RequestCtx) (grnId : Uuid) : Nat → List ResolvedLine → Tx Unit
  | _, [] => pure ()
  | k, line :: lines => do
    insertGoodsReceiptLine (ctx.fresh k)
      { publicId := (PublicId.mk .goodsReceiptLine (ctx.fresh k)).asStr
        receiptId := grnId
        poLineId := line.poLineId
        itemId := line.itemId
        warehouseId := line.warehouseId
        qtyReceived := line.qtyReceived
        unitCostMinor := line.unitCostMinor
        positive := line.positive }
    insertLines ctx grnId (k + 1) lines

def createGoodsReceipt (ctx : RequestCtx) (body : CreateGoodsReceiptRequest) : Tx Response := do
  Prog.ofExcept (ctx.authorize .goodsReceiptWrite)
  Prog.require (body.lines ≠ []) (validation "at least one line is required")
  let poId ← Prog.ofExcept (parsePublicId .purchaseOrder body.purchaseOrderId)
  let po ← Prog.okOr (← Prog.query fun db => db.purchaseOrders.find? poId) (notFound "purchase order")
  let status := po.status.asStr
  Prog.require (po.status = .issued ∨ po.status = .partiallyReceived)
    (conflict s!"purchase order status {status} cannot receive goods")
  let resolved ← resolveLines poId body.lines
  let grnId := ctx.fresh 0
  insertGoodsReceipt grnId
    { publicId := (PublicId.mk .goodsReceipt grnId).asStr
      purchaseOrderId := poId
      status := .draft
      createdAt := ctx.now
      updatedAt := ctx.now }
  insertLines ctx grnId 1 resolved
  answerDrafted grnId

end

def PurchaseOrderLineRow.receive (row : PurchaseOrderLineRow) (line : GoodsReceiptLineRow) :
    PurchaseOrderLineRow :=
  { row with
    qtyReceived := row.qtyReceived + line.qtyReceived
    received := by
      have := row.received
      have := line.positive
      omega }

/-- `UPDATE .. SET qty_received = qty_received + $3`: no effect on no row. -/
def receiveOnPoLine (line : GoodsReceiptLineRow) : Tx Unit :=
  Prog.execute (fun _ => [.poLine line.poLineId])
    (fun db =>
      match db.poLines.find? line.poLineId with
      | some row =>
        if InI64 (row.qtyReceived + line.qtyReceived) then .ok ()
        else .error (databaseError "bigint out of range")
      | none => .ok ())
    fun _ db => { db with poLines := db.poLines.modify line.poLineId (·.receive line) }

def Db.linesOf (db : Db) (poId : Uuid) : List PurchaseOrderLineRow :=
  db.poLines.values.filter fun l => l.orderId = poId

def Db.orderedTotal (db : Db) (poId : Uuid) : Int := ((db.linesOf poId).map (·.qtyOrdered)).sum

def Db.receivedTotal (db : Db) (poId : Uuid) : Int := ((db.linesOf poId).map (·.qtyReceived)).sum

/-- The sums over the lines of an order, which fail where one is out of range. -/
def orderTotals (poId : Uuid) : Tx (Int × Int) :=
  Prog.executeReturning (fun _ => [])
    (fun db =>
      if InI64 (db.orderedTotal poId) ∧ InI64 (db.receivedTotal poId) then
        .ok (db.orderedTotal poId, db.receivedTotal poId)
      else .error (databaseError "bigint out of range"))
    fun _ db => db

def updatePurchaseOrder (poId : Uuid) (status : PurchaseOrderStatus) : Tx Unit :=
  Prog.execute (fun _ => [.purchaseOrder poId])
    (fun db =>
      match db.purchaseOrders.find? poId with
      | some row =>
        if row.version + 1 ≤ i32Max then .ok () else .error (databaseError "integer out of range")
      | none => .ok ())
    fun _ db =>
      { db with purchaseOrders := db.purchaseOrders.modify poId fun r =>
          { r with status, version := r.version + 1 } }

def GoodsReceiptRow.posted (r : GoodsReceiptRow) (ctx : RequestCtx) (journalPublicId : String) :
    GoodsReceiptRow :=
  { r with
    status := .posted
    receivedAt := some ctx.now
    journalPublicId := some journalPublicId
    version := r.version + 1
    updatedAt := ctx.now }

def markPosted (ctx : RequestCtx) (grnId : Uuid) (journalPublicId : String) : Tx Unit :=
  Prog.execute (fun _ => [.goodsReceipt grnId])
    (fun db =>
      match db.goodsReceipts.find? grnId with
      | some row =>
        if row.version + 1 ≤ i32Max then .ok () else .error (databaseError "integer out of range")
      | none => .ok ())
    fun _ db =>
      { db with goodsReceipts := db.goodsReceipts.modify grnId (·.posted ctx journalPublicId) }

def answerPosted (ctx : RequestCtx) (grnId : Uuid) (journalPublicId : String) (totalValueMinor : Int)
    (status : PurchaseOrderStatus) : Tx Response := do
  let row ← fetchGrn grnId
  let dto ← toDto grnId row
  insertEvent (.receiptPosted dto.id dto.purchaseOrderId journalPublicId totalValueMinor status)
  Idempotency.record ctx.idempotencyKey "goods_receipt.post" 200 dto
  pure ⟨200, dto⟩

section
variable [Formats]

def lineKey (grnPublicId : String) (line : GoodsReceiptLineRow) : String :=
  let linePublicId := line.publicId
  s!"grn:{grnPublicId}:{linePublicId}"

def lineMovement (ctx : RequestCtx) (grnId : Uuid) (grnPublicId : String) (line : GoodsReceiptLineRow) :
    PostMovementInput :=
  let linePublicId := line.publicId
  { warehouseId := line.warehouseId
    itemId := line.itemId
    qtyDelta := line.qtyReceived
    unitCostMinor := line.unitCostMinor
    movementType := "receipt"
    sourceType := some "goods_receipt"
    sourceId := some grnId
    idempotencyKey := some (lineKey grnPublicId line)
    memo := some s!"GRN {grnPublicId} line {linePublicId}"
    createdBy := ctx.actorUserId }

/-- Each line becomes a movement and is added to its order's line; the result is the value of the
goods. The request draws the identifiers of the movements from number `k` on. -/
def postLines (ctx : RequestCtx) (grnId : Uuid) (grnPublicId : String) :
    Nat → Int → List GoodsReceiptLineRow → Tx Int
  | _, total, [] => pure total
  | k, total, line :: lines => do
    let _ ← postMovement (ctx.fresh k) (lineMovement ctx grnId grnPublicId line)
    receiveOnPoLine line
    postLines ctx grnId grnPublicId (k + 1)
      (saturateI64 (total + saturateI64 (line.qtyReceived * line.unitCostMinor))) lines

/-- Dr Inventory / Cr AP for the value received. -/
def receiptJournal (ctx : RequestCtx) (grnId : Uuid) (grnPublicId currency : String) (amountMinor : Int) :
    JournalRequest where
  sourceType := "inventory_receipt"
  sourceId := grnId
  currency := currency
  memo := s!"Goods receipt {grnPublicId}"
  debitAccount := "1200"
  creditAccount := "2000"
  amountMinor := amountMinor
  idempotencyKey := ctx.idempotencyKey

/-- The lines are in stock: the order's status, the journal, and the receipt itself. -/
def finishPost (ctx : RequestCtx) (grnId : Uuid) (row : GoodsReceiptRow) (currency : String)
    (totalValueMinor : Int) : Tx Response := do
  let poId := row.purchaseOrderId
  let totals ← orderTotals poId
  let status : PurchaseOrderStatus := if totals.1 ≤ totals.2 then .received else .partiallyReceived
  updatePurchaseOrder poId status
  let journalPublicId ← Prog.ofExcept
    (ctx.postJournal (receiptJournal ctx grnId row.publicId currency totalValueMinor))
  markPosted ctx grnId journalPublicId
  answerPosted ctx grnId journalPublicId totalValueMinor status

def postDraft (ctx : RequestCtx) (grnId : Uuid) (row : GoodsReceiptRow) : Tx Response := do
  let poId := row.purchaseOrderId
  let po ← Prog.okOr (← Prog.query fun db => db.purchaseOrders.find? poId)
    (internal "no rows returned by a query that expected to return at least one row")
  let lines ← Prog.query fun db => db.fetchGrnLines grnId
  Prog.require (lines ≠ []) (conflict "goods receipt has no lines")
  let toPost ← Prog.query fun db => db.receiptLines grnId
  let totalValueMinor ← postLines ctx grnId row.publicId 0 0 toPost
  finishPost ctx grnId row po.currency totalValueMinor

/-- A receipt that is posted already is answered as it is; the table has no third status. -/
def postReceipt (ctx : RequestCtx) (grnId : Uuid) : Tx Response := do
  let row ← fetchGrn grnId
  match row.1.status with
  | .posted => do
    let dto ← toDto grnId row
    pure ⟨200, dto⟩
  | .draft => postDraft ctx grnId row.1

def postGoodsReceipt (ctx : RequestCtx) (id : String) : Tx Response := do
  let grnId ← Prog.ofExcept (parsePublicId .goodsReceipt id)
  Prog.ofExcept (ctx.authorize .goodsReceiptWrite)
  Idempotency.answers.replayOr ctx.idempotencyKey "goods_receipt.post"
    (fun stored => ⟨Finance.Idempotency.statusFromU16 stored.1 200, stored.2⟩) (postReceipt ctx grnId)

end

end Noxara.Inventory
