import Noxara.InventoryStore

/-! The stock ledger: weighted-average valuation, movements with the level that caches them, and
the reconciliation of the two. -/
namespace Noxara.Inventory

open Transaction
open Finance (Uuid AppError PublicId Formats InI64 Money wrapI64 internal notFound validation conflict
  uniqueViolation databaseError)

inductive ValuationError
  | invalidQuantity | overflow
  deriving DecidableEq

def ValuationError.display : ValuationError → String
  | invalidQuantity => "quantity must be positive"
  | overflow => "arithmetic overflow in valuation calculation"

/-- Blend a receipt into the position on hand. The 128-bit sum of two products of 64-bit integers,
one of them with a positive quantity, is in range. -/
def weightedAverageReceipt (onHandQty onHandAvgMinor receiptQty receiptUnitCostMinor : Int) :
    Except ValuationError (Int × Int) :=
  if receiptQty ≤ 0 then .error .invalidQuantity
  else
    let newQty := onHandQty + receiptQty
    if ¬InI64 newQty then .error .overflow
    else if newQty = 0 then .ok (0, onHandAvgMinor)
    else
      match Money.roundHalfUp (onHandQty * onHandAvgMinor + receiptQty * receiptUnitCostMinor) newQty with
      | .error _ => .error .overflow
      | .ok newAvg => .ok (newQty, newAvg)

def issueCostMinor (qty avgUnitCostMinor : Int) : Except ValuationError Int :=
  if qty ≤ 0 then .error .invalidQuantity
  else if InI64 (qty * avgUnitCostMinor) then .ok (qty * avgUnitCostMinor)
  else .error .overflow

example : weightedAverageReceipt 3 100 1 101 = .ok (4, 100) := by decide

def movementTypes : List String :=
  ["receipt", "issue", "adjustment", "transfer_in", "transfer_out", "return"]

/-- Movements that increase the quantity on hand. -/
def increasingTypes : List String := ["receipt", "return", "transfer_in"]

/-- Movements that decrease the quantity on hand. -/
def decreasingTypes : List String := ["issue", "transfer_out"]

structure PostMovementInput where
  warehouseId : Uuid
  itemId : Uuid
  qtyDelta : Int
  unitCostMinor : Int
  movementType : String
  sourceType : Option String := none
  sourceId : Option Uuid := none
  idempotencyKey : Option String
  memo : Option String := none
  createdBy : Uuid

structure PostMovementOutcome where
  movementId : Uuid
  movementPublicId : String
  currency : String
  qtyOnHand : Int
  avgUnitCostMinor : Int
  cogsMinor : Option Int
  lowStock : Bool
  replayed : Bool
  deriving DecidableEq

def debugStrings (l : List String) : String :=
  "[" ++ ", ".intercalate (l.map fun s => "\"" ++ s ++ "\"") ++ "]"

def PostMovementInput.check (input : PostMovementInput) : Except AppError Unit :=
  let known := debugStrings movementTypes
  let kind := input.movementType
  if kind ∉ movementTypes then .error (validation s!"movement_type must be one of {known}")
  else if input.qtyDelta = 0 then .error (validation "qty_delta must be non-zero")
  else if kind ∈ increasingTypes ∧ input.qtyDelta ≤ 0 then
    .error (validation s!"{kind} requires a positive qty_delta")
  else if kind ∈ decreasingTypes ∧ 0 ≤ input.qtyDelta then
    .error (validation s!"{kind} requires a negative qty_delta")
  else .ok ()

def fetchWarehouseExists (warehouseId : Uuid) : Tx Unit := do
  match ← Prog.query fun db => db.warehouses.find? warehouseId with
  | some _ => pure ()
  | none => .fail (notFound "warehouse")

def fetchItemPolicy (itemId : Uuid) : Tx ItemRow := do
  match ← Prog.query fun db => db.items.find? itemId with
  | some row => pure row
  | none => .fail (notFound "item")

def Db.stockLevel (db : Db) (warehouseId itemId : Uuid) : StockLevelRow :=
  (db.stockLevels.find? (warehouseId, itemId)).getD ⟨0, 0⟩

def fetchStockLevel (warehouseId itemId : Uuid) : Tx StockLevelRow :=
  Prog.query fun db => db.stockLevel warehouseId itemId

def Db.movementByKey (db : Db) (key : String) : Option (Uuid × MovementRow) :=
  db.movements.rows.find? fun m => m.2.idempotencyKey = some key

def fetchExistingByIdemKey (key : String) : Tx (Option (Uuid × MovementRow)) :=
  Prog.query fun db => db.movementByKey key

/-- The level after the movement, and the cost of the goods that it issues. -/
def PostMovementInput.applied (input : PostMovementInput) (level : StockLevelRow) :
    Except AppError (StockLevelRow × Option Int) :=
  if 0 < input.qtyDelta then
    match weightedAverageReceipt level.qtyOnHand level.avgUnitCostMinor input.qtyDelta input.unitCostMinor with
    | .error e => .error (validation e.display)
    | .ok (newQty, newAvg) => .ok (⟨newQty, newAvg⟩, none)
  else
    match issueCostMinor (wrapI64 input.qtyDelta.natAbs) level.avgUnitCostMinor with
    | .error e => .error (validation e.display)
    | .ok cogs =>
      let newQty := level.qtyOnHand + input.qtyDelta
      if InI64 newQty then .ok (⟨newQty, level.avgUnitCostMinor⟩, some cogs)
      else .error ⟨.internal, "qty overflow"⟩

def movementFree (id : Uuid) (row : MovementRow) (db : Db) : Except AppError Unit :=
  if (db.movements.find? id).isSome then
    .error (uniqueViolation "inventory_stock_movement_pkey")
  else
    match row.idempotencyKey with
    | none => .ok ()
    | some key =>
      if (db.movementByKey key).isSome then
        .error (uniqueViolation "inventory_stock_movement_org_idem_idx")
      else .ok ()

theorem movementFree_ok {id : Uuid} {row : MovementRow} {db : Db} (h : movementFree id row db = .ok ()) :
    db.movements.find? id = none ∧
      ∀ key, row.idempotencyKey = some key → db.movementByKey key = none := by
  unfold movementFree at h
  split_ifs at h with hid
  refine ⟨Option.not_isSome_iff_eq_none.mp hid, fun key hkey => ?_⟩
  rw [hkey] at h
  dsimp only at h
  split_ifs at h with hfound
  exact Option.not_isSome_iff_eq_none.mp hfound

def insertMovement (id : Uuid) (row : MovementRow) : Tx Unit :=
  Prog.execute (fun _ => .movement id :: (row.idempotencyKey.map RowKey.movementKey).toList)
    (movementFree id row) fun _ db => { db with movements := db.movements.insert id row }

/-- `INSERT .. ON CONFLICT (org_id, warehouse_id, item_id) DO UPDATE` with absolute values. -/
def upsertStockLevel (warehouseId itemId : Uuid) (level : StockLevelRow) : Tx Unit :=
  Prog.execute (fun _ => [.stockLevel warehouseId itemId]) (fun _ => .ok ())
    fun _ db => { db with stockLevels := db.stockLevels.upsert (warehouseId, itemId) level }

section
variable [Formats]

def PostMovementInput.row (input : PostMovementInput) (movementId : Uuid) (currency : String) :
    MovementRow where
  publicId := (PublicId.mk .stockMovement movementId).asStr
  warehouseId := input.warehouseId
  itemId := input.itemId
  qtyDelta := input.qtyDelta
  unitCostMinor := input.unitCostMinor
  currency := currency
  movementType := input.movementType
  sourceType := input.sourceType
  sourceId := input.sourceId
  idempotencyKey := input.idempotencyKey
  memo := input.memo
  createdBy := input.createdBy

/-- The level that a movement leads to, and the events of both. -/
def writeLevel (movementId : Uuid) (row : MovementRow) (item : ItemRow) (next : StockLevelRow)
    (cogsMinor : Option Int) : Tx PostMovementOutcome := do
  upsertStockLevel row.warehouseId row.itemId next
  let lowStock : Bool := next.qtyOnHand ≤ item.reorderPointQty
  let warehouse := (PublicId.mk .warehouse row.warehouseId).asStr
  let itemPublicId := (PublicId.mk .inventoryItem row.itemId).asStr
  insertEvent (.movementRecorded row.publicId warehouse itemPublicId row.qtyDelta row.movementType
    next.qtyOnHand next.avgUnitCostMinor)
  if lowStock then
    insertEvent (.stockLow row.publicId warehouse itemPublicId next.qtyOnHand item.reorderPointQty)
  pure
    { movementId
      movementPublicId := row.publicId
      currency := item.currency
      qtyOnHand := next.qtyOnHand
      avgUnitCostMinor := next.avgUnitCostMinor
      cogsMinor
      lowStock
      replayed := false }

def writeMovement (movementId : Uuid) (row : MovementRow) (item : ItemRow) (next : StockLevelRow)
    (cogsMinor : Option Int) : Tx PostMovementOutcome := do
  insertMovement movementId row
  writeLevel movementId row item next cogsMinor

/-- A movement of an active item: the level is read, moved, and written back. -/
def recordMovement (movementId : Uuid) (input : PostMovementInput) : Tx PostMovementOutcome := do
  fetchWarehouseExists input.warehouseId
  let item ← fetchItemPolicy input.itemId
  Prog.require (item.isActive = true) (conflict "item is not active")
  let level ← fetchStockLevel input.warehouseId input.itemId
  let (next, cogsMinor) ← Prog.ofExcept (input.applied level)
  let newQty := next.qtyOnHand
  Prog.require (¬(newQty < 0 ∧ item.allowNegativeStock = false)) (conflict
    s!"movement would drive stock negative ({newQty}) and item does not allow negative stock")
  writeMovement movementId (input.row movementId item.currency) item next cogsMinor

/-- The outcome for a movement that the idempotency key found. -/
def replayMovement (existing : Uuid × MovementRow) : Tx PostMovementOutcome := do
  let level ← fetchStockLevel existing.2.warehouseId existing.2.itemId
  pure
    { movementId := existing.1
      movementPublicId := existing.2.publicId
      currency := existing.2.currency
      qtyOnHand := level.qtyOnHand
      avgUnitCostMinor := level.avgUnitCostMinor
      cogsMinor := none
      lowStock := false
      replayed := true }

def postMovement (movementId : Uuid) (input : PostMovementInput) : Tx PostMovementOutcome := do
  Prog.ofExcept input.check
  match input.idempotencyKey with
  | none => recordMovement movementId input
  | some key =>
    match ← fetchExistingByIdemKey key with
    | some existing => replayMovement existing
    | none => recordMovement movementId input

/-- The ledger's own view of the quantity on hand. -/
def Db.qtyOnHandFromMovements (db : Db) (warehouseId itemId : Uuid) : Int :=
  db.movements.sumBy fun m => if m.warehouseId = warehouseId ∧ m.itemId = itemId then m.qtyDelta else 0

/-- `SUM(qty_delta)::bigint`, which fails where the sum is out of range. -/
def qtyOnHandFromMovements (warehouseId itemId : Uuid) : Tx Int :=
  Prog.executeReturning (fun _ => [])
    (fun db =>
      let sum := db.qtyOnHandFromMovements warehouseId itemId
      if InI64 sum then .ok sum else .error (databaseError "bigint out of range"))
    fun _ db => db

def insertDriftAlert (id : Uuid) (row : DriftAlertRow) : Tx Unit :=
  Prog.execute (fun _ => [.driftAlert id])
    (fun db =>
      if (db.driftAlerts.find? id).isSome then .error (uniqueViolation "inventory_drift_alert_pkey")
      else .ok ())
    fun _ db => { db with driftAlerts := db.driftAlerts.insert id row }

/-- Compare the cache with the ledger; a mismatch leaves an alert and the cache as it is. -/
def reconcileStock (ctx : RequestCtx) (warehouseId itemId : Uuid) : Tx (Option (Uuid × DriftAlertRow)) := do
  let level ← fetchStockLevel warehouseId itemId
  let movementSum ← qtyOnHandFromMovements warehouseId itemId
  if level.qtyOnHand = movementSum then pure none
  else do
    let alertId := ctx.fresh 0
    let row : DriftAlertRow := ⟨warehouseId, itemId, level.qtyOnHand, movementSum⟩
    insertDriftAlert alertId row
    insertEvent (.driftDetected (Formats.uuidDisplay alertId) (PublicId.mk .warehouse warehouseId).asStr
      (PublicId.mk .inventoryItem itemId).asStr level.qtyOnHand movementSum)
    pure (some (alertId, row))

end

end Noxara.Inventory
