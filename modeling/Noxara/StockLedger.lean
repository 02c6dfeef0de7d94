import Noxara.InventoryStock

/-! The level that caches the stock ledger. A movement reads the level without a lock and writes it
back as an absolute value; cache and ledger agree as long as each level is written over the
quantity that its movement read. -/
namespace Noxara.Inventory

open Transaction
open Finance (Uuid AppError Formats InI64 canonicalFormats)

/-- The cache equals the ledger, no key has two movements, and no stock is negative where the item
does not allow it. -/
structure Reconciled (db : Db) : Prop where
  levels : ∀ w i, (db.stockLevel w i).qtyOnHand = db.qtyOnHandFromMovements w i
  fits : ∀ w i, InI64 (db.stockLevel w i).qtyOnHand
  keys : ∀ m ∈ db.movements.rows, ∀ m' ∈ db.movements.rows, ∀ key,
    m.2.idempotencyKey = some key → m'.2.idempotencyKey = some key → m = m'
  covered : ∀ w i item, db.items.find? i = some item → item.allowNegativeStock = false →
    0 ≤ (db.stockLevel w i).qtyOnHand

/-- A warehouse without a movement yet. -/
theorem reconciled_of_empty {db : Db} (hm : db.movements = .empty) (hl : db.stockLevels = .empty) :
    Reconciled db where
  levels _ _ := by rw [Db.stockLevel, Db.qtyOnHandFromMovements, hl, hm]; rfl
  fits _ _ := by rw [Db.stockLevel, hl]; exact (by decide : InI64 0)
  keys m h := by rw [hm] at h; cases h
  covered _ _ _ _ _ := by rw [Db.stockLevel, hl]; exact le_refl (0 : Int)

theorem weightedAverageReceipt_ok {qty avg receiptQty cost newQty newAvg : Int}
    (h : weightedAverageReceipt qty avg receiptQty cost = .ok (newQty, newAvg)) :
    newQty = qty + receiptQty ∧ InI64 newQty := by
  unfold weightedAverageReceipt at h
  dsimp only at h
  split_ifs at h with _ hfit hzero
  · simp only [Except.ok.injEq, Prod.mk.injEq] at h
    rw [← h.1]
    rw [hzero] at hfit
    exact ⟨hzero.symm, hfit⟩
  · split at h
    · cases h
    · simp only [Except.ok.injEq, Prod.mk.injEq] at h
      rw [← h.1]
      exact ⟨rfl, hfit⟩

theorem PostMovementInput.applied_ok {input : PostMovementInput} {level next : StockLevelRow}
    {cogs : Option Int} (h : input.applied level = .ok (next, cogs)) :
    next.qtyOnHand = level.qtyOnHand + input.qtyDelta ∧ InI64 next.qtyOnHand := by
  unfold applied at h
  split_ifs at h
  · split at h
    · cases h
    · next hblend =>
      cases h
      exact weightedAverageReceipt_ok hblend
  · split at h
    · cases h
    · dsimp only at h
      split_ifs at h with hfit
      cases h
      exact ⟨rfl, hfit⟩

/-- The store with one more movement and the level after it. -/
def Db.recorded (db : Db) (id : Uuid) (row : MovementRow) (next : StockLevelRow) : Db :=
  { db with
    movements := db.movements.insert id row
    stockLevels := db.stockLevels.upsert (row.warehouseId, row.itemId) next }

theorem stockLevel_recorded_self (db : Db) (id : Uuid) (row : MovementRow) (next : StockLevelRow) :
    (db.recorded id row next).stockLevel row.warehouseId row.itemId = next := by
  simp [Db.stockLevel, Db.recorded, Table.find?_upsert_self]

theorem stockLevel_recorded_ne (db : Db) (id : Uuid) (row : MovementRow) (next : StockLevelRow)
    {w i : Uuid} (h : ¬(row.warehouseId = w ∧ row.itemId = i)) :
    (db.recorded id row next).stockLevel w i = db.stockLevel w i := by
  have hne : (w, i) ≠ (row.warehouseId, row.itemId) := by
    rintro ⟨⟩
    exact h ⟨rfl, rfl⟩
  simp [Db.stockLevel, Db.recorded, Table.find?_upsert_ne _ _ hne]

theorem qtyOnHandFromMovements_recorded {db : Db} {id : Uuid} (h : db.movements.find? id = none)
    (row : MovementRow) (next : StockLevelRow) (w i : Uuid) :
    (db.recorded id row next).qtyOnHandFromMovements w i = db.qtyOnHandFromMovements w i +
      if row.warehouseId = w ∧ row.itemId = i then row.qtyDelta else 0 :=
  Table.sumBy_insert h row _

theorem movementByKey_none {db : Db} {key : String} :
    db.movementByKey key = none ↔ ∀ m ∈ db.movements.rows, m.2.idempotencyKey ≠ some key := by
  simp [Db.movementByKey, List.find?_eq_none]

theorem movementByKey_insert_ne (db : Db) (id : Uuid) {row : MovementRow} {key : String}
    (h : row.idempotencyKey ≠ some key) :
    { db with movements := db.movements.insert id row }.movementByKey key = db.movementByKey key := by
  by_cases hid : id ∈ db.movements.keys
  · rw [Table.insert_of_mem hid]
  · simp [Db.movementByKey, Table.rows_insert (Table.find?_eq_none.mpr hid), h]

theorem Reconciled.recorded {db : Db} (h : Reconciled db) {id : Uuid} {row : MovementRow}
    {next : StockLevelRow} {item : ItemRow} (hid : db.movements.find? id = none)
    (hkey : ∀ key, row.idempotencyKey = some key → db.movementByKey key = none)
    (hitem : db.items.find? row.itemId = some item)
    (hqty : next.qtyOnHand = (db.stockLevel row.warehouseId row.itemId).qtyOnHand + row.qtyDelta)
    (hfits : InI64 next.qtyOnHand)
    (hcovered : ¬(next.qtyOnHand < 0 ∧ item.allowNegativeStock = false)) :
    Reconciled (db.recorded id row next) where
  levels w i := by
    rw [qtyOnHandFromMovements_recorded hid]
    by_cases hpair : row.warehouseId = w ∧ row.itemId = i
    · obtain ⟨rfl, rfl⟩ := hpair
      rw [stockLevel_recorded_self, hqty, h.levels, if_pos ⟨rfl, rfl⟩]
    · rw [stockLevel_recorded_ne _ _ _ _ hpair, h.levels, if_neg hpair, add_zero]
  fits w i := by
    by_cases hpair : row.warehouseId = w ∧ row.itemId = i
    · obtain ⟨rfl, rfl⟩ := hpair
      rwa [stockLevel_recorded_self]
    · rw [stockLevel_recorded_ne _ _ _ _ hpair]
      exact h.fits w i
  keys m hm m' hm' key hk hk' := by
    have hrows : (db.recorded id row next).movements.rows = db.movements.rows ++ [(id, row)] :=
      Table.rows_insert hid row
    rw [hrows] at hm hm'
    have hold : ∀ n ∈ db.movements.rows, row.idempotencyKey = some key →
        n.2.idempotencyKey ≠ some key := fun n hn hrow => movementByKey_none.mp (hkey key hrow) n hn
    rcases List.mem_append.mp hm with hm | hm <;> rcases List.mem_append.mp hm' with hm' | hm'
    · exact h.keys m hm m' hm' key hk hk'
    · obtain rfl := List.mem_singleton.mp hm'
      exact absurd hk (hold m hm hk')
    · obtain rfl := List.mem_singleton.mp hm
      exact absurd hk' (hold m' hm' hk)
    · rw [List.mem_singleton.mp hm, List.mem_singleton.mp hm']
  covered w i it hit hno := by
    by_cases hpair : row.warehouseId = w ∧ row.itemId = i
    · obtain ⟨rfl, rfl⟩ := hpair
      rw [stockLevel_recorded_self]
      obtain rfl : item = it := Option.some.inj (hitem.symm.trans hit)
      by_contra hneg
      exact hcovered ⟨not_le.mp hneg, hno⟩
    · rw [stockLevel_recorded_ne _ _ _ _ hpair]
      exact h.covered w i it hit hno

/-- The part of the store that movements are about. -/
def stockView (db : Db) : Table Uuid ItemRow × Table (Uuid × Uuid) StockLevelRow × Table Uuid MovementRow :=
  (db.items, db.stockLevels, db.movements)

/-- What changes of the store leave alone for those who hold the locks `ls`. -/
structure StockRely (ls : List RowKey) (db db' : Db) : Prop where
  items : db'.items = db.items
  levels : ∀ w i, .stockLevel w i ∈ ls → db'.stockLevel w i = db.stockLevel w i
  movements : ∀ id, .movement id ∈ ls → db'.movements.find? id = db.movements.find? id
  keys : ∀ key, .movementKey key ∈ ls → db'.movementByKey key = db.movementByKey key

/-- The store in which the level was read: the statement before the last, when the level is
written. -/
def levelRead (x : Trail Db RowKey) : Option Db := x.seen[1]?

/-- A level is written while the committed quantity is the one read. -/
def LevelIsRead (x : Trail Db RowKey) (ks : List RowKey) (db : Db) : Prop :=
  ∀ w i, .stockLevel w i ∈ ks → ∀ v, levelRead x = some v →
    (db.stockLevel w i).qtyOnHand = (v.stockLevel w i).qtyOnHand

def stockTerms : Terms Db RowKey where
  rely := StockRely
  when := LevelIsRead
  refl _ _ := ⟨rfl, fun _ _ _ => rfl, fun _ _ => rfl, fun _ _ => rfl⟩
  trans h h' :=
    { items := h'.items.trans h.items
      levels := fun w i hk => (h'.levels w i hk).trans (h.levels w i hk)
      movements := fun id hk => (h'.movements id hk).trans (h.movements id hk)
      keys := fun key hk => (h'.keys key hk).trans (h.keys key hk) }
  anti hk h :=
    { items := h.items
      levels := fun w i hl => h.levels w i (hk _ hl)
      movements := fun id hl => h.movements id (hk _ hl)
      keys := fun key hl => h.keys key (hk _ hl) }

/-- What a movement commits: changes within its locks, and a store as reconciled as before. -/
def StockPromise (x : Trail Db RowKey) (db : Db) : Prop :=
  (∀ ls, (∀ k ∈ x.locks, k ∉ ls) → StockRely ls db (x.pend db)) ∧
    (Reconciled db → Reconciled (x.pend db))

theorem StockRely.of_view {ls : List RowKey} {db db' : Db} (h : stockView db' = stockView db) :
    StockRely ls db db' := by
  obtain ⟨hi, hl, hm⟩ := by simpa only [stockView, Prod.mk.injEq] using h
  refine ⟨hi, fun w i _ => ?_, fun id _ => by rw [hm], fun key _ => ?_⟩
  · simp only [Db.stockLevel, hl]
  · simp only [Db.movementByKey, hm]

theorem Reconciled.of_view {db db' : Db} (h : stockView db' = stockView db) (hr : Reconciled db) :
    Reconciled db' := by
  obtain ⟨hi, hl, hm⟩ := by simpa only [stockView, Prod.mk.injEq] using h
  constructor
  · simpa only [Db.stockLevel, Db.qtyOnHandFromMovements, hl, hm] using hr.levels
  · simpa only [Db.stockLevel, hl] using hr.fits
  · simpa only [hm] using hr.keys
  · simpa only [Db.stockLevel, hi, hl] using hr.covered

theorem stockPromise_of_view {x : Trail Db RowKey} {db : Db}
    (h : stockView (x.pend db) = stockView db) : StockPromise x db :=
  ⟨fun _ _ => .of_view h, .of_view h⟩

theorem stockRely_recorded {db : Db} {id : Uuid} {row : MovementRow} {next : StockLevelRow}
    {ls : List RowKey} (hlevel : .stockLevel row.warehouseId row.itemId ∉ ls)
    (hid : .movement id ∉ ls) (hkey : ∀ key, row.idempotencyKey = some key → .movementKey key ∉ ls) :
    StockRely ls db (db.recorded id row next) where
  items := rfl
  levels w i hk := stockLevel_recorded_ne _ _ _ _ (by rintro ⟨rfl, rfl⟩; exact hlevel hk)
  movements j hk := Table.find?_insert_ne _ _ (by rintro rfl; exact hid hk)
  keys key hk := movementByKey_insert_ne _ _ fun h => hkey key h hk

theorem stockPromise_of_recorded {x : Trail Db RowKey} {db : Db} {id : Uuid} {row : MovementRow}
    {next : StockLevelRow} (hview : stockView (x.pend db) = stockView (db.recorded id row next))
    (hlevel : .stockLevel row.warehouseId row.itemId ∈ x.locks) (hid : .movement id ∈ x.locks)
    (hkey : ∀ key, row.idempotencyKey = some key → .movementKey key ∈ x.locks)
    (hkept : Reconciled db → Reconciled (db.recorded id row next)) : StockPromise x db := by
  refine ⟨fun ls hdisjoint => ?_, fun h => (hkept h).of_view hview⟩
  have hrecorded : StockRely ls db (db.recorded id row next) :=
    stockRely_recorded (hdisjoint _ hlevel) (hdisjoint _ hid) fun key hk => hdisjoint _ (hkey key hk)
  exact stockTerms.trans hrecorded (.of_view hview)

section
variable [Formats]

/-- A movement written over the quantity that it was moved from. -/
theorem safe_writeMovement (movementId : Uuid) (row : MovementRow) {item : ItemRow}
    {level next : StockLevelRow} {cogs : Option Int} {x : Trail Db RowKey} {s : Db} (hx : x.pend = id)
    (hread : ∃ v, x.seen[0]? = some v ∧ v.stockLevel row.warehouseId row.itemId = level)
    (hitem : s.items.find? row.itemId = some item)
    (hqty : next.qtyOnHand = level.qtyOnHand + row.qtyDelta) (hfits : InI64 next.qtyOnHand)
    (hcovered : ¬(next.qtyOnHand < 0 ∧ item.allowNegativeStock = false)) :
    (writeMovement movementId row item next cogs).Safe stockTerms (fun y _ u => StockPromise y u) x s := by
  obtain ⟨seen, locks, pend⟩ := x
  obtain rfl : pend = id := hx
  obtain ⟨v, hv, rfl⟩ := hread
  refine Prog.Safe.execute_bind fun u₁ h₁ _ hfree => Prog.Safe.execute_bind fun u₂ h₂ hwhen _ =>
    Prog.Safe.of_writes (W := Prog.Keeps stockView) (.id _) (fun _ _ => .comp) ?_
      fun y f a u hf hy hlocks h₃ => ?_
  · refine .bind (Prog.writes_execute (.id _) fun _ _ _ => rfl) fun _ => ?_
    split_ifs
    · exact .bind (Prog.writes_execute (.id _) fun _ _ _ => rfl) fun _ => trivial
    · trivial
  · obtain ⟨hid, hkey⟩ := movementFree_ok hfree
    have hview : stockView (y.pend u) = stockView (u.recorded movementId row next) := by
      rw [hy]
      exact hf _
    have hidlock : RowKey.movement movementId ∈
        RowKey.movement movementId :: (row.idempotencyKey.map RowKey.movementKey).toList ++ locks :=
      List.mem_cons_self
    have hkeylock : ∀ key, row.idempotencyKey = some key → RowKey.movementKey key ∈
        RowKey.movement movementId :: (row.idempotencyKey.map RowKey.movementKey).toList ++ locks := by
      intro key hk
      simp [hk]
    have hlevellock : RowKey.stockLevel row.warehouseId row.itemId ∈
        [RowKey.stockLevel row.warehouseId row.itemId] := List.mem_cons_self
    have hnow : u.movements.find? movementId = none :=
      (h₃.movements _ (List.mem_append_right _ hidlock)).trans ((h₂.movements _ hidlock).trans hid)
    have hitemNow : u.items.find? row.itemId = some item := by
      rw [h₃.items, h₂.items, h₁.items]
      exact hitem
    refine stockPromise_of_recorded hview (hlocks _ (List.mem_append_left _ hlevellock))
      (hlocks _ (List.mem_append_right _ hidlock))
      (fun key hk => hlocks _ (List.mem_append_right _ (hkeylock key hk)))
      fun hr => hr.recorded hnow (fun key hk => ?_) hitemNow ?_ hfits hcovered
    · exact (h₃.keys _ (List.mem_append_right _ (hkeylock key hk))).trans
        ((h₂.keys _ (hkeylock key hk)).trans (hkey key hk))
    · rw [h₃.levels _ _ (List.mem_append_left _ hlevellock), hwhen _ _ hlevellock v hv]
      exact hqty

/-- A movement written over the quantity it read keeps cache and ledger together. -/
theorem safe_recordMovement (movementId : Uuid) (input : PostMovementInput) {x : Trail Db RowKey}
    (hx : x.pend = id) (s : Db) :
    (recordMovement movementId input).Safe stockTerms (fun y _ u => StockPromise y u) x s := by
  simp only [recordMovement, fetchWarehouseExists, fetchItemPolicy, fetchStockLevel, bind_assoc]
  refine Prog.Safe.query_bind fun u₁ _ _ => ?_
  cases (x.pend u₁).warehouses.find? input.warehouseId with
  | none => trivial
  | some w =>
    refine Prog.Safe.query_bind fun u₂ _ _ => ?_
    cases hitem : ((x.look u₁).pend u₂).items.find? input.itemId with
    | none => trivial
    | some item =>
      refine Prog.Safe.require_bind fun _ => Prog.Safe.query_bind fun u₃ h₃ _ =>
        Prog.Safe.ofExcept_bind fun next hnext => Prog.Safe.require_bind fun hcovered => ?_
      obtain ⟨seen, locks, pend⟩ := x
      obtain rfl : pend = id := hx
      have happlied : input.applied _ = .ok (next.1, next.2) := hnext
      obtain ⟨hqty, hfits⟩ := PostMovementInput.applied_ok happlied
      have hpolicy : u₃.items.find? input.itemId = some item := by
        rw [h₃.items]
        exact hitem
      exact safe_writeMovement movementId (input.row movementId item.currency) rfl
        ⟨u₃, rfl, rfl⟩ hpolicy hqty hfits hcovered

theorem safe_postMovement (movementId : Uuid) (input : PostMovementInput) (s : Db) :
    (postMovement movementId input).Safe stockTerms (fun y _ u => StockPromise y u) .start s := by
  refine Prog.Safe.ofExcept_bind fun _ _ => ?_
  cases input.idempotencyKey with
  | none =>
    refine safe_recordMovement movementId input ?_ s
    rfl
  | some key =>
    refine Prog.Safe.query_bind fun u _ _ => ?_
    cases Db.movementByKey (Trail.start.pend u) key with
    | none =>
      refine safe_recordMovement movementId input ?_ u
      rfl
    | some existing =>
      refine Prog.Safe.query_bind fun _ _ _ => Prog.Safe.pure fun v _ => stockPromise_of_view ?_
      rfl

theorem reconcileStock_reconciled {db : Db} (h : Reconciled db) (ctx : RequestCtx) (w i : Uuid) :
    (reconcileStock ctx w i).run db = .ok (none, db) := by
  have hfits : InI64 (db.qtyOnHandFromMovements w i) := h.levels w i ▸ h.fits w i
  have hsum : (qtyOnHandFromMovements w i).run db = .ok (db.qtyOnHandFromMovements w i, db) := by
    simp [qtyOnHandFromMovements, hfits]
  refine Prog.run_bind_ok.mpr ⟨_, _, Prog.run_query _ _, Prog.run_bind_ok.mpr ⟨_, _, hsum, ?_⟩⟩
  rw [if_pos (h.levels w i)]
  rfl

/-- A statement writes the levels that were read, moved by `delta`. -/
def MovesLevelRead (delta : Int) (seen : List Db) (l : Db → List RowKey) (w : Db → Db → Db) : Prop :=
  ∀ v wh it, .stockLevel wh it ∈ l v → ∃ u, seen[1]? = some u ∧
    ∀ t, ((w v t).stockLevel wh it).qtyOnHand = (u.stockLevel wh it).qtyOnHand + delta

omit [Formats] in
theorem movesLevelRead_of_no_lock {delta : Int} {seen : List Db} {w : Db → Db → Db} :
    MovesLevelRead delta seen (fun _ => []) w :=
  fun _ _ _ h => absurd h List.not_mem_nil

theorem throughout_writeMovement (movementId : Uuid) (row : MovementRow) {item : ItemRow}
    {next : StockLevelRow} {cogs : Option Int} {u : Db} {seen : List Db}
    (hqty : next.qtyOnHand = (u.stockLevel row.warehouseId row.itemId).qtyOnHand + row.qtyDelta) :
    (writeMovement movementId row item next cogs).Throughout (MovesLevelRead row.qtyDelta) (u :: seen) := by
  refine .execute_bind (fun v wh it hk => ?_) fun _ => .execute_bind (fun v wh it hk => ?_) fun _ =>
    .execute_bind movesLevelRead_of_no_lock fun _ => ?_
  · simp at hk
  · obtain ⟨rfl, rfl⟩ : wh = row.warehouseId ∧ it = row.itemId := by simpa using hk
    refine ⟨u, rfl, fun t => ?_⟩
    rw [← hqty]
    exact congrArg _ (stockLevel_recorded_self t movementId row next)
  · split_ifs
    · exact .execute_bind movesLevelRead_of_no_lock fun _ => trivial
    · trivial

theorem throughout_recordMovement (movementId : Uuid) (input : PostMovementInput) (seen : List Db) :
    (recordMovement movementId input).Throughout (MovesLevelRead input.qtyDelta) seen := by
  simp only [recordMovement, fetchWarehouseExists, fetchItemPolicy, fetchStockLevel, bind_assoc]
  refine .query_bind movesLevelRead_of_no_lock fun u₁ => ?_
  cases u₁.warehouses.find? input.warehouseId with
  | none => trivial
  | some _ =>
    refine .query_bind movesLevelRead_of_no_lock fun u₂ => ?_
    cases u₂.items.find? input.itemId with
    | none => trivial
    | some item =>
      refine .require_bind (.query_bind movesLevelRead_of_no_lock fun u₃ =>
        .ofExcept_bind fun next hnext => .require_bind ?_)
      have happlied : input.applied _ = .ok (next.1, next.2) := hnext
      exact throughout_writeMovement movementId (input.row movementId item.currency)
        (PostMovementInput.applied_ok happlied).1

theorem throughout_postMovement (movementId : Uuid) (input : PostMovementInput) :
    (postMovement movementId input).Throughout (MovesLevelRead input.qtyDelta) [] := by
  refine .ofExcept_bind fun _ _ => ?_
  cases input.idempotencyKey with
  | none => exact throughout_recordMovement movementId input []
  | some key =>
    refine .query_bind movesLevelRead_of_no_lock fun u => ?_
    cases u.movementByKey key with
    | none => exact throughout_recordMovement movementId input [u]
    | some existing => exact .query_bind movesLevelRead_of_no_lock fun _ => trivial

section Runs
variable {ι : Type} (request : ι → Uuid × PostMovementInput)

def movementBody (i : ι) : Tx PostMovementOutcome := postMovement (request i).1 (request i).2

variable [DecidableEq ι]

/-- Each level is written while the committed quantity is the one that its movement read. -/
def WritesLevelsRead (c d : Config ι Db RowKey AppError PostMovementOutcome) : Prop :=
  ∀ i x ks, c.Asks (movementBody request) d i x ks → LevelIsRead x ks c.db

variable {request} {c : Config ι Db RowKey AppError PostMovementOutcome} {db : Db}

/-- Cache and ledger agree in every run that writes levels over the quantity read. -/
theorem stock_reconciled (h : ReachableWhere (WritesLevelsRead request) (movementBody request) db c)
    (h0 : Reconciled db) :
    Reconciled c.db ∧ ∀ ctx w i, (reconcileStock ctx w i).run c.db = .ok (none, c.db) := by
  have hkept : Reconciled c.db :=
    h.safe_invariant (T := fun _ => stockTerms) (Q := fun _ x _ s => StockPromise x s)
      (fun i => safe_postMovement (request i).1 (request i).2 db)
      (fun c d i x ks hk hasks => hk i x ks hasks) (fun i j x a ls s _ hx hdisjoint => hx.1 ls hdisjoint)
      h0 fun i x a s hs hx => hx.2 hs
  exact ⟨hkept, reconcileStock_reconciled hkept⟩

end Runs

end

def Db.oneItem : Db :=
  { Db.empty with
    warehouses := Table.empty.insert 1 ⟨"wh_1"⟩
    items := Table.empty.insert 2 ⟨"item_2", "USD", 0, false, true⟩ }

def tenReceived : MovementRow where
  publicId := "mv_3"
  warehouseId := 1
  itemId := 2
  qtyDelta := 10
  unitCostMinor := 100
  currency := "USD"
  movementType := "receipt"
  sourceType := none
  sourceId := none
  idempotencyKey := none
  memo := none
  createdBy := 1

def Db.tenOnHand : Db := Db.oneItem.recorded 3 tenReceived ⟨10, 100⟩

theorem reconciled_tenOnHand : Reconciled .tenOnHand :=
  (reconciled_of_empty rfl rfl : Reconciled .oneItem).recorded rfl nofun
    (rfl : Db.oneItem.items.find? 2 = some ⟨"item_2", "USD", 0, false, true⟩) rfl (by decide) (by decide)

/-- Two users issue six pieces each. -/
def issueTwice (i : Fin 2) : Uuid × PostMovementInput :=
  (sideBySide 10 20 i,
    { warehouseId := 1
      itemId := 2
      qtyDelta := -6
      unitCostMinor := 0
      movementType := "issue"
      idempotencyKey := some (sideBySide "first" "second" i)
      createdBy := 1 })

/-- The quantity that a transaction writes next is the committed one, moved by `delta`. -/
def movesCommitted {ι : Type} (delta : Int) (c : Config ι Db RowKey AppError PostMovementOutcome) (i : ι) : Bool :=
  match c.threads i with
  | .running ⟨.stmt l w _, pend, _⟩ => (l (pend c.db)).all fun
    | .stockLevel wh it => ((w (pend c.db) (pend c.db)).stockLevel wh it).qtyOnHand =
        (c.db.stockLevel wh it).qtyOnHand + delta
    | _ => true
  | _ => true

theorem writesLevelsRead_of_moves [Formats] {ι : Type} [DecidableEq ι] (request : ι → Uuid × PostMovementInput)
    {c d : Config ι Db RowKey AppError PostMovementOutcome}
    (h : ∀ i, movesCommitted (request i).2.qtyDelta c i = true) : WritesLevelsRead request c d := by
  rintro i x ks ⟨⟨prog, pend, locks⟩, l, w, n, hrun, hstmt, hafter, _, _, rfl, _⟩ wh it hk v hv
  obtain rfl : prog = .stmt l w n := hstmt
  have hmoved := (throughout_postMovement (request i).1 (request i).2).afterAll hafter.symm
  rw [List.append_nil] at hmoved
  obtain ⟨u, hu, hw⟩ := hmoved _ wh it hk
  obtain rfl : u = v := Option.some.inj (hu.symm.trans hv)
  have hi := h i
  simp only [movesCommitted, hrun] at hi
  have hcommitted := List.all_eq_true.mp hi _ hk
  have hqty := of_decide_eq_true hcommitted
  have hread := hw (pend c.db)
  change ((w (pend c.db) (pend c.db)).stockLevel wh it).qtyOnHand = _ + (request i).2.qtyDelta at hread
  omega

/-- Two issues of four pieces side by side, of which the second reads what the first has left. -/
theorem stock_reconciled_side_by_side :
    letI := canonicalFormats
    let request : Fin 2 → Uuid × PostMovementInput :=
      fun i => ((issueTwice i).1, { (issueTwice i).2 with qtyDelta := -4 })
    ∃ c, ReachableWhere (WritesLevelsRead request) (movementBody request) Db.tenOnHand c ∧
      (c.db.stockLevel 1 2).qtyOnHand = 2 ∧ Reconciled c.db ∧
      ∀ ctx w i, (reconcileStock ctx w i).run c.db = .ok (none, c.db) := by
  let := canonicalFormats
  intro request
  obtain ⟨c, hc, hend⟩ := ReachableWhere.of_play (movementBody request) Db.tenOnHand
    (fun c => [left, right].all (movesCommitted (-4) c)) (fun c => (c.db.stockLevel 1 2).qtyOnHand = 2)
    (fun c _ hP => writesLevelsRead_of_moves request fun i =>
      List.all_eq_true.mp hP i (mem_left_right i))
    (.exec right :: Move.through left 7 ++ Move.through right 6) (by decide +kernel)
  obtain ⟨hkept, hnone⟩ := stock_reconciled hc reconciled_tenOnHand
  exact ⟨c, hc, of_decide_eq_true hend, hkept, hnone⟩

/-- Both read ten and write four: the ledger says less than nothing. -/
theorem stock_drifts :
    letI := canonicalFormats
    Reconciled Db.tenOnHand ∧ ∃ c, Reachable (movementBody issueTwice) Db.tenOnHand c ∧
      (c.db.stockLevel 1 2).qtyOnHand = 4 ∧ c.db.qtyOnHandFromMovements 1 2 = -2 := by
  let := canonicalFormats
  obtain ⟨c, hc, hend⟩ := Reachable.of_play (movementBody issueTwice) Db.tenOnHand
    (List.replicate 4 (.exec 0) ++ Move.through 1 7 ++ Move.through 0 3)
    (fun c => (c.db.stockLevel 1 2).qtyOnHand = 4 && c.db.qtyOnHandFromMovements 1 2 = -2) (by decide +kernel)
  simp only [Bool.and_eq_true, decide_eq_true_eq] at hend
  exact ⟨reconciled_tenOnHand, c, hc, hend⟩

end Noxara.Inventory
