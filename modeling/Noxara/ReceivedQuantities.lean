import Mathlib.Algebra.Order.BigOperators.Group.List
import Noxara.InventoryReceipts

/-! What purchase orders have received. The remaining quantity of a line is checked when a receipt
is drafted and its lines are added when it is posted; no line is over-received as long as every draft
that is posted still fits its order. -/
namespace Noxara.Inventory

open Transaction
open Finance (Uuid PublicId Formats canonicalFormats)

/-- The part of the store that receipts are about. -/
def purchasing (db : Db) : Table Uuid PurchaseOrderRow × Table Uuid PurchaseOrderLineRow ×
    Table Uuid GoodsReceiptRow × Table Uuid GoodsReceiptLineRow :=
  (db.purchaseOrders, db.poLines, db.goodsReceipts, db.goodsReceiptLines)

section
variable [Formats]

theorem keeps_writeMovement (movementId : Uuid) (row : MovementRow) (item : ItemRow)
    (next : StockLevelRow) (cogs : Option Int) :
    (writeMovement movementId row item next cogs).Writes (Prog.Keeps purchasing) := by
  refine .bind (Prog.writes_execute (.id _) fun _ _ _ => rfl) fun _ =>
    .bind (Prog.writes_execute (.id _) fun _ _ _ => rfl) fun _ =>
      .bind (Prog.writes_execute (.id _) fun _ _ _ => rfl) fun _ => ?_
  split_ifs
  · exact .bind (Prog.writes_execute (.id _) fun _ _ _ => rfl) fun _ => trivial
  · trivial

theorem keeps_recordMovement (movementId : Uuid) (input : PostMovementInput) :
    (recordMovement movementId input).Writes (Prog.Keeps purchasing) := by
  simp only [recordMovement, fetchWarehouseExists, fetchItemPolicy, fetchStockLevel, bind_assoc]
  refine .bind (Prog.writes_query (.id _) _) fun warehouse => ?_
  cases warehouse with
  | none => trivial
  | some _ =>
    simp only [pure_bind]
    refine .bind (Prog.writes_query (.id _) _) fun policy => ?_
    cases policy with
    | none => trivial
    | some item =>
      simp only [pure_bind]
      refine .bind Prog.writes_require fun _ => .bind ?_ fun _ => .bind (Prog.writes_ofExcept _) fun _ =>
        .bind Prog.writes_require fun _ => keeps_writeMovement _ _ _ _ _
      exact Prog.writes_query (.id _) _

/-- A movement leaves orders and receipts alone. -/
theorem keeps_postMovement (movementId : Uuid) (input : PostMovementInput) :
    (postMovement movementId input).Writes (Prog.Keeps purchasing) := by
  refine .bind (Prog.writes_ofExcept _) fun _ => ?_
  cases input.idempotencyKey with
  | none => exact keeps_recordMovement movementId input
  | some key =>
    refine .bind (Prog.writes_query (.id _) _) fun existing => ?_
    cases existing with
    | none => exact keeps_recordMovement movementId input
    | some _ => exact .bind (Prog.writes_query (.id _) _) fun _ => trivial

/-- The order lines after the lines of a receipt have been added to them. -/
def receiveAll (lines : List GoodsReceiptLineRow) (t : Table Uuid PurchaseOrderLineRow) :
    Table Uuid PurchaseOrderLineRow :=
  lines.foldl (fun t line => t.modify line.poLineId (·.receive line)) t

theorem run_postLines {ctx : RequestCtx} {grnId : Uuid} {grnPublicId : String} {k : Nat} {total : Int}
    {lines : List GoodsReceiptLineRow} {s : Db} {r : Int × Db}
    (h : (postLines ctx grnId grnPublicId k total lines).run s = .ok r) :
    purchasing r.2 =
      (s.purchaseOrders, receiveAll lines s.poLines, s.goodsReceipts, s.goodsReceiptLines) := by
  induction lines generalizing k total s with
  | nil =>
    cases h
    rfl
  | cons line lines ih =>
    obtain ⟨_, u, hu, h⟩ := Prog.run_bind_ok.mp h
    obtain ⟨f, hf, rfl⟩ := (keeps_postMovement _ _).run_ok (.id purchasing) (fun _ _ => .comp) hu
    obtain ⟨-, h⟩ := Prog.run_execute_bind_ok.mp h
    have hview := hf s
    simp only [purchasing, Prod.mk.injEq] at hview
    obtain ⟨ho, hl, hg, hgl⟩ := hview
    rw [ih h]
    simp only [receiveAll, List.foldl_cons, ho, hl, hg, hgl]

/-- What posting a draft makes of orders and receipts. -/
structure PostedFrom (s : Db) (grnId : Uuid) (row : GoodsReceiptRow) (t : Db) : Prop where
  lines : t.goodsReceiptLines = s.goodsReceiptLines
  poLines : t.poLines = receiveAll (s.receiptLines grnId) s.poLines
  orders : t.purchaseOrders = s.purchaseOrders.modify row.purchaseOrderId fun r =>
    { r with
      status := if t.orderedTotal row.purchaseOrderId ≤ t.receivedTotal row.purchaseOrderId then
        .received else .partiallyReceived
      version := r.version + 1 }
  receipts : ∃ f : GoodsReceiptRow → GoodsReceiptRow, t.goodsReceipts = s.goodsReceipts.modify grnId f ∧
    ∀ r, (f r).status = .posted ∧ (f r).purchaseOrderId = r.purchaseOrderId

omit [Formats] in
/-- After the receipt is marked as posted, only the outbox and the stored responses change. -/
theorem keeps_answerPosted {ρ : Type} {π : Db → ρ}
    (hevent : ∀ db events, π { db with outbox := events } = π db)
    (hstored : ∀ db stored, π { db with idempotency := stored } = π db) (ctx : RequestCtx) (grnId : Uuid)
    (journalPublicId : String) (total : Int) (status : PurchaseOrderStatus) :
    (answerPosted ctx grnId journalPublicId total status).Writes (Prog.Keeps π) := by
  simp only [answerPosted, fetchGrn, toDto, bind_assoc, pure_bind]
  refine .bind (Prog.writes_query (.id _) _) fun found => ?_
  cases found with
  | none => trivial
  | some row =>
    exact .bind trivial fun _ => .bind (Prog.writes_query (.id _) _) fun _ =>
      .bind (Prog.writes_execute (.id _) fun _ _ _ => hevent _ _) fun _ =>
        .bind (AnswerTable.writes_record (.id _) (fun _ _ _ _ => hstored _ _) _ _ _) fun _ => trivial

theorem run_postDraft {ctx : RequestCtx} {grnId : Uuid} {row : GoodsReceiptRow} {s : Db}
    {r : Response × Db} (h : (postDraft ctx grnId row).run s = .ok r) : PostedFrom s grnId row r.2 := by
  simp only [postDraft, Prog.run_query_bind, Prog.run_okOr_bind_ok, Prog.run_require_bind_ok] at h
  obtain ⟨po, -, -, h⟩ := h
  obtain ⟨total, u, hu, h⟩ := Prog.run_bind_ok.mp h
  have hposted := run_postLines hu
  obtain ⟨totals, u', htotals, h⟩ := Prog.run_bind_ok.mp h
  obtain ⟨hsums, hsame⟩ := Prog.run_executeReturning_ok.mp htotals
  obtain rfl : u' = u := hsame
  split_ifs at hsums
  cases hsums
  obtain ⟨-, h⟩ := Prog.run_execute_bind_ok.mp h
  obtain ⟨journal, -, h⟩ := Prog.run_ofExcept_bind_ok.mp h
  obtain ⟨-, h⟩ := Prog.run_execute_bind_ok.mp h
  obtain ⟨f, hf, hr⟩ := (keeps_answerPosted (fun _ _ => rfl) (fun _ _ => rfl) _ _ _ _ _).run_ok
    (.id purchasing) (fun _ _ => .comp) h
  simp only [purchasing, Prod.mk.injEq] at hposted
  obtain ⟨ho, hl, hg, hgl⟩ := hposted
  have hview := (congrArg purchasing hr).trans (hf _)
  simp only [purchasing, Prod.mk.injEq] at hview
  obtain ⟨ho', hl', hg', hgl'⟩ := hview
  refine ⟨hgl'.trans hgl, hl'.trans hl, ?_, (·.posted ctx journal),
    hg'.trans (congrArg (Table.modify · _ _) hg), fun _ => ⟨rfl, rfl⟩⟩
  have hlines : r.2.linesOf row.purchaseOrderId = u'.linesOf row.purchaseOrderId := by
    rw [Db.linesOf, hl']
    rfl
  have hordered : r.2.orderedTotal row.purchaseOrderId = u'.orderedTotal row.purchaseOrderId := by
    rw [Db.orderedTotal, hlines]
    rfl
  have hreceived : r.2.receivedTotal row.purchaseOrderId = u'.receivedTotal row.purchaseOrderId := by
    rw [Db.receivedTotal, hlines]
    rfl
  rw [ho', ← ho, hordered, hreceived]

/-- The request posts this draft: it is not answered with a stored response. -/
structure Posts (ctx : RequestCtx) (id : String) (s : Db) (grnId : Uuid) (row : GoodsReceiptRow) : Prop where
  parsed : parsePublicId .goodsReceipt id = .ok grnId
  unanswered : ∀ key, ctx.idempotencyKey = some key →
    s.idempotency.find? ("goods_receipt.post", key) = none
  found : s.goodsReceipts.find? grnId = some row
  draft : row.status = .draft

theorem run_postReceipt {ctx : RequestCtx} {grnId : Uuid} {s : Db} {r : Response × Db}
    (h : (postReceipt ctx grnId).run s = .ok r) :
    purchasing r.2 = purchasing s ∨ ∃ row, s.goodsReceipts.find? grnId = some row ∧
      row.status = .draft ∧ PostedFrom s grnId row r.2 := by
  simp only [postReceipt, fetchGrn, bind_assoc, Prog.run_query_bind, Prog.run_okOr_bind_ok] at h
  obtain ⟨found, hfound, h⟩ := h
  cases hstatus : found.1.status with
  | posted =>
    simp only [hstatus] at h
    cases h
    exact .inl rfl
  | draft =>
    simp only [hstatus] at h
    exact .inr ⟨found.1, Db.fetchGrn_some hfound, hstatus, run_postDraft h⟩

theorem run_postGoodsReceipt {ctx : RequestCtx} {id : String} {s : Db} {r : Response × Db}
    (h : (postGoodsReceipt ctx id).run s = .ok r) :
    purchasing r.2 = purchasing s ∨ ∃ grnId row, Posts ctx id s grnId row ∧ PostedFrom s grnId row r.2 := by
  simp only [postGoodsReceipt, Prog.run_ofExcept_bind_ok] at h
  obtain ⟨grnId, hid, _, -, h⟩ := h
  rcases AnswerTable.replayOr_ok.mp h with ⟨stored, -, rfl⟩ | ⟨hunused, hrun⟩
  · exact .inl rfl
  · rcases run_postReceipt hrun with hsame | ⟨row, hrow, hdraft, hposted⟩
    · exact .inl hsame
    · refine .inr ⟨grnId, row, ⟨hid, fun k hk => ?_, hrow, hdraft⟩, hposted⟩
      rw [hk] at hunused
      exact hunused

end

/-- The quantity of these receipt lines for one line of an order. -/
def receivedOn (lines : List GoodsReceiptLineRow) (poLineId : Uuid) : Int :=
  (lines.map fun l => if l.poLineId = poLineId then l.qtyReceived else 0).sum

def Db.isPosted (db : Db) (grnId : Uuid) : Bool :=
  (db.goodsReceipts.find? grnId).any (·.status = .posted)

/-- What the posted receipts hold for a line of an order. -/
def Db.postedQty (db : Db) (poLineId : Uuid) : Int :=
  receivedOn (db.goodsReceiptLines.values.filter fun l => db.isPosted l.receiptId) poLineId

/-- Every line of an order received what the posted receipts hold for it and no more than was
ordered, and an order is received when all its lines are. -/
structure WithinOrders (db : Db) : Prop where
  bounds : ∀ p line, db.poLines.find? p = some line →
    0 ≤ line.qtyReceived ∧ line.qtyReceived ≤ line.qtyOrdered
  posted : ∀ p line, db.poLines.find? p = some line → line.qtyReceived = db.postedQty p
  status : ∀ poId po, db.purchaseOrders.find? poId = some po →
    (∃ p line, db.poLines.find? p = some line ∧ line.orderId = poId) →
    (po.status = .received ↔ ∀ p line, db.poLines.find? p = some line → line.orderId = poId →
      line.qtyReceived = line.qtyOrdered)

def Linked (db : Db) : Prop :=
  ∀ l ∈ db.goodsReceiptLines.values, ∃ g line, db.goodsReceipts.find? l.receiptId = some g ∧
    db.poLines.find? l.poLineId = some line ∧ line.orderId = g.purchaseOrderId

/-- The order still has room for all that the receipt would add. -/
def FitsOrder (db : Db) (grnId : Uuid) : Prop :=
  ∀ p line, db.poLines.find? p = some line →
    line.qtyReceived + receivedOn (db.receiptLines grnId) p ≤ line.qtyOrdered

theorem receivedOn_cons (l : GoodsReceiptLineRow) (lines : List GoodsReceiptLineRow) (p : Uuid) :
    receivedOn (l :: lines) p = (if l.poLineId = p then l.qtyReceived else 0) + receivedOn lines p := rfl

theorem receivedOn_eq_zero {lines : List GoodsReceiptLineRow} {p : Uuid}
    (h : ∀ l ∈ lines, l.poLineId ≠ p) : receivedOn lines p = 0 := by
  induction lines with
  | nil => rfl
  | cons l lines ih =>
    obtain ⟨hl, hlines⟩ := List.forall_mem_cons.mp h
    rw [receivedOn_cons, if_neg hl, ih hlines]
    rfl

/-- Lines picked for one of two reasons that exclude each other. -/
theorem receivedOn_filter_or (lines : List GoodsReceiptLineRow) (p : Uuid)
    {a b : GoodsReceiptLineRow → Bool} (h : ∀ l, a l = true → b l = false) :
    receivedOn (lines.filter fun l => a l || b l) p =
      receivedOn (lines.filter a) p + receivedOn (lines.filter b) p := by
  induction lines with
  | nil => rfl
  | cons l lines ih =>
    by_cases ha : a l = true
    · have hb := h l ha
      simp only [List.filter_cons, ha, hb, Bool.true_or, if_true, receivedOn_cons, ih]
      simp only [Bool.false_eq_true, if_false]
      omega
    · by_cases hb : b l = true
      · have ha := Bool.not_eq_true _ ▸ ha
        simp only [List.filter_cons, ha, hb, Bool.or_true, if_true, receivedOn_cons, ih]
        simp only [Bool.false_eq_true, if_false]
        omega
      · simp [ha, hb, ih]

theorem find?_receiveAll (lines : List GoodsReceiptLineRow) (t : Table Uuid PurchaseOrderLineRow)
    (p : Uuid) :
    (receiveAll lines t).find? p =
      (t.find? p).map fun r => lines.foldl (fun r l => if l.poLineId = p then r.receive l else r) r := by
  induction lines generalizing t with
  | nil => simp [receiveAll]
  | cons l lines ih =>
    have hcons : receiveAll (l :: lines) t = receiveAll lines (t.modify l.poLineId (·.receive l)) := rfl
    rw [hcons, ih]
    by_cases hp : l.poLineId = p
    · subst hp
      rw [Table.find?_modify_self]
      cases t.find? l.poLineId <;> simp
    · rw [Table.find?_modify_ne _ _ (Ne.symm hp)]
      simp [hp]

theorem received_foldl (lines : List GoodsReceiptLineRow) (p : Uuid) (r : PurchaseOrderLineRow) :
    let r' := lines.foldl (fun r l => if l.poLineId = p then r.receive l else r) r
    r'.qtyReceived = r.qtyReceived + receivedOn lines p ∧ r'.qtyOrdered = r.qtyOrdered ∧
      r'.orderId = r.orderId := by
  induction lines generalizing r with
  | nil => simp [receivedOn]
  | cons l lines ih =>
    obtain ⟨hq, ho, hi⟩ := ih (if l.poLineId = p then r.receive l else r)
    rw [receivedOn_cons]
    split_ifs at hq ho hi ⊢ with hp
    · refine ⟨?_, ?_, ?_⟩
      · simp only [List.foldl_cons, if_pos hp, hq]
        simp only [PurchaseOrderLineRow.receive]
        omega
      · simp only [List.foldl_cons, if_pos hp, ho]
        rfl
      · simp only [List.foldl_cons, if_pos hp, hi]
        rfl
    · refine ⟨?_, ?_, ?_⟩
      · simp only [List.foldl_cons, if_neg hp, hq]
        omega
      · simp only [List.foldl_cons, if_neg hp, ho]
      · simp only [List.foldl_cons, if_neg hp, hi]

/-- A line found after a receipt was added comes from one found before. -/
theorem find?_receiveAll_some {lines : List GoodsReceiptLineRow} {t : Table Uuid PurchaseOrderLineRow}
    {p : Uuid} {r' : PurchaseOrderLineRow} (h : (receiveAll lines t).find? p = some r') :
    ∃ r, t.find? p = some r ∧ r'.qtyReceived = r.qtyReceived + receivedOn lines p ∧
      r'.qtyOrdered = r.qtyOrdered ∧ r'.orderId = r.orderId := by
  rw [find?_receiveAll] at h
  obtain ⟨r, hr, rfl⟩ := Option.map_eq_some_iff.mp h
  exact ⟨r, hr, received_foldl lines p r⟩

theorem find?_receiveAll_of_some (lines : List GoodsReceiptLineRow) {t : Table Uuid PurchaseOrderLineRow}
    {p : Uuid} {r : PurchaseOrderLineRow} (h : t.find? p = some r) :
    ∃ r', (receiveAll lines t).find? p = some r' ∧ r'.qtyReceived = r.qtyReceived + receivedOn lines p ∧
      r'.qtyOrdered = r.qtyOrdered ∧ r'.orderId = r.orderId := by
  rw [find?_receiveAll, h]
  exact ⟨_, rfl, received_foldl lines p r⟩

/-- Sums of quantities within bounds agree only where every quantity does. -/
theorem ordered_le_received (lines : List PurchaseOrderLineRow)
    (h : ∀ l ∈ lines, l.qtyReceived ≤ l.qtyOrdered) :
    (lines.map (·.qtyOrdered)).sum ≤ (lines.map (·.qtyReceived)).sum ↔
      ∀ l ∈ lines, l.qtyReceived = l.qtyOrdered := by
  have hle : ∀ ls : List PurchaseOrderLineRow, (∀ l ∈ ls, l.qtyReceived ≤ l.qtyOrdered) →
      (ls.map (·.qtyReceived)).sum ≤ (ls.map (·.qtyOrdered)).sum :=
    fun ls hls => List.sum_le_sum hls
  induction lines with
  | nil => simp
  | cons l lines ih =>
    obtain ⟨hl, hlines⟩ := List.forall_mem_cons.mp h
    have hrest := hle lines hlines
    have ih := ih hlines
    simp only [List.map_cons, List.sum_cons, List.forall_mem_cons, ← ih]
    omega

/-- The property and what carries it. -/
def Sound (db : Db) : Prop := WithinOrders db ∧ Linked db

theorem Sound.of_purchasing {s t : Db} (h : purchasing t = purchasing s) (hs : Sound s) : Sound t := by
  obtain ⟨ho, hl, hg, hgl⟩ := by simpa only [purchasing, Prod.mk.injEq] using h
  refine ⟨⟨?_, ?_, ?_⟩, ?_⟩
  · simpa only [hl] using hs.1.bounds
  · simpa only [Db.postedQty, Db.isPosted, hl, hg, hgl] using hs.1.posted
  · simpa only [ho, hl] using hs.1.status
  · simpa only [Linked, hl, hg, hgl] using hs.2

namespace PostedFrom
variable {s t : Db} {grnId : Uuid} {row : GoodsReceiptRow} (h : PostedFrom s grnId row t)
include h

theorem isPosted (hrow : s.goodsReceipts.find? grnId = some row) (g : Uuid) :
    t.isPosted g = (s.isPosted g || decide (g = grnId)) := by
  obtain ⟨f, hf, hposted⟩ := h.receipts
  simp only [Db.isPosted, hf]
  by_cases hg : g = grnId
  · subst hg
    rw [Table.find?_modify_self, hrow]
    simp [(hposted row).1]
  · rw [Table.find?_modify_ne _ _ hg]
    simp [hg]

theorem postedQty (hrow : s.goodsReceipts.find? grnId = some row) (hdraft : row.status = .draft) (p : Uuid) :
    t.postedQty p = s.postedQty p + receivedOn (s.receiptLines grnId) p := by
  simp only [Db.postedQty, h.lines, h.isPosted hrow]
  refine receivedOn_filter_or _ _ fun l hl => ?_
  by_contra hne
  obtain rfl : l.receiptId = grnId := by simpa using hne
  simp [Db.isPosted, hrow, hdraft] at hl

theorem find?_poLines {p : Uuid} {line : PurchaseOrderLineRow} (hline : t.poLines.find? p = some line) :
    ∃ r, s.poLines.find? p = some r ∧
      line.qtyReceived = r.qtyReceived + receivedOn (s.receiptLines grnId) p ∧
      line.qtyOrdered = r.qtyOrdered ∧ line.orderId = r.orderId := by
  rw [h.poLines] at hline
  exact find?_receiveAll_some hline

omit h in
theorem receivedOn_other (hlinked : Linked s) (hrow : s.goodsReceipts.find? grnId = some row) {p : Uuid}
    {line : PurchaseOrderLineRow} (hline : s.poLines.find? p = some line)
    (hother : line.orderId ≠ row.purchaseOrderId) : receivedOn (s.receiptLines grnId) p = 0 := by
  refine receivedOn_eq_zero fun l hl hp => hother ?_
  obtain ⟨hmem, hgrn⟩ := List.mem_filter.mp hl
  obtain ⟨g, r, hg, hr, horder⟩ := hlinked l hmem
  obtain rfl : l.receiptId = grnId := of_decide_eq_true hgrn
  subst hp
  obtain rfl : g = row := Option.some.inj (hg.symm.trans hrow)
  obtain rfl : r = line := Option.some.inj (hr.symm.trans hline)
  exact horder

theorem linked (hs : Linked s) : Linked t := by
  intro l hl
  rw [h.lines] at hl
  obtain ⟨g, line, hg, hline, horder⟩ := hs l hl
  obtain ⟨f, hf, hposted⟩ := h.receipts
  obtain ⟨line', hline', -, -, horder'⟩ := find?_receiveAll_of_some (s.receiptLines grnId) hline
  rw [← h.poLines] at hline'
  by_cases hgrn : l.receiptId = grnId
  · refine ⟨f g, line', ?_, hline', ?_⟩
    · rw [hf, hgrn, Table.find?_modify_self, ← hgrn, hg]
      rfl
    · rw [(hposted g).2, ← horder, horder']
  · refine ⟨g, line', ?_, hline', horder'.trans horder⟩
    rw [hf, Table.find?_modify_ne _ _ hgrn, hg]

theorem bounds (hfits : FitsOrder s grnId) (p : Uuid) (line : PurchaseOrderLineRow)
    (hline : t.poLines.find? p = some line) :
    0 ≤ line.qtyReceived ∧ line.qtyReceived ≤ line.qtyOrdered := by
  obtain ⟨r, hr, hqty, hordered, -⟩ := h.find?_poLines hline
  refine ⟨line.received, ?_⟩
  rw [hqty, hordered]
  exact hfits p r hr

theorem status_self (hbounds : ∀ p line, t.poLines.find? p = some line →
    0 ≤ line.qtyReceived ∧ line.qtyReceived ≤ line.qtyOrdered) {po : PurchaseOrderRow}
    (hpo : t.purchaseOrders.find? row.purchaseOrderId = some po) :
    po.status = .received ↔ ∀ p line, t.poLines.find? p = some line →
      line.orderId = row.purchaseOrderId → line.qtyReceived = line.qtyOrdered := by
  have hmem : ∀ line, line ∈ t.linesOf row.purchaseOrderId ↔
      ∃ p, t.poLines.find? p = some line ∧ line.orderId = row.purchaseOrderId := by
    intro line
    simp only [Db.linesOf, List.mem_filter, decide_eq_true_eq, Table.values, List.mem_map, Prod.exists,
      exists_eq_right, Table.find?_eq_some]
    constructor
    · rintro ⟨⟨p, hp⟩, ho⟩
      exact ⟨p, hp, ho⟩
    · rintro ⟨p, hp, ho⟩
      exact ⟨⟨p, hp⟩, ho⟩
  have htotals := ordered_le_received (t.linesOf row.purchaseOrderId) fun l hl => by
    obtain ⟨p, hp, _⟩ := (hmem l).mp hl
    exact (hbounds p l hp).2
  have hstatus : po.status = .received ↔
      t.orderedTotal row.purchaseOrderId ≤ t.receivedTotal row.purchaseOrderId := by
    rw [h.orders, Table.find?_modify_self] at hpo
    obtain ⟨old, -, rfl⟩ := Option.map_eq_some_iff.mp hpo
    dsimp only
    split_ifs with hle <;> simp [hle]
  rw [hstatus]
  refine htotals.trans ⟨fun hall p line hp ho => hall line ((hmem line).mpr ⟨p, hp, ho⟩), fun hall l hl => ?_⟩
  obtain ⟨p, hp, ho⟩ := (hmem l).mp hl
  exact hall p l hp ho

theorem sound (hs : Sound s) (hrow : s.goodsReceipts.find? grnId = some row) (hdraft : row.status = .draft)
    (hfits : FitsOrder s grnId) : Sound t := by
  have hbounds := h.bounds hfits
  refine ⟨⟨hbounds, fun p line hline => ?_, fun poId po hpo hsome => ?_⟩, h.linked hs.2⟩
  · obtain ⟨r, hr, hqty, -, -⟩ := h.find?_poLines hline
    rw [hqty, hs.1.posted p r hr, h.postedQty hrow hdraft]
  · by_cases hself : poId = row.purchaseOrderId
    · subst hself
      exact h.status_self hbounds hpo
    · rw [h.orders, Table.find?_modify_ne _ _ hself] at hpo
      -- The lines of another order are those it had.
      have hsame : ∀ p line, t.poLines.find? p = some line → line.orderId = poId →
          ∃ r, s.poLines.find? p = some r ∧ r.orderId = poId ∧ line.qtyReceived = r.qtyReceived ∧
            line.qtyOrdered = r.qtyOrdered := by
        intro p line hp ho
        obtain ⟨r, hr, hqty, hordered, horder⟩ := h.find?_poLines hp
        rw [receivedOn_other hs.2 hrow hr (horder ▸ ho ▸ hself), add_zero] at hqty
        exact ⟨r, hr, horder ▸ ho, hqty, hordered⟩
      obtain ⟨p₀, line₀, hp₀, ho₀⟩ := hsome
      obtain ⟨r₀, hr₀, hro₀, -, -⟩ := hsame p₀ line₀ hp₀ ho₀
      refine (hs.1.status poId po hpo ⟨p₀, r₀, hr₀, hro₀⟩).trans
        ⟨fun hall p line hp ho => ?_, fun hall p r hr hro => ?_⟩
      · obtain ⟨r, hr, hro, hqty, hordered⟩ := hsame p line hp ho
        rw [hqty, hordered]
        exact hall p r hr hro
      · obtain ⟨line, hline, -, -, horder⟩ := find?_receiveAll_of_some (s.receiptLines grnId) hr
        rw [← h.poLines] at hline
        obtain ⟨r', hr', -, hqty, hordered⟩ := hsame p line hline (horder.trans hro)
        obtain rfl : r = r' := Option.some.inj (hr.symm.trans hr')
        rw [← hqty, ← hordered]
        exact hall p line hline (horder.trans hro)

end PostedFrom

theorem Sound.insertReceipt {s : Db} (hs : Sound s) {grnId : Uuid} {row : GoodsReceiptRow}
    (hfree : s.goodsReceipts.find? grnId = none) (hdraft : row.status = .draft) :
    Sound { s with goodsReceipts := s.goodsReceipts.insert grnId row } := by
  have hposted : ∀ g, ({ s with goodsReceipts := s.goodsReceipts.insert grnId row } : Db).isPosted g =
      s.isPosted g := by
    intro g
    by_cases hg : g = grnId
    · subst hg
      simp [Db.isPosted, Table.find?_insert_self hfree, hfree, hdraft]
    · simp [Db.isPosted, Table.find?_insert_ne _ _ hg]
  refine ⟨⟨hs.1.bounds, ?_, hs.1.status⟩, fun l hl => ?_⟩
  · simpa only [Db.postedQty, hposted] using hs.1.posted
  · obtain ⟨g, line, hg, hline, horder⟩ := hs.2 l hl
    exact ⟨g, line, Table.find?_insert_of_some hg _, hline, horder⟩

theorem Sound.insertLine {s : Db} (hs : Sound s) {id : Uuid} {row : GoodsReceiptLineRow}
    {g : GoodsReceiptRow} {line : PurchaseOrderLineRow} (hfree : s.goodsReceiptLines.find? id = none)
    (hg : s.goodsReceipts.find? row.receiptId = some g) (hdraft : g.status = .draft)
    (hline : s.poLines.find? row.poLineId = some line) (horder : line.orderId = g.purchaseOrderId) :
    Sound { s with goodsReceiptLines := s.goodsReceiptLines.insert id row } := by
  have hvalues : (s.goodsReceiptLines.insert id row).values = s.goodsReceiptLines.values ++ [row] := by
    simp [Table.values, Table.rows_insert hfree]
  have hnot : s.isPosted row.receiptId = false := by simp [Db.isPosted, hg, hdraft]
  refine ⟨⟨hs.1.bounds, fun p r hr => ?_, hs.1.status⟩, fun l hl => ?_⟩
  · rw [hs.1.posted p r hr]
    simp only [Db.postedQty, hvalues, List.filter_append]
    have hnone : [row].filter (fun l => s.isPosted l.receiptId) = [] := by simp [hnot]
    change _ = receivedOn (_ ++ [row].filter fun l => s.isPosted l.receiptId) p
    rw [hnone, List.append_nil]
    rfl
  · rcases Table.mem_values_insert hl with hold | rfl
    · exact hs.2 l hold
    · exact ⟨g, line, hg, hline, horder⟩

section
variable [Formats]

theorem run_resolveLine {poId : Uuid} {line : CreateGoodsReceiptLineRequest} {s : Db}
    {r : ResolvedLine × Db} (h : (resolveLine poId line).run s = .ok r) :
    r.2 = s ∧ ∃ row, s.poLines.find? r.1.poLineId = some row ∧ row.orderId = poId := by
  unfold resolveLine at h
  split_ifs at h
  · simp only [Prog.run_ofExcept_bind_ok, Prog.run_query_bind, Prog.run_okOr_bind_ok,
      Prog.run_require_bind_ok] at h
    obtain ⟨poLineId, -, row, hrow, -, -, h⟩ := h
    cases h
    obtain ⟨hfound, horder⟩ := Option.filter_eq_some_iff.mp hrow
    exact ⟨rfl, row, hfound, of_decide_eq_true horder⟩
  · cases h

theorem run_resolveLines {poId : Uuid} {lines : List CreateGoodsReceiptLineRequest} {s : Db}
    {r : List ResolvedLine × Db} (h : (resolveLines poId lines).run s = .ok r) :
    r.2 = s ∧ ∀ l ∈ r.1, ∃ row, s.poLines.find? l.poLineId = some row ∧ row.orderId = poId := by
  induction lines generalizing r with
  | nil =>
    cases h
    exact ⟨rfl, nofun⟩
  | cons line lines ih =>
    obtain ⟨resolved, t, hline, hrest⟩ := Prog.run_bind_ok.mp h
    obtain ⟨ht, hrow⟩ := run_resolveLine hline
    obtain rfl : t = s := ht
    obtain ⟨rest, t', hlines, hpure⟩ := Prog.run_bind_ok.mp hrest
    obtain ⟨ht', hrows⟩ := ih hlines
    cases hpure
    exact ⟨ht', List.forall_mem_cons.mpr ⟨hrow, hrows⟩⟩

theorem run_insertLines {ctx : RequestCtx} {grnId : Uuid} {k : Nat} {lines : List ResolvedLine} {s : Db}
    {g : GoodsReceiptRow} {r : Unit × Db} (h : (insertLines ctx grnId k lines).run s = .ok r)
    (hs : Sound s) (hg : s.goodsReceipts.find? grnId = some g) (hdraft : g.status = .draft)
    (hlines : ∀ l ∈ lines, ∃ row, s.poLines.find? l.poLineId = some row ∧
      row.orderId = g.purchaseOrderId) : Sound r.2 := by
  induction lines generalizing k s with
  | nil =>
    cases h
    exact hs
  | cons line lines ih =>
    obtain ⟨hfree, h⟩ := Prog.run_execute_bind_ok.mp h
    obtain ⟨⟨row, hrow, horder⟩, hrest⟩ := List.forall_mem_cons.mp hlines
    split_ifs at hfree with hnone
    exact ih h (hs.insertLine (Option.not_isSome_iff_eq_none.mp hnone) hg hdraft hrow horder) hg hrest

omit [Formats] in
theorem keeps_answerDrafted (grnId : Uuid) :
    (answerDrafted grnId).Writes (Prog.Keeps purchasing) := by
  simp only [answerDrafted, fetchGrn, toDto, bind_assoc, pure_bind]
  refine .bind (Prog.writes_query (.id _) _) fun found => ?_
  cases found with
  | none => trivial
  | some row =>
    exact .bind trivial fun _ => .bind (Prog.writes_query (.id _) _) fun _ =>
      .bind (Prog.writes_execute (.id _) fun _ _ _ => rfl) fun _ => trivial

theorem run_createGoodsReceipt {ctx : RequestCtx} {body : CreateGoodsReceiptRequest} {s : Db}
    {r : Response × Db} (h : (createGoodsReceipt ctx body).run s = .ok r) (hs : Sound s) : Sound r.2 := by
  simp only [createGoodsReceipt, Prog.run_ofExcept_bind_ok, Prog.run_query_bind, Prog.run_okOr_bind_ok,
    Prog.run_require_bind_ok] at h
  obtain ⟨-, -, -, poId, -, po, -, -, h⟩ := h
  obtain ⟨resolved, t, hresolved, hinsert⟩ := Prog.run_bind_ok.mp h
  obtain ⟨ht, hrows⟩ := run_resolveLines hresolved
  obtain rfl : t = s := ht
  obtain ⟨hfree, hlines⟩ := Prog.run_execute_bind_ok.mp hinsert
  split_ifs at hfree with hsome
  have hnone := Option.not_isSome_iff_eq_none.mp hsome
  obtain ⟨_, u, hu, hanswer⟩ := Prog.run_bind_ok.mp hlines
  have hsound := run_insertLines hu (hs.insertReceipt hnone rfl) (Table.find?_insert_self hnone _) rfl hrows
  obtain ⟨f, hf, hr⟩ := (keeps_answerDrafted _).run_ok (.id purchasing) (fun _ _ => .comp) hanswer
  exact hsound.of_purchasing ((congrArg purchasing hr).trans (hf _))

inductive ReceiptRequest
  | create (ctx : RequestCtx) (body : CreateGoodsReceiptRequest)
  | post (ctx : RequestCtx) (id : String)

def ReceiptRequest.body : ReceiptRequest → Tx Response
  | create ctx body => createGoodsReceipt ctx body
  | post ctx id => postGoodsReceipt ctx id

def PostsWithinOrder (step : Db × ReceiptRequest) : Prop :=
  match step.2 with
  | .create _ _ => True
  | .post ctx id => ∀ grnId row, Posts ctx id step.1 grnId row → FitsOrder step.1 grnId

omit [Formats] in
theorem sound_of_fresh {db : Db} (hlines : db.goodsReceiptLines = .empty)
    (hqty : ∀ p line, db.poLines.find? p = some line → line.qtyReceived = 0)
    (hopen : ∀ poId po, db.purchaseOrders.find? poId = some po → po.status ≠ .received) : Sound db := by
  refine ⟨⟨fun p line hline => ?_, fun p line hline => ?_, fun poId po hpo hsome => ?_⟩, fun l hl => ?_⟩
  · have := line.ordered
    have := hqty p line hline
    omega
  · rw [hqty p line hline, Db.postedQty, hlines]
    rfl
  · obtain ⟨p, line, hline, ho⟩ := hsome
    refine ⟨fun h => absurd h (hopen poId po hpo), fun hall => ?_⟩
    have := line.ordered
    have := hqty p line hline
    have := hall p line hline ho
    omega
  · rw [hlines] at hl
    cases hl

/-- No run over-receives an order whose drafts fit it when they are posted. -/
theorem received_within_orders {s t : Db} {steps : List (Db × ReceiptRequest)}
    (h : Runs ReceiptRequest.body s steps t) (h0 : Sound s) (hc : ∀ x ∈ steps, PostsWithinOrder x) :
    WithinOrders t := by
  refine (h.invariant (I := Sound) h0 hc fun u o a v hfits hu hrun => ?_).1
  cases o with
  | create ctx body => exact run_createGoodsReceipt hrun hu
  | post ctx id =>
    rcases run_postGoodsReceipt hrun with hsame | ⟨grnId, row, hposts, hposted⟩
    · exact hu.of_purchasing hsame
    · exact hposted.sound hu hposts.found hposts.draft (hfits grnId row hposts)

end

/-- One order over ten pieces, issued to its supplier. -/
def Db.oneOrder : Db :=
  { Db.empty with
    warehouses := Table.empty.insert 1 ⟨"wh_1"⟩
    items := Table.empty.insert 2 ⟨"item_2", "USD", 0, false, true⟩
    purchaseOrders := Table.empty.insert 3 ⟨"po_3", .issued, "USD", 1⟩
    poLines := Table.empty.insert 4 ⟨"poln_4", 3, 2, 1, 10, 0, 100, by decide, by decide⟩ }

section
variable [Formats]

def tenPieces : CreateGoodsReceiptRequest :=
  ⟨(PublicId.mk .purchaseOrder 3).asStr, [⟨(PublicId.mk .purchaseOrderLine 4).asStr, 10, none⟩]⟩

def draftAndPost : List ReceiptRequest :=
  [.create (.nth 1) tenPieces, .post (.nth 2) (PublicId.mk .goodsReceipt 100).asStr]

/-- Two drafts over all ten pieces, and both posted. -/
def postTwoDrafts : List ReceiptRequest :=
  [.create (.nth 1) tenPieces, .create (.nth 2) tenPieces,
    .post (.nth 3) (PublicId.mk .goodsReceipt 100).asStr,
    .post (.nth 4) (PublicId.mk .goodsReceipt 200).asStr]

end

theorem sound_oneOrder : Sound Db.oneOrder := by
  refine sound_of_fresh rfl (fun p line h => ?_) fun poId po h => ?_
  · rcases Table.find?_insert_some h with h | ⟨-, rfl⟩
    · cases h
    · rfl
  · rcases Table.find?_insert_some h with h | ⟨-, rfl⟩
    · cases h
    · exact nofun

/-- Check the condition on a step. -/
def postsWithinOrder [Formats] (step : Db × ReceiptRequest) : Bool :=
  match step.2 with
  | .create _ _ => true
  | .post _ id =>
    match parsePublicId .goodsReceipt id with
    | .error _ => true
    | .ok grnId => step.1.poLines.rows.all fun r =>
        r.2.qtyReceived + receivedOn (step.1.receiptLines grnId) r.1 ≤ r.2.qtyOrdered

theorem postsWithinOrder_sound [Formats] {step : Db × ReceiptRequest} (h : postsWithinOrder step = true) :
    PostsWithinOrder step := by
  obtain ⟨db, request⟩ := step
  cases request with
  | create ctx body => trivial
  | post ctx id =>
    intro grnId row hposts p line hline
    simp only [postsWithinOrder, hposts.parsed] at h
    exact of_decide_eq_true (List.all_eq_true.mp h (p, line) (Table.find?_eq_some.mp hline))

/-- One draft, posted. -/
theorem received_within_orders_one_draft :
    letI := canonicalFormats
    ∃ steps t, Runs ReceiptRequest.body Db.oneOrder steps t ∧ (∀ x ∈ steps, PostsWithinOrder x) ∧
      (t.poLines.find? 4).map (·.qtyReceived) = some 10 ∧
      (t.purchaseOrders.find? 3).map (·.status) = some .received ∧ WithinOrders t := by
  let := canonicalFormats
  obtain ⟨steps, t, hrun, hend⟩ := Runs.of_play ReceiptRequest.body draftAndPost Db.oneOrder
    (fun steps t => steps.all postsWithinOrder &&
      ((t.poLines.find? 4).map (·.qtyReceived) = some 10 &&
        (t.purchaseOrders.find? 3).map (·.status) = some .received)) (by decide +kernel)
  simp only [Bool.and_eq_true, decide_eq_true_eq, List.all_eq_true] at hend
  have hfits : ∀ x ∈ steps, PostsWithinOrder x := fun x hx => postsWithinOrder_sound (hend.1 x hx)
  exact ⟨steps, t, hrun, hfits, hend.2.1, hend.2.2, received_within_orders hrun sound_oneOrder hfits⟩

/-- Ten pieces were ordered, twenty received. -/
theorem order_over_received :
    letI := canonicalFormats
    Sound Db.oneOrder ∧ ∃ steps t, Runs ReceiptRequest.body Db.oneOrder steps t ∧
      (t.poLines.find? 4).map (fun l => (l.qtyOrdered, l.qtyReceived)) = some (10, 20) := by
  let := canonicalFormats
  obtain ⟨steps, t, hrun, hend⟩ := Runs.of_play ReceiptRequest.body postTwoDrafts Db.oneOrder
    (fun _ t => (t.poLines.find? 4).map (fun l => (l.qtyOrdered, l.qtyReceived)) = some (10, 20))
    (by decide +kernel)
  exact ⟨sound_oneOrder, steps, t, hrun, of_decide_eq_true hend⟩

end Noxara.Inventory
