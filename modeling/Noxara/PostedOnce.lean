import Noxara.ReceivedQuantities

/-! A goods receipt is posted once. Competing posts read the draft without a lock; the movements are
keyed by line, the order's quantities are added with nothing but the row lock. Stock and order stay
in step as long as each addition is made while the committed receipt is a draft. -/
namespace Noxara.Inventory

open Transaction
open Finance (Uuid AppError PublicId Formats canonicalFormats)

/-- The part of the store that posting a receipt is about. -/
structure ReceiptView where
  movements : Table Uuid MovementRow
  poLines : Table Uuid PurchaseOrderLineRow
  goodsReceipts : Table Uuid GoodsReceiptRow
  goodsReceiptLines : Table Uuid GoodsReceiptLineRow

def receiptView (db : Db) : ReceiptView :=
  ⟨db.movements, db.poLines, db.goodsReceipts, db.goodsReceiptLines⟩

/-- The quantities of the movements with this key. -/
def movedBy (movements : Table Uuid MovementRow) (key : String) : List Int :=
  (movements.values.filter fun m => m.idempotencyKey = some key).map (·.qtyDelta)

theorem movedBy_insert {t : Table Uuid MovementRow} {id : Uuid} (h : t.find? id = none) (row : MovementRow)
    (key : String) : movedBy (t.insert id row) key =
      movedBy t key ++ if row.idempotencyKey = some key then [row.qtyDelta] else [] := by
  simp only [movedBy, Table.values, Table.rows_insert h, List.map_append, List.filter_append]
  split_ifs with hk <;> simp [hk]

theorem movedBy_eq_nil {db : Db} {key : String} :
    movedBy db.movements key = [] ↔ db.movementByKey key = none := by
  simp only [movedBy, Table.values, Db.movementByKey, List.map_eq_nil_iff, List.filter_eq_nil_iff,
    List.find?_eq_none, List.forall_mem_map, decide_eq_true_eq]

theorem lineKey_inj {grnPublicId : String} {l l' : GoodsReceiptLineRow}
    (h : lineKey grnPublicId l = lineKey grnPublicId l') : l.publicId = l'.publicId := by
  have htail : (toString l.publicId).toList = (toString l'.publicId).toList := by
    simpa [lineKey] using congrArg String.toList h
  exact String.toList_inj.mp htail

/-- The draft of a run: none of its lines was moved yet, and the public ids of its lines differ, as
their unique index has it. -/
structure Drafted (start : Db) (grnId : Uuid) (row : GoodsReceiptRow) : Prop where
  found : start.goodsReceipts.find? grnId = some row
  draft : row.status = .draft
  unmoved : ∀ l ∈ start.receiptLines grnId, movedBy start.movements (lineKey row.publicId l) = []
  distinct : ((start.receiptLines grnId).map (·.publicId)).Nodup

section
variable (start : Db) (grnId : Uuid) (row : GoodsReceiptRow)

/-- Nothing of the receipt reached stock or order. -/
structure PostedNothing (v : ReceiptView) : Prop where
  moved : ∀ l ∈ start.receiptLines grnId, movedBy v.movements (lineKey row.publicId l) = []
  poLines : v.poLines = start.poLines

/-- Each line reached stock and order once, with its quantity. -/
structure PostedAll (v : ReceiptView) : Prop where
  moved : ∀ l ∈ start.receiptLines grnId,
    movedBy v.movements (lineKey row.publicId l) = [l.qtyReceived]
  poLines : v.poLines = receiveAll (start.receiptLines grnId) start.poLines

/-- A draft reached nothing, a posted receipt everything. -/
structure InStep (v : ReceiptView) : Prop where
  lines : v.goodsReceiptLines = start.goodsReceiptLines
  receipt : ∃ r, v.goodsReceipts.find? grnId = some r ∧ r.publicId = row.publicId ∧
    ((r.status = .draft ∧ PostedNothing start grnId row v) ∨ (r.status = .posted ∧ PostedAll start grnId row v))

/-- The receipt is posted, and in step with stock and order. -/
def Finished (v : ReceiptView) : Prop :=
  InStep start grnId row v ∧ ∃ r, v.goodsReceipts.find? grnId = some r ∧ r.status = .posted

/-- The lines `done` reached stock and order, the lines `rest` did not yet. -/
structure Partly (done rest : List GoodsReceiptLineRow) (v : ReceiptView) : Prop where
  lines : v.goodsReceiptLines = start.goodsReceiptLines
  receipt : ∃ r, v.goodsReceipts.find? grnId = some r ∧ r.publicId = row.publicId
  moved : ∀ l ∈ done, movedBy v.movements (lineKey row.publicId l) = [l.qtyReceived]
  unmoved : ∀ l ∈ rest, movedBy v.movements (lineKey row.publicId l) = []
  poLines : v.poLines = receiveAll done start.poLines

end

section
variable {start : Db} {grnId : Uuid} {row : GoodsReceiptRow}

theorem Partly.next {done rest : List GoodsReceiptLineRow} {line : GoodsReceiptLineRow} {v : ReceiptView}
    (h : Partly start grnId row done (line :: rest) v)
    (hdistinct : ((done ++ line :: rest).map (·.publicId)).Nodup) {id : Uuid} {m : MovementRow}
    (hfree : v.movements.find? id = none) (hkey : m.idempotencyKey = some (lineKey row.publicId line))
    (hqty : m.qtyDelta = line.qtyReceived) :
    Partly start grnId row (done ++ [line]) rest
      { v with
        movements := v.movements.insert id m
        poLines := v.poLines.modify line.poLineId (·.receive line) } := by
  have hother : ∀ l, l.publicId ≠ line.publicId →
      movedBy (v.movements.insert id m) (lineKey row.publicId l) = movedBy v.movements (lineKey row.publicId l) := by
    intro l hl
    rw [movedBy_insert hfree, hkey, if_neg, List.append_nil]
    exact fun he => hl (lineKey_inj (Option.some.inj he)).symm
  rw [List.map_append, List.nodup_append, List.map_cons, List.nodup_cons] at hdistinct
  obtain ⟨-, ⟨hrest, -⟩, hdone⟩ := hdistinct
  refine ⟨h.lines, h.receipt, fun l hl => ?_, fun l hl => ?_, ?_⟩
  · rcases List.mem_append.mp hl with hl | hl
    · dsimp only
      rw [hother l (hdone _ (List.mem_map_of_mem hl) _ List.mem_cons_self)]
      exact h.moved l hl
    · obtain rfl := List.mem_singleton.mp hl
      dsimp only
      rw [movedBy_insert hfree, hkey, if_pos rfl, h.unmoved l List.mem_cons_self, hqty]
      rfl
  · dsimp only
    rw [hother l fun he => hrest (he ▸ List.mem_map_of_mem hl)]
    exact h.unmoved l (List.mem_cons_of_mem _ hl)
  · simp only [h.poLines, receiveAll, List.foldl_append, List.foldl_cons, List.foldl_nil]

/-- Marking the receipt ends the post in step. -/
theorem Partly.finished {cur : ReceiptView} (h : Partly start grnId row (start.receiptLines grnId) [] cur)
    (ctx : RequestCtx) (journal : String) : Finished start grnId row
      { cur with goodsReceipts := cur.goodsReceipts.modify grnId (·.posted ctx journal) } := by
  obtain ⟨r, hr, hid⟩ := h.receipt
  have hfound : (cur.goodsReceipts.modify grnId (·.posted ctx journal)).find? grnId =
      some (r.posted ctx journal) := by
    rw [Table.find?_modify_self, hr]
    rfl
  exact ⟨⟨h.lines, _, hfound, hid, .inr ⟨rfl, h.moved, h.poLines⟩⟩, _, hfound, rfl⟩

end

section
variable [Formats]

theorem keeps_writeLevel (movementId : Uuid) (row : MovementRow) (item : ItemRow) (next : StockLevelRow)
    (cogs : Option Int) :
    (writeLevel movementId row item next cogs).Writes (Prog.Keeps receiptView) := by
  refine .bind (Prog.writes_execute (.id _) fun _ _ _ => rfl) fun _ =>
    .bind (Prog.writes_execute (.id _) fun _ _ _ => rfl) fun _ => ?_
  split_ifs
  · exact .bind (Prog.writes_execute (.id _) fun _ _ _ => rfl) fun _ => trivial
  · trivial

theorem held_postMovement {β : Type} {movementId : Uuid} {input : PostMovementInput} {key : String}
    (hkey : input.idempotencyKey = some key) {cur : ReceiptView} (hnone : movedBy cur.movements key = [])
    {G : ReceiptView → Prop} {f : PostMovementOutcome → Tx β}
    (hf : ∀ a m, m.idempotencyKey = some key → m.qtyDelta = input.qtyDelta →
      cur.movements.find? movementId = none →
      (f a).Held receiptView G { cur with movements := cur.movements.insert movementId m }) :
    (postMovement movementId input >>= f).Held receiptView G cur := by
  simp only [postMovement, hkey, bind_assoc]
  refine .ofExcept_bind fun _ _ => .query_bind fun v hv => ?_
  obtain rfl : receiptView v = cur := hv
  simp only [movedBy_eq_nil.mp hnone, recordMovement, fetchWarehouseExists, fetchItemPolicy,
    fetchStockLevel, bind_assoc]
  refine .query_bind fun v₁ _ => ?_
  cases v₁.warehouses.find? input.warehouseId with
  | none => trivial
  | some _ =>
    simp only [pure_bind]
    refine .query_bind fun v₂ _ => ?_
    cases v₂.items.find? input.itemId with
    | none => trivial
    | some item =>
      simp only [pure_bind, writeMovement, bind_assoc]
      refine .require_bind fun _ => .query_bind fun v₃ _ => .ofExcept_bind fun next _ =>
        .require_bind fun _ => .write_bind fun v₄ hv₄ hfree => ?_
      have hfree := (movementFree_ok hfree).1
      refine ⟨_, fun s hs => ?_, .bind (keeps_writeLevel _ _ _ _ _) fun a =>
        hf a (input.row movementId item.currency) hkey rfl ?_⟩
      · rw [← hs]
        rfl
      · rw [← hv₄]
        exact hfree

variable {start : Db} {grnId : Uuid} {row : GoodsReceiptRow}

/-- The remaining lines reach stock and order, or the body ends. -/
theorem held_postLines {β : Type} {ctx : RequestCtx} {k : Nat} {total : Int}
    {done rest : List GoodsReceiptLineRow} {cur : ReceiptView} {G : ReceiptView → Prop} {f : Int → Tx β}
    (hcur : Partly start grnId row done rest cur)
    (hdistinct : ((done ++ rest).map (·.publicId)).Nodup)
    (hf : ∀ total' cur', Partly start grnId row (done ++ rest) [] cur' → (f total').Held receiptView G cur') :
    (postLines ctx grnId row.publicId k total rest >>= f).Held receiptView G cur := by
  induction rest generalizing k total done cur with
  | nil =>
    rw [List.append_nil] at hf
    exact hf total cur hcur
  | cons line rest ih =>
    simp only [postLines, bind_assoc]
    have hkey : (lineMovement ctx grnId row.publicId line).idempotencyKey = some (lineKey row.publicId line) := rfl
    refine held_postMovement hkey (hcur.unmoved line List.mem_cons_self) fun _ m hm hqty hfree => ?_
    have hnext := hcur.next hdistinct hfree hm hqty
    rw [List.append_cons] at hdistinct hf
    refine .execute_bind (fun _ s hs => ?_) (ih hnext hdistinct hf)
    exact congrArg (fun v : ReceiptView =>
      { v with poLines := v.poLines.modify line.poLineId (·.receive line) }) hs

omit [Formats] in
/-- What is left of a post once every line reached stock and order. -/
theorem held_finishPost {ctx : RequestCtx} {r : GoodsReceiptRow} {currency : String} {total : Int}
    {cur : ReceiptView} (hcur : Partly start grnId row (start.receiptLines grnId) [] cur) :
    (finishPost ctx grnId r currency total).Held receiptView (Finished start grnId row) cur := by
  refine .bind (Prog.writes_executeReturning (.id _) fun _ _ _ _ => rfl) fun totals =>
    .bind (Prog.writes_execute (.id _) fun _ _ _ => rfl) fun _ => .ofExcept_bind fun journal _ => ?_
  refine .execute_bind (fun _ s hs => ?_) (.of_writes
    (keeps_answerPosted (fun _ _ => rfl) (fun _ _ => rfl) _ _ _ _ _) (hcur.finished ctx journal))
  exact congrArg (fun v : ReceiptView =>
    { v with goodsReceipts := v.goodsReceipts.modify grnId (·.posted ctx journal) }) hs

theorem held_restOfPost {line : GoodsReceiptLineRow} {rest : List GoodsReceiptLineRow}
    (hlines : start.receiptLines grnId = line :: rest) {cur : ReceiptView}
    (hcur : Partly start grnId row [line] rest cur)
    (hdistinct : ((line :: rest).map (·.publicId)).Nodup) (ctx : RequestCtx) (k : Nat) (total : Int)
    (r : GoodsReceiptRow) (currency : String) :
    (postLines ctx grnId row.publicId k total rest >>= fun total =>
      finishPost ctx grnId r currency total).Held receiptView (Finished start grnId row) cur := by
  refine held_postLines hcur hdistinct fun total' cur' hcur' => held_finishPost ?_
  rw [hlines]
  exact hcur'

end

section
variable (start : Db) (grnId : Uuid)

/-- A transaction holds the row of the order's line that every post of the receipt adds to first. -/
def HoldsFirstLine (ls : List RowKey) : Prop :=
  ∃ l, (start.receiptLines grnId).head? = some l ∧ .poLine l.poLineId ∈ ls

/-- Others leave the receipt alone or post it, and leave it alone while that row is held. An order's
line is added to only while the committed receipt is a draft. -/
def receiptTerms : Terms Db RowKey where
  rely ls s s' := s'.goodsReceiptLines = s.goodsReceiptLines ∧
    (receiptView s' = receiptView s ∨ s'.isPosted grnId = true) ∧
    (HoldsFirstLine start grnId ls → receiptView s' = receiptView s)
  when _ ks s := ∀ p, .poLine p ∈ ks → s.isPosted grnId = false
  refl _ _ := ⟨rfl, .inl rfl, fun _ => rfl⟩
  trans := by
    rintro ls s t u ⟨hl, hv, hk⟩ ⟨hl', hv', hk'⟩
    refine ⟨hl'.trans hl, ?_, fun h => (hk' h).trans (hk h)⟩
    rcases hv' with he | hposted
    · rcases hv with he' | hposted
      · exact .inl (he.trans he')
      · have hreceipts : u.goodsReceipts = t.goodsReceipts := congrArg ReceiptView.goodsReceipts he
        refine .inr ?_
        rw [Db.isPosted, hreceipts]
        exact hposted
    · exact .inr hposted
  anti := fun hk ⟨hl, hv, hheld⟩ => ⟨hl, hv, fun ⟨l, hl, hm⟩ => hheld ⟨l, hl, hk _ hm⟩⟩

/-- From a store in step a post commits nothing of the receipt, or all of it under that row's lock. -/
def ReceiptPromise (row : GoodsReceiptRow) (x : Trail Db RowKey) (s : Db) : Prop :=
  InStep start grnId row (receiptView s) → receiptView (x.pend s) = receiptView s ∨
    (HoldsFirstLine start grnId x.locks ∧ Finished start grnId row (receiptView (x.pend s)))

end

section
variable [Formats]

theorem safe_recordMovement_view {T : Terms Db RowKey}
    {Q : Trail Db RowKey → PostMovementOutcome → Db → Prop} {movementId : Uuid}
    {input : PostMovementInput} {x : Trail Db RowKey} (hx : x.pend = id) (s : Db)
    (h : ∀ y a u v currency, v.movements.find? movementId = none →
      (∀ key, input.idempotencyKey = some key → movedBy v.movements key = []) → T.rely [] v u →
      (∀ t, receiptView (y.pend t) =
        { receiptView t with movements := t.movements.insert movementId (input.row movementId currency) }) →
      Q y a u) :
    (recordMovement movementId input).Safe T Q x s := by
  simp only [recordMovement, fetchWarehouseExists, fetchItemPolicy, fetchStockLevel, bind_assoc]
  refine Prog.Safe.query_bind fun u₁ _ _ => ?_
  cases (x.pend u₁).warehouses.find? input.warehouseId with
  | none => trivial
  | some _ =>
    refine Prog.Safe.query_bind fun u₂ _ _ => ?_
    cases ((x.look u₁).pend u₂).items.find? input.itemId with
    | none => trivial
    | some item =>
      refine Prog.Safe.require_bind fun _ => Prog.Safe.query_bind fun u₃ _ _ =>
        Prog.Safe.ofExcept_bind fun next _ => Prog.Safe.require_bind fun _ => ?_
      obtain ⟨seen, locks, pend⟩ := x
      obtain rfl : pend = id := hx
      refine Prog.Safe.execute_bind fun v _ _ hfree => Prog.Safe.of_writes (W := Prog.Keeps receiptView)
        (.id _) (fun _ _ => .comp) (keeps_writeLevel _ _ _ _ _) fun y f a u hf hy _ hu => ?_
      obtain ⟨hid, hkey⟩ := movementFree_ok hfree
      refine h y a u v item.currency hid (fun key hk => movedBy_eq_nil.mpr (hkey key hk))
        (T.anti (by simp) hu) fun t => ?_
      rw [hy]
      exact hf _

theorem safe_postMovement_view {T : Terms Db RowKey}
    {Q : Trail Db RowKey → PostMovementOutcome → Db → Prop} {movementId : Uuid}
    {input : PostMovementInput} {key : String} (hkey : input.idempotencyKey = some key)
    {x : Trail Db RowKey} (hx : x.pend = id) (s : Db)
    (hfound : ∀ y a u v, y.pend = id → movedBy v.movements key ≠ [] → T.rely [] v u → Q y a u)
    (hnew : ∀ y a u v m, m.idempotencyKey = some key → m.qtyDelta = input.qtyDelta →
      v.movements.find? movementId = none → T.rely [] v u →
      (∀ t, receiptView (y.pend t) =
        { receiptView t with movements := t.movements.insert movementId m }) → Q y a u) :
    (postMovement movementId input).Safe T Q x s := by
  obtain ⟨seen, locks, pend⟩ := x
  obtain rfl : pend = id := hx
  simp only [postMovement, hkey]
  refine Prog.Safe.ofExcept_bind fun _ _ => Prog.Safe.query_bind fun v _ _ => ?_
  cases hfind : Db.movementByKey (id v) key with
  | none =>
    refine safe_recordMovement_view rfl v fun y a u w currency hid _ hu hy => ?_
    exact hnew y a u w _ hkey rfl hid hu hy
  | some existing =>
    refine Prog.Safe.query_bind fun u₁ h₁ _ => Prog.Safe.pure fun u₂ h₂ => ?_
    refine hfound _ _ u₂ v rfl (fun hnil => ?_) (T.anti (by simp) (T.trans h₁ h₂))
    rw [movedBy_eq_nil] at hnil
    exact Option.some_ne_none _ (hfind.symm.trans hnil)

variable {start : Db} {grnId : Uuid} {row : GoodsReceiptRow}

omit [Formats] in
theorem safe_of_not_inStep {α : Type} {p : Tx α} {x : Trail Db RowKey} {u : Db}
    (hholds : HoldsFirstLine start grnId x.locks) (hnot : ¬InStep start grnId row (receiptView u)) :
    p.Safe (receiptTerms start grnId) (fun y _ v => ReceiptPromise start grnId row y v) x u := by
  refine Prog.Safe.of_writes trivial (fun _ _ _ _ => trivial) p.writes_any fun y f a v _ _ _ hv => ?_
  intro hin
  rw [hv.2.2 hholds] at hin
  exact absurd hin hnot

omit [Formats] in
theorem InStep.nothing {db : Db} (h : InStep start grnId row (receiptView db))
    (hdraft : db.isPosted grnId = false) : PostedNothing start grnId row (receiptView db) := by
  obtain ⟨r, hr, -, hcase⟩ := h.receipt
  rcases hcase with ⟨-, hnothing⟩ | ⟨hposted, -⟩
  · exact hnothing
  · have hr : db.goodsReceipts.find? grnId = some r := hr
    simp [Db.isPosted, hr, hposted] at hdraft

/-- The lines of the draft: with the first addition to the order, under its row lock, the post is in
step or can promise nothing. -/
theorem safe_postLines {ctx : RequestCtx} {line : GoodsReceiptLineRow} {rest : List GoodsReceiptLineRow}
    (hlines : start.receiptLines grnId = line :: rest) (hdrafted : Drafted start grnId row)
    {r : GoodsReceiptRow} {currency : String} {x : Trail Db RowKey} (hx : x.pend = id) (s : Db) :
    (postLines ctx grnId row.publicId 0 0 (line :: rest) >>= fun total =>
      finishPost ctx grnId r currency total).Safe (receiptTerms start grnId)
        (fun y _ v => ReceiptPromise start grnId row y v) x s := by
  have hhead : (start.receiptLines grnId).head? = some line := by rw [hlines]; rfl
  have hmem : line ∈ start.receiptLines grnId := by rw [hlines]; exact List.mem_cons_self
  simp only [postLines, bind_assoc]
  have hkeyed : (lineMovement ctx grnId row.publicId line).idempotencyKey = some (lineKey row.publicId line) := rfl
  refine Prog.Safe.bind (safe_postMovement_view hkeyed hx s
    (fun y a u v hy hmoved hu => ?_) (fun y a u v m hkey hqty hfree hu hy => ?_))
  · refine Prog.Safe.execute_bind fun w hw hwhen _ => safe_of_not_inStep
      ⟨line, hhead, List.mem_append_left _ List.mem_cons_self⟩ fun hin => ?_
    have hdraft : w.isPosted grnId = false := hwhen line.poLineId List.mem_cons_self
    have hsame : receiptView w = receiptView v := by
      have hvw := (receiptTerms start grnId).trans hu ((receiptTerms start grnId).anti (by simp) hw)
      exact hvw.2.1.resolve_right (by simp [hdraft])
    have hnone := (hin.nothing hdraft).moved line hmem
    rw [hsame] at hnone
    exact hmoved hnone
  · refine Prog.Safe.execute_bind fun w hw hwhen _ => ?_
    have hdraft : w.isPosted grnId = false := hwhen line.poLineId List.mem_cons_self
    have hsame : receiptView w = receiptView v := by
      have hvw := (receiptTerms start grnId).trans hu ((receiptTerms start grnId).anti (by simp) hw)
      exact hvw.2.1.resolve_right (by simp [hdraft])
    by_cases hin : InStep start grnId row (receiptView w)
    · have hnothing := hin.nothing hdraft
      have hpartly : Partly start grnId row [] (start.receiptLines grnId) (receiptView w) :=
        ⟨hin.lines, hin.receipt.imp fun _ h => ⟨h.1, h.2.1⟩, nofun, hnothing.moved, hnothing.poLines⟩
      rw [hlines] at hpartly
      have hdistinct := hdrafted.distinct
      rw [hlines] at hdistinct
      have hfree : (receiptView w).movements.find? (ctx.fresh 0) = none := by rw [hsame]; exact hfree
      have hnext := hpartly.next hdistinct hfree hkey hqty
      refine Prog.Safe.of_held (held_restOfPost hlines hnext hdistinct ctx _ _ r currency) rfl
        (?_ : ∀ k ∈ [RowKey.poLine line.poLineId], k ∈ _) (fun t ht => ?_) ?_ ?_
      · exact fun k hk => List.mem_append_left _ hk
      · rw [← ht]
        exact congrArg (fun v : ReceiptView =>
          { v with poLines := v.poLines.modify line.poLineId (·.receive line) }) (hy t)
      · exact fun ls t u hk htu ht => (htu.2.2 ⟨line, hhead, hk _ List.mem_cons_self⟩).trans ht
      · exact fun y a u hk _ hfinished _ => .inr ⟨⟨line, hhead, hk _ List.mem_cons_self⟩, hfinished⟩
    · exact safe_of_not_inStep ⟨line, hhead, List.mem_append_left _ List.mem_cons_self⟩ hin

omit [Formats] in
theorem receiptPromise_of_same {x : Trail Db RowKey} {s : Db} (hx : x.pend = id) :
    ReceiptPromise start grnId row x s := by
  intro _
  rw [hx]
  exact .inl rfl

theorem safe_postDraft (ctx : RequestCtx) (hdrafted : Drafted start grnId row) {x : Trail Db RowKey}
    (hx : x.pend = id) {s : Db} (hs : s.goodsReceiptLines = start.goodsReceiptLines) :
    (postDraft ctx grnId row).Safe (receiptTerms start grnId)
      (fun y _ v => ReceiptPromise start grnId row y v) x s := by
  obtain ⟨seen, locks, pend⟩ := x
  obtain rfl : pend = id := hx
  refine Prog.Safe.query_bind fun u₁ h₁ _ => Prog.Safe.okOr_bind fun po _ =>
    Prog.Safe.query_bind fun u₂ h₂ _ => Prog.Safe.require_bind fun hne =>
      Prog.Safe.query_bind fun u₃ h₃ _ => ?_
  have hlines₂ : u₂.goodsReceiptLines = start.goodsReceiptLines := h₂.1.trans (h₁.1.trans hs)
  have hlines₃ : u₃.receiptLines grnId = start.receiptLines grnId := by
    rw [Db.receiptLines, h₃.1, hlines₂]
    rfl
  cases hlines : start.receiptLines grnId with
  | nil =>
    refine absurd ?_ hne
    change (u₂.receiptLines grnId).filterMap _ = []
    rw [Db.receiptLines, hlines₂]
    change (start.receiptLines grnId).filterMap _ = []
    rw [hlines]
    rfl
  | cons line rest =>
    have hread : (id u₃).receiptLines grnId = line :: rest := hlines₃.trans hlines
    simp only [Trail.look, hread]
    exact safe_postLines hlines hdrafted rfl u₃

theorem safe_postReceipt (ctx : RequestCtx) (hdrafted : Drafted start grnId row) {x : Trail Db RowKey}
    (hx : x.pend = id) {s : Db} (hs : (receiptTerms start grnId).rely [] start s) :
    (postReceipt ctx grnId).Safe (receiptTerms start grnId)
      (fun y _ v => ReceiptPromise start grnId row y v) x s := by
  obtain ⟨seen, locks, pend⟩ := x
  obtain rfl : pend = id := hx
  simp only [postReceipt, fetchGrn, bind_assoc]
  refine Prog.Safe.query_bind fun u hu _ => Prog.Safe.okOr_bind fun found hfound => ?_
  have hstart := (receiptTerms start grnId).trans hs ((receiptTerms start grnId).anti (by simp) hu)
  cases hstatus : found.1.status with
  | posted => exact Prog.Safe.query_bind fun _ _ _ => Prog.Safe.pure fun _ _ => receiptPromise_of_same rfl
  | draft =>
    have hfound : u.goodsReceipts.find? grnId = some found.1 := Db.fetchGrn_some hfound
    have hsame : receiptView u = receiptView start := by
      refine hstart.2.1.resolve_right ?_
      simp [Db.isPosted, hfound, hstatus]
    have hrow : found.1 = row := by
      rw [show u.goodsReceipts = start.goodsReceipts from congrArg ReceiptView.goodsReceipts hsame] at hfound
      exact Option.some.inj (hfound.symm.trans hdrafted.found)
    rw [hrow]
    exact safe_postDraft ctx hdrafted rfl hstart.1

theorem safe_postGoodsReceipt (ctx : RequestCtx) {id : String}
    (hid : parsePublicId .goodsReceipt id = .ok grnId) (hdrafted : Drafted start grnId row) :
    (postGoodsReceipt ctx id).Safe (receiptTerms start grnId)
      (fun y _ v => ReceiptPromise start grnId row y v) .start start := by
  refine Prog.Safe.ofExcept_bind fun g hg => Prog.Safe.ofExcept_bind fun _ _ => ?_
  obtain rfl : g = grnId := Except.ok.inj (hg.symm.trans hid)
  cases ctx.idempotencyKey with
  | none =>
    refine safe_postReceipt ctx hdrafted ?_ ((receiptTerms start g).refl _ _)
    rfl
  | some key =>
    refine Prog.Safe.query_bind fun u hu _ => ?_
    split
    · exact Prog.Safe.pure fun _ _ => receiptPromise_of_same rfl
    · refine safe_postReceipt ctx hdrafted ?_ hu
      rfl

section Runs
variable {ι : Type} [DecidableEq ι]

/-- A line of an order is added to only while the committed receipt is a draft. -/
def AddsToDraft (request : ι → RequestCtx) (id : String) (grnId : Uuid)
    (c d : Config ι Db RowKey AppError Response) : Prop :=
  ∀ i x ks, c.Asks (fun i => postGoodsReceipt (request i) id) d i x ks →
    ∀ p, .poLine p ∈ ks → c.db.isPosted grnId = false

/-- In every run whose additions meet a draft, each line of the receipt reached both stock and order
once, or neither. -/
theorem receipt_posted_once {request : ι → RequestCtx} {id : String} {grnId : Uuid}
    {row : GoodsReceiptRow} {start : Db} {c : Config ι Db RowKey AppError Response}
    (h : ReachableWhere (AddsToDraft request id grnId) (fun i => postGoodsReceipt (request i) id) start c)
    (hid : parsePublicId .goodsReceipt id = .ok grnId) (hdrafted : Drafted start grnId row) :
    PostedNothing start grnId row (receiptView c.db) ∨ PostedAll start grnId row (receiptView c.db) := by
  have hstart : InStep start grnId row (receiptView start) :=
    ⟨rfl, row, hdrafted.found, rfl, .inl ⟨hdrafted.draft, hdrafted.unmoved, rfl⟩⟩
  have hin := (h.safe_and_invariant (T := fun _ => receiptTerms start grnId)
    (Q := fun _ x _ s => ReceiptPromise start grnId row x s)
    (I := fun s => InStep start grnId row (receiptView s))
    (fun i => safe_postGoodsReceipt (request i) hid hdrafted) (fun c d i x ks hk => hk i x ks) hstart
    (fun i x a s hs hx => ?_) fun i j x a ls s _ hs hx hdisjoint => ?_).2
  · obtain ⟨r, -, -, hcase⟩ := hin.receipt
    exact hcase.imp And.right And.right
  · rcases hx hs with hsame | ⟨-, hfinished⟩
    · rwa [hsame]
    · exact hfinished.1
  · rcases hx hs with hsame | ⟨⟨l, hl, hheld⟩, hfinished, r, hr, hposted⟩
    · exact ⟨congrArg ReceiptView.goodsReceiptLines hsame, .inl hsame, fun _ => hsame⟩
    · refine ⟨hfinished.lines.trans hs.lines.symm, .inr ?_, fun ⟨l', hl', hheld'⟩ => ?_⟩
      · have hr : (x.pend s).goodsReceipts.find? grnId = some r := hr
        simp [Db.isPosted, hr, hposted]
      · obtain rfl : l = l' := Option.some.inj (hl.symm.trans hl')
        exact absurd hheld' (hdisjoint _ hheld)

end Runs

end

def draftRow : GoodsReceiptRow :=
  { publicId := "grn_100"
    purchaseOrderId := 3
    status := .draft
    createdAt := 0
    updatedAt := 0 }

/-- The order of ten pieces, with a draft over all of them. -/
def Db.oneDraft : Db :=
  { Db.oneOrder with
    goodsReceipts := Table.empty.insert 100 draftRow
    goodsReceiptLines := Table.empty.insert 101
      ⟨"grln_101", 100, 4, 2, 1, 10, 100, Int.natCast_pos.mpr (Nat.succ_pos 9)⟩ }

theorem drafted_oneDraft : Drafted Db.oneDraft 100 draftRow :=
  ⟨by decide, rfl, by decide +kernel, by decide⟩

/-- The second post looks its key up before the first is through, but reads the receipt afterwards and answers
with it as it is. -/
theorem receipt_posted_once_side_by_side :
    letI := canonicalFormats
    let id := (PublicId.mk .goodsReceipt 100).asStr
    let ctx : Fin 2 → RequestCtx := sideBySide (.nth 3) { RequestCtx.nth 4 with idempotencyKey := some "post-2" }
    ∃ c, ReachableWhere (AddsToDraft ctx id 100) (fun i => postGoodsReceipt (ctx i) id) Db.oneDraft c ∧
      c.log.map (·.2.toOption.isSome) = [true, true] ∧ c.db.isPosted 100 = true ∧
      (PostedNothing Db.oneDraft 100 draftRow (receiptView c.db) ∨
        PostedAll Db.oneDraft 100 draftRow (receiptView c.db)) := by
  let := canonicalFormats
  intro id ctx
  let addsToDraft (c : Config (Fin 2) Db RowKey AppError Response) : Bool :=
    [left, right].all fun i => !c.db.isPosted 100 || (c.nextLocks i).all fun
      | .poLine _ => false
      | _ => true
  have hmeets : ∀ c d, addsToDraft c = true → AddsToDraft ctx id 100 c d := by
    intro c d hc i x ks hasks p hp
    have hi := List.all_eq_true.mp hc i (mem_left_right i)
    rw [hasks.nextLocks, Bool.or_eq_true, Bool.not_eq_true'] at hi
    refine hi.resolve_right fun hall => ?_
    cases List.all_eq_true.mp hall _ hp
  obtain ⟨c, hc, hQ⟩ := ReachableWhere.of_play (fun i => postGoodsReceipt (ctx i) id) Db.oneDraft addsToDraft
    (fun c => c.log.map (·.2.toOption.isSome) == [true, true] && c.db.isPosted 100) hmeets
    (.exec right :: Move.through left 18 ++ Move.through right 2) (by decide +kernel)
  simp only [Bool.and_eq_true, beq_iff_eq] at hQ
  exact ⟨c, hc, hQ.1, hQ.2, receipt_posted_once hc (by decide +kernel) drafted_oneDraft⟩

/-- Two users post the same draft. Both read it as a draft; the second replays the movement of the
first and adds the ten pieces to the order once more. -/
theorem receipt_added_twice :
    letI := canonicalFormats
    let id := (PublicId.mk .goodsReceipt 100).asStr
    Drafted Db.oneDraft 100 draftRow ∧
      ∃ c, Reachable (fun i => postGoodsReceipt (sideBySide (.nth 3) (.nth 4) i) id) Db.oneDraft c ∧
        c.db.movements.values.map (·.qtyDelta) = [10] ∧
        (c.db.poLines.find? 4).map (·.qtyReceived) = some 20 := by
  let := canonicalFormats
  intro id
  obtain ⟨c, hc, hend⟩ := Reachable.of_play
    (fun i => postGoodsReceipt (sideBySide (.nth 3) (.nth 4) i) id) Db.oneDraft
    (List.replicate 4 (.exec left) ++ Move.through right 18 ++ Move.through left 9)
    (fun c => c.db.movements.values.map (·.qtyDelta) = [10] &&
      (c.db.poLines.find? 4).map (·.qtyReceived) = some 20) (by decide +kernel)
  simp only [Bool.and_eq_true, decide_eq_true_eq] at hend
  exact ⟨drafted_oneDraft, c, hc, hend⟩

end Noxara.Inventory
