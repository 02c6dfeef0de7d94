import Noxara.PurchaseOrders

/-! Requests that draft purchase orders side by side: how many orders a purchase request leads to, and what
their totals say. -/
namespace Noxara.Purchasing

open Transaction
open Finance (Uuid AppError PublicId Formats canonicalFormats i64Max i64Min saturateI64 saturateI64_of_nonneg)

/-- What the lines cost, exactly. -/
def lineSum (ls : List OrderLineRow) : Int := (ls.map fun l => l.qtyOrdered * l.unitCostMinor).sum

def costOf (ls : List ResolvedLine) : Int := (ls.map fun l => l.qtyOrdered * l.unitCostMinor).sum

theorem ResolvedLine.cost_nonneg (l : ResolvedLine) : 0 ≤ l.qtyOrdered * l.unitCostMinor :=
  mul_nonneg l.ordered.le l.priced

theorem costOf_rows [Formats] (ls : List ResolvedLine) (poId : Uuid) (fresh : ℕ → Uuid) :
    lineSum (ls.mapIdx fun k l => l.row poId (fresh k)) = costOf ls := by
  induction ls generalizing fresh with
  | nil => rfl
  | cons l ls ih =>
    have hrest := ih fun k => fresh (k + 1)
    simp only [lineSum, costOf, List.mapIdx_cons, List.map_cons, List.sum_cons] at hrest ⊢
    rw [hrest]
    rfl

def Db.refs (db : Db) (pr : Uuid) : ℕ := db.orders.values.countP fun r => r.purchaseRequestId = some pr

def Db.Approved (db : Db) (pr : Uuid) : Prop := ∃ row, db.requests.find? pr = some row ∧ row.status = .approved

/-- The others leave a request and an order to whom holds its lock. -/
structure PurchaseRely (pr : Uuid) (ls : List RowKey) (s t : Db) : Prop where
  request : .request pr ∈ ls → t.requests.find? pr = s.requests.find? pr
  order : ∀ o, .order o ∈ ls → t.orders.find? o = s.orders.find? o

/-- A statement that locks the request finds it approved. -/
def purchaseTerms (pr : Uuid) : Terms Db RowKey where
  rely := PurchaseRely pr
  when _ ks s := .request pr ∈ ks → s.Approved pr
  refl _ _ := ⟨fun _ => rfl, fun _ _ => rfl⟩
  trans h h' := ⟨fun hk => (h'.request hk).trans (h.request hk), fun o hk => (h'.order o hk).trans (h.order o hk)⟩
  anti hls h := ⟨fun hk => h.request (hls _ hk), fun o hk => h.order o (hls _ hk)⟩

def convertedIn (named : Option Uuid) (t : Table Uuid PurchaseRequestRow) : Table Uuid PurchaseRequestRow :=
  match named with
  | some id => t.modify id (·.convert)
  | none => t

/-- The transaction has written the order `poId` with the lines `ls`, and has converted `named`. -/
structure Drafting (pr poId : Uuid) (row : OrderRow) (ls : List OrderLineRow) (named : Option Uuid)
    (x : Trail Db RowKey) (s : Db) : Prop where
  lock : .order poId ∈ x.locks
  new : s.orders.find? poId = none
  orders : ∀ t, (x.pend t).orders = t.orders.insert poId row
  lines : ∀ t, (x.pend t).lines = t.lines ++ ls
  requests : ∀ t, (x.pend t).requests = convertedIn named t.requests
  request : named = some pr → .request pr ∈ x.locks ∧ s.Approved pr

/-- What it commits: an order whose total is that of its lines, up to the largest amount. -/
def PurchasePromise (pr : Uuid) (x : Trail Db RowKey) (s : Db) : Prop :=
  ∃ poId row ls, Drafting pr poId row ls row.purchaseRequestId x s ∧ (∀ l ∈ ls, l.orderId = poId) ∧
    row.totalAmountMinor = min i64Max (lineSum ls)

section
variable {pr poId : Uuid} {row : OrderRow} {ls : List OrderLineRow} {named : Option Uuid} {x : Trail Db RowKey}
  {s u : Db}

theorem Drafting.rely (h : Drafting pr poId row ls named x s) (hs : PurchaseRely pr x.locks s u) :
    Drafting pr poId row ls named x u where
  lock := h.lock
  new := (hs.order poId h.lock).trans h.new
  orders := h.orders
  lines := h.lines
  requests := h.requests
  request hn := by
    obtain ⟨hlock, r, hr, hstatus⟩ := h.request hn
    exact ⟨hlock, r, (hs.request hlock).trans hr, hstatus⟩

/-- A statement that locks nothing and writes no order, line or request. -/
theorem Drafting.push (h : Drafting pr poId row ls named x s) {w : Db → Db → Db}
    (horders : ∀ v t, (w v t).orders = t.orders) (hlines : ∀ v t, (w v t).lines = t.lines)
    (hrequests : ∀ v t, (w v t).requests = t.requests) :
    Drafting pr poId row ls named (x.push (fun _ => []) w s) s where
  lock := h.lock
  new := h.new
  orders t := (horders _ _).trans (h.orders t)
  lines t := (hlines _ _).trans (h.lines t)
  requests t := (hrequests _ _).trans (h.requests t)
  request := h.request

theorem Drafting.look (h : Drafting pr poId row ls named x s) (v : Db) :
    Drafting pr poId row ls named (x.look v) s :=
  ⟨h.lock, h.new, h.orders, h.lines, h.requests, h.request⟩

theorem safe_insertOrder_bind {α : Type} {Q : Trail Db RowKey → α → Db → Prop} {f : Unit → Tx α}
    (hx : x.pend = id)
    (hf : ∀ y u, Drafting pr poId row [] none y u → (f ()).Safe (purchaseTerms pr) Q y u) :
    (insertOrder poId row >>= f).Safe (purchaseTerms pr) Q x s := by
  refine Prog.Safe.execute_bind fun u _ _ hcheck => hf _ _ ?_
  rw [hx, id_eq] at hcheck
  constructor
  · exact List.mem_append_left _ (List.mem_singleton_self _)
  · cases hfind : u.orders.find? poId with
    | none => rfl
    | some r => simp [hfind] at hcheck
  · intro t
    change (x.pend t).orders.insert poId row = t.orders.insert poId row
    rw [hx, id_eq]
  · intro t
    change (x.pend t).lines = t.lines ++ []
    rw [hx, id_eq, List.append_nil]
  · intro t
    change (x.pend t).requests = t.requests
    rw [hx, id_eq]
  · intro hnamed
    cases hnamed

theorem safe_insertLine (l : OrderLineRow) (h : Drafting pr poId row ls none x s) :
    (insertLine l).Safe (purchaseTerms pr) (fun y _ u => Drafting pr poId row (ls ++ [l]) none y u) x s := by
  rw [← bind_pure (insertLine l)]
  refine Prog.Safe.execute_bind fun u hu _ _ => Prog.Safe.pure fun w hw => ?_
  refine Drafting.rely ?_ hw
  have hd := h.rely hu
  constructor
  · exact hd.lock
  · exact hd.new
  · exact hd.orders
  · intro t
    change (x.pend t).lines ++ [l] = t.lines ++ (ls ++ [l])
    rw [hd.lines, List.append_assoc]
  · exact hd.requests
  · intro hnamed
    cases hnamed

theorem safe_insertLines (more : List OrderLineRow) (h : Drafting pr poId row ls none x s) :
    (Prog.each insertLine more).Safe (purchaseTerms pr) (fun y _ u => Drafting pr poId row (ls ++ more) none y u)
      x s := by
  induction more generalizing ls x s with
  | nil =>
    rw [List.append_nil]
    exact fun u hu => h.rely hu
  | cons l more ih =>
    refine Prog.Safe.bind ((safe_insertLine l h).mono fun y _ u hy => ?_)
    have hnext := ih hy
    rwa [List.append_assoc] at hnext

/-- The update of the purchase request, which a run of interest only makes where it is approved. -/
theorem safe_convertNamed (h : Drafting pr poId row ls none x s) :
    (convertNamed named).Safe (purchaseTerms pr) (fun y _ u => Drafting pr poId row ls named y u) x s := by
  cases named with
  | none => exact fun u hu => h.rely hu
  | some q =>
    change (convertRequest q).Safe _ _ _ _
    rw [← bind_pure (convertRequest q)]
    refine Prog.Safe.execute_bind fun u hu hwhen _ => Prog.Safe.pure fun w hw => ?_
    refine Drafting.rely ?_ hw
    have hd := h.rely hu
    constructor
    · exact List.mem_append_right _ hd.lock
    · exact hd.new
    · exact hd.orders
    · exact hd.lines
    · intro t
      change (x.pend t).requests.modify q _ = t.requests.modify q _
      rw [hd.requests]
      rfl
    · intro hq
      cases hq
      exact ⟨List.mem_append_left _ (List.mem_singleton_self _), hwhen (List.mem_singleton_self _)⟩

/-- Reading has left the transaction where it was. -/
def Unwritten (x y : Trail Db RowKey) : Prop := y.locks = x.locks ∧ y.pend = x.pend

section
variable [Formats] {T : Terms Db RowKey}

theorem safe_resolvePurchaseRequest (raw : Option String) :
    (resolvePurchaseRequest raw).Safe T (fun y _ _ => Unwritten x y) x s := by
  cases raw with
  | none => exact fun _ _ => ⟨rfl, rfl⟩
  | some raw =>
    exact Prog.Safe.ofExcept_bind fun id _ => Prog.Safe.query_bind fun u _ _ => Prog.Safe.okOr_bind fun r _ =>
      Prog.Safe.require_bind fun _ _ _ => ⟨rfl, rfl⟩

theorem safe_resolveLine (line : CreatePurchaseOrderLineRequest) :
    (resolveLine line).Safe T (fun y r _ => Unwritten x y ∧
      r.lineAmount = saturateI64 (r.qtyOrdered * r.unitCostMinor))
      x s := by
  unfold resolveLine
  split_ifs with hq hc
  · exact Prog.Safe.ofExcept_bind fun itemId _ => Prog.Safe.ofExcept_bind fun warehouseId _ =>
      Prog.Safe.query_bind fun u _ _ => Prog.Safe.okOr_bind fun _ _ =>
      Prog.Safe.query_bind fun v _ _ => Prog.Safe.okOr_bind fun _ _ _ _ => ⟨⟨rfl, rfl⟩, rfl⟩
  · trivial
  · trivial

theorem safe_resolveLines (lines : List CreatePurchaseOrderLineRequest) {total : Int} (htotal : 0 ≤ total) :
    (resolveLines (min i64Max total) lines).Safe T
      (fun y r _ => Unwritten x y ∧ r.1 = min i64Max (total + costOf r.2)) x s := by
  induction lines generalizing total x s with
  | nil =>
    intro u _
    refine ⟨⟨rfl, rfl⟩, ?_⟩
    simp [costOf]
  | cons line lines ih =>
    refine Prog.Safe.bind ((safe_resolveLine line).mono fun y r v hr => ?_)
    obtain ⟨hy, hamount⟩ := hr
    have hcost := r.cost_nonneg
    -- amounts that are not negative saturate at the end as they do along the way
    have hstep : saturateI64 (min i64Max total + r.lineAmount) = min i64Max
        (total + r.qtyOrdered * r.unitCostMinor) := by
      have hmax : 0 ≤ i64Max := by decide
      rw [hamount, saturateI64_of_nonneg hcost, saturateI64_of_nonneg (by omega)]
      omega
    rw [hstep]
    refine Prog.Safe.bind ((ih (x := y) (by omega)).mono fun z rest w hrest => fun _ _ => ?_)
    obtain ⟨hz, htotal'⟩ := hrest
    refine ⟨⟨hz.1.trans hy.1, hz.2.trans hy.2⟩, ?_⟩
    rw [htotal']
    simp only [costOf, List.map_cons, List.sum_cons, Int.add_assoc]

omit [Formats] in
theorem safe_answer (h : Drafting pr poId row ls named x s) (k : Uuid) :
    (do
      let found ← fetchPo k
      let dto ← toDto k found
      insertEvent ⟨dto.id, dto.totalAmountMinor⟩
      pure (201, dto) : Tx (ℕ × PurchaseOrderDto)).Safe (purchaseTerms pr)
      (fun y _ u => Drafting pr poId row ls named y u) x s := by
  simp only [fetchPo, toDto, bind_assoc, pure_bind]
  refine Prog.Safe.query_bind fun u hu _ => Prog.Safe.okOr_bind fun found _ => ?_
  refine Prog.Safe.query_bind fun v hv _ => Prog.Safe.execute_bind fun w hw _ _ => Prog.Safe.pure fun z hz => ?_
  have hread := (((h.rely hu).look u).rely hv).look v
  refine Drafting.rely (Drafting.push (hread.rely hw) ?_ ?_ ?_) hz
  · exact fun _ _ => rfl
  · exact fun _ _ => rfl
  · exact fun _ _ => rfl

theorem safe_createPurchaseOrder (ctx : RequestCtx) (body : CreatePurchaseOrderRequest) :
    (createPurchaseOrder ctx body).Safe (purchaseTerms pr) (fun y _ u => PurchasePromise pr y u) .start s := by
  refine Prog.Safe.ofExcept_bind fun _ _ => Prog.Safe.require_bind fun _ => Prog.Safe.ofExcept_bind fun _ _ => ?_
  refine Prog.Safe.ofExcept_bind fun supplierId _ => Prog.Safe.query_bind fun u _ _ => Prog.Safe.okOr_bind fun _ _ => ?_
  refine Prog.Safe.bind ((safe_resolvePurchaseRequest _).mono fun y named v hy => ?_)
  refine Prog.Safe.bind ((safe_resolveLines body.lines (le_refl (0 : Int))).mono fun z resolved w hz => ?_)
  obtain ⟨hz, htotal⟩ := hz
  have hpend : z.pend = id := hz.2.trans hy.2
  refine safe_insertOrder_bind hpend fun a b hfirst => ?_
  refine Prog.Safe.bind ((safe_insertLines _ hfirst).mono fun a' _ b' hlines => ?_)
  refine Prog.Safe.bind ((@safe_convertNamed _ _ _ _ named _ _ hlines).mono fun a'' _ b'' hconverted => ?_)
  refine (safe_answer hconverted _).mono fun c _ d hd => ⟨_, _, _, hd, ?_, ?_⟩
  · intro l hl
    obtain ⟨k, _, rfl⟩ := List.mem_mapIdx.mp hl
    rfl
  · change resolved.1 = _
    rw [htotal, List.nil_append, costOf_rows resolved.2 (ctx.fresh 0) fun k => ctx.fresh (k + 1), Int.zero_add]

end

end

/-- Every line has its order, and every total is that of the order's lines, up to the largest amount. -/
structure Db.Totalled (db : Db) : Prop where
  owned : ∀ l ∈ db.lines, (db.orders.find? l.orderId).isSome = true
  totals : ∀ o row, db.orders.find? o = some row → row.totalAmountMinor = min i64Max (lineSum (db.linesOf o))

/-- The request is approved and no order names it, or it is converted and one does. -/
def Db.ConvertedOnce (db : Db) (pr : Uuid) : Prop :=
  ∃ row, db.requests.find? pr = some row ∧
    (row.status = .approved ∧ db.refs pr = 0 ∨ row.status = .converted ∧ db.refs pr = 1)

section
variable {pr poId : Uuid} {row : OrderRow} {ls : List OrderLineRow} {x : Trail Db RowKey} {s : Db}

theorem Db.Totalled.linesOf_new (h : s.Totalled) (hnew : s.orders.find? poId = none) : s.linesOf poId = [] := by
  refine List.filter_eq_nil_iff.mpr fun l hl hid => ?_
  have howned := h.owned l hl
  rw [decide_eq_true_eq] at hid
  simp [hid, hnew] at howned

theorem linesOf_append {t : Db} (hlines : t.lines = s.lines ++ ls) (hls : ∀ l ∈ ls, l.orderId = poId) (o : Uuid) :
    t.linesOf o = s.linesOf o ++ if o = poId then ls else [] := by
  rw [Db.linesOf, hlines, List.filter_append]
  congr 1
  split_ifs with ho
  · exact List.filter_eq_self.mpr fun l hl => by simp [hls l hl, ho]
  · exact List.filter_eq_nil_iff.mpr fun l hl => by
      rw [hls l hl, decide_eq_true_eq]
      exact Ne.symm ho

theorem Drafting.totalled (h : s.Totalled) (hd : Drafting pr poId row ls row.purchaseRequestId x s)
    (hls : ∀ l ∈ ls, l.orderId = poId) (htotal : row.totalAmountMinor = min i64Max (lineSum ls)) :
    (x.pend s).Totalled := by
  have hself := Table.find?_insert_self hd.new row
  constructor
  · intro l hl
    rw [hd.lines, List.mem_append] at hl
    rw [hd.orders]
    rcases hl with hl | hl
    · obtain ⟨r, hr⟩ := Option.isSome_iff_exists.mp (h.owned l hl)
      simp [Table.find?_insert_of_some hr]
    · simp [hls l hl, hself]
  · intro o r ho
    rw [hd.orders] at ho
    rw [linesOf_append (hd.lines s) hls]
    by_cases hid : o = poId
    · subst hid
      rw [hself] at ho
      cases ho
      simpa [h.linesOf_new hd.new] using htotal
    · rw [Table.find?_insert_ne _ _ hid] at ho
      simpa [hid] using h.totals o r ho

theorem Drafting.refs_eq (hd : Drafting pr poId row ls row.purchaseRequestId x s) :
    (x.pend s).refs pr = s.refs pr + if row.purchaseRequestId = some pr then 1 else 0 := by
  rw [Db.refs, hd.orders, Table.values, Table.rows_insert hd.new]
  simp [Db.refs, Table.values, List.countP_append, List.countP_cons]

theorem Drafting.find?_request (hd : Drafting pr poId row ls row.purchaseRequestId x s) :
    (x.pend s).requests.find? pr =
      if row.purchaseRequestId = some pr then (s.requests.find? pr).map (·.convert) else s.requests.find? pr := by
  rw [hd.requests]
  cases hnamed : row.purchaseRequestId with
  | none => simp [convertedIn]
  | some q =>
    by_cases hq : q = pr
    · simp [convertedIn, hq, Table.find?_modify_self]
    · simp [convertedIn, hq, Table.find?_modify_ne _ _ (Ne.symm hq)]

theorem Drafting.convertedOnce (h : s.ConvertedOnce pr) (hd : Drafting pr poId row ls row.purchaseRequestId x s) :
    (x.pend s).ConvertedOnce pr := by
  obtain ⟨r, hr, hcase⟩ := h
  unfold Db.ConvertedOnce
  rw [hd.find?_request, hd.refs_eq]
  by_cases hnamed : row.purchaseRequestId = some pr
  · obtain ⟨_, r', hr', happroved⟩ := hd.request hnamed
    cases hr.symm.trans hr'
    have hnone : s.refs pr = 0 := by
      rcases hcase with ⟨_, hn⟩ | ⟨hconverted, _⟩
      · exact hn
      · rw [happroved] at hconverted
        cases hconverted
    exact ⟨r.convert, by simp [hnamed, hr], .inr ⟨rfl, by simp [hnamed, hnone]⟩⟩
  · exact ⟨r, by simp [hnamed, hr], by simpa [hnamed] using hcase⟩

theorem Drafting.relied {ks : List RowKey} (hd : Drafting pr poId row ls row.purchaseRequestId x s)
    (hks : ∀ k ∈ x.locks, k ∉ ks) : PurchaseRely pr ks s (x.pend s) where
  request hk := by
    rw [hd.find?_request, if_neg]
    exact fun hnamed => hks _ (hd.request hnamed).1 hk
  order o hk := by
    rw [hd.orders]
    refine Table.find?_insert_ne _ _ fun ho => ?_
    subst ho
    exact hks _ hd.lock hk

end

/-- The condition on a step: an update of the purchase request finds it approved in the committed store. -/
def ConvertsApproved {ι : Type} [DecidableEq ι] (prog : ι → Tx (ℕ × PurchaseOrderDto)) (pr : Uuid)
    (c d : Config ι Db RowKey AppError (ℕ × PurchaseOrderDto)) : Prop :=
  ∀ i x ks, c.Asks prog d i x ks → .request pr ∈ ks → c.db.Approved pr

/-- In every run whose updates of the purchase request find it approved it is converted by at most one order;
and a total is exact up to the largest amount. -/
theorem purchase_request_converted_once [Formats] {ι : Type} [DecidableEq ι] {ctx : ι → RequestCtx}
    {body : ι → CreatePurchaseOrderRequest} {pr : Uuid} {db : Db}
    {c : Config ι Db RowKey AppError (ℕ × PurchaseOrderDto)}
    (h : ReachableWhere (ConvertsApproved (fun i => createPurchaseOrder (ctx i) (body i)) pr)
      (fun i => createPurchaseOrder (ctx i) (body i)) db c)
    (happroved : db.Approved pr) (hnone : db.refs pr = 0) (htotalled : db.Totalled) :
    c.db.refs pr ≤ 1 ∧
    (c.db.refs pr = 1 ↔ ∃ row, c.db.requests.find? pr = some row ∧ row.status = .converted) ∧
    ∀ o row, c.db.orders.find? o = some row →
      (row.totalAmountMinor = lineSum (c.db.linesOf o) ↔ lineSum (c.db.linesOf o) ≤ i64Max) := by
  obtain ⟨r, hr, hstatus⟩ := happroved
  have hinv := h.safe_invariant (T := fun _ => purchaseTerms pr) (Q := fun _ x _ s => PurchasePromise pr x s)
    (I := fun s => s.ConvertedOnce pr ∧ s.Totalled) (fun i => safe_createPurchaseOrder (ctx i) (body i))
    (fun c d i x ks hk => hk i x ks) ?_ ⟨⟨r, hr, .inl ⟨hstatus, hnone⟩⟩, htotalled⟩ ?_
  · obtain ⟨⟨row, hrow, hcase⟩, htotals⟩ := hinv
    refine ⟨by omega, ?_, fun o row ho => ?_⟩
    · constructor
      · intro hone
        refine ⟨row, hrow, ?_⟩
        rcases hcase with ⟨_, hzero⟩ | ⟨hconverted, _⟩
        · omega
        · exact hconverted
      · rintro ⟨row', hrow', hconverted⟩
        cases hrow.symm.trans hrow'
        rcases hcase with ⟨happroved, _⟩ | ⟨_, hone⟩
        · rw [happroved] at hconverted
          cases hconverted
        · exact hone
    · rw [htotals.totals o row ho]
      omega
  · rintro i j x a ls s _ ⟨poId, row, lines, hd, _, _⟩ hdisjoint
    exact hd.relied hdisjoint
  · rintro i x a s ⟨hs, ht⟩ ⟨poId, row, lines, hd, hlines, htotal⟩
    exact ⟨hd.convertedOnce hs, hd.totalled ht hlines htotal⟩

def buyer (n : ℕ) : RequestCtx := ⟨⟨1, 0, fun k => 100 * n + k⟩, .ok ()⟩

def Db.oneApproved : Db where
  suppliers := Table.empty.insert 1 ⟨"sup_1"⟩
  items := Table.empty.insert 2 ⟨"itm_2", "USD", 0, false, true⟩
  warehouses := Table.empty.insert 3 ⟨"whs_3"⟩
  requests := Table.empty.insert 4 ⟨"prq_4", .approved, 1⟩
  orders := .empty
  lines := []
  outbox := []

def orderOne [Formats] (qty cost : Int) : CreatePurchaseOrderRequest where
  supplierId := (PublicId.mk .supplier 1).asStr
  purchaseRequestId := some (PublicId.mk .purchaseRequest 4).asStr
  currency := "USD"
  lines := [⟨(PublicId.mk .inventoryItem 2).asStr, (PublicId.mk .warehouse 3).asStr, qty, cost⟩]

theorem totalled_oneApproved : Db.oneApproved.Totalled := by
  constructor
  · intro l hl
    cases hl
  · intro o row h
    cases h

/-- Two buyers read the request as approved, and both draft an order; the total of the second is cut. -/
theorem purchase_request_converted_twice :
    letI := canonicalFormats
    Db.oneApproved.Approved 4 ∧ Db.oneApproved.refs 4 = 0 ∧
    ∃ c, Reachable (fun i => createPurchaseOrder (buyer (sideBySide 1 2 i))
        (sideBySide (orderOne 3 50) (orderOne i64Max 2) i)) Db.oneApproved c ∧
      ¬c.db.refs 4 ≤ 1 ∧
      ∃ o row, c.db.orders.find? o = some row ∧ row.totalAmountMinor ≠ lineSum (c.db.linesOf o) := by
  let := canonicalFormats
  refine ⟨⟨_, rfl, rfl⟩, rfl, ?_⟩
  obtain ⟨c, hc, hP⟩ := Reachable.of_play
    (fun i => createPurchaseOrder (buyer (sideBySide 1 2 i)) (sideBySide (orderOne 3 50) (orderOne i64Max 2) i))
    Db.oneApproved (List.replicate 4 (.exec left) ++ Move.through right 10 ++ Move.through left 6)
    (fun c => c.db.refs 4 == 2 &&
      (c.db.orders.find? 200).any fun row => row.totalAmountMinor != lineSum (c.db.linesOf 200))
    (by decide +kernel)
  simp only [Bool.and_eq_true, beq_iff_eq, Option.any_eq_true, bne_iff_ne] at hP
  obtain ⟨hrefs, row, hrow, htotal⟩ := hP
  exact ⟨c, hc, by omega, 200, row, hrow, htotal⟩

/-- The second buyer comes before the first has converted the request, but reads it afterwards and is refused. -/
theorem purchase_request_converted_once_side_by_side :
    letI := canonicalFormats
    let prog : Fin 2 → Tx (ℕ × PurchaseOrderDto) :=
      fun i => createPurchaseOrder (buyer (sideBySide 1 2 i)) (sideBySide (orderOne 3 50) (orderOne 5 50) i)
    ∃ c, ReachableWhere (ConvertsApproved prog 4) prog Db.oneApproved c ∧
      c.log.map (·.2.toOption.isSome) = [true, false] ∧ c.db.refs 4 = 1 ∧
      (∃ row, c.db.requests.find? 4 = some row ∧ row.status = .converted) ∧
      ∃ row, c.db.orders.find? 100 = some row ∧
        (row.totalAmountMinor = lineSum (c.db.linesOf 100) ↔ lineSum (c.db.linesOf 100) ≤ i64Max) := by
  let := canonicalFormats
  intro prog
  let findsApproved (c : Config (Fin 2) Db RowKey AppError (ℕ × PurchaseOrderDto)) : Bool :=
    [left, right].all fun i => !(c.nextLocks i).contains (.request 4) ||
      (c.db.requests.find? 4).any fun row => row.status = .approved
  have happroved : ∀ c d, findsApproved c = true → ConvertsApproved prog 4 c d := by
    intro c d hc i x ks hasks hk
    have hi := List.all_eq_true.mp hc i (mem_left_right i)
    rw [hasks.nextLocks, List.contains_iff_mem.mpr hk, Bool.not_true, Bool.false_or] at hi
    obtain ⟨row, hrow, hstatus⟩ := (Option.any_eq_true _ _).mp hi
    exact ⟨row, hrow, of_decide_eq_true hstatus⟩
  obtain ⟨c, hc, hQ⟩ := ReachableWhere.of_play prog Db.oneApproved findsApproved
    (fun c => c.log.map (·.2.toOption.isSome) == [true, false] && c.db.refs 4 == 1 &&
      (c.db.orders.find? 100).isSome) happroved
    (.exec right :: Move.through left 10 ++ Move.through right 1) (by decide +kernel)
  simp only [Bool.and_eq_true, beq_iff_eq] at hQ
  obtain ⟨⟨hlog, hrefs⟩, hsome⟩ := hQ
  obtain ⟨row, hrow⟩ := Option.isSome_iff_exists.mp hsome
  have h := purchase_request_converted_once hc ⟨_, rfl, rfl⟩ rfl totalled_oneApproved
  exact ⟨c, hc, hlog, hrefs, h.2.1.mp hrefs, row, hrow, h.2.2 100 row hrow⟩

end Noxara.Purchasing
