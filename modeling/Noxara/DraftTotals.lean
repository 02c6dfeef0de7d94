import Noxara.HandlerEffects
import Noxara.LedgerGate
import Noxara.TransactionGate

/-! The totals of an invoice and the lines stored for it, while edits and issues run in any
interleaving. An edit replaces the lines it computed the totals from; an issue writes the rate
of every line it computed the totals with. -/
namespace Noxara.Finance

open Transaction

def InvoiceRow.documentTotals (r : InvoiceRow) : DocumentTotals :=
  ⟨r.subtotalMinor, r.discountMinor, r.taxMinor, r.totalMinor⟩

def Db.lineInputs (db : Db) (id : Uuid) : List LineInput := (db.fetchLines id).map fun l => l.2.toInput

/-- The totals of the invoice are those of its stored lines. -/
def Db.TotalsAgree (db : Db) (id : Uuid) : Prop :=
  ∃ r currency computed, db.invoices.find? id = some r ∧ Currency.new r.currency = .ok currency ∧
    computeDocumentTotals (db.lineInputs id) currency = .ok (computed, r.documentTotals)

theorem parseCurrency_ok {field code : String} {currency : Currency} :
    parseCurrency field code = .ok currency ↔ Currency.new code = .ok currency := mapError_ok

theorem Db.mem_fetchLines {db : Db} {id : Uuid} {l : Uuid × InvoiceLineRow} :
    l ∈ db.fetchLines id ↔ l ∈ db.invoiceLines.rows ∧ l.2.invoiceId = id := by
  simp [fetchLines]

theorem Db.mem_lineIds {db : Db} {id : Uuid} {l : Uuid × InvoiceLineRow}
    (h : l ∈ db.invoiceLines.rows) : l.1 ∈ db.lineIds id ↔ l.2.invoiceId = id := by
  obtain ⟨k, row⟩ := l
  simp only [lineIds, List.mem_map, List.mem_filter, decide_eq_true_eq, Prod.exists,
    exists_and_right, exists_eq_right]
  constructor
  · rintro ⟨row', hm, hi⟩
    rwa [Table.row_unique h hm]
  · exact fun hi => ⟨row, h, hi⟩

/-- Consecutive positions are in order. -/
theorem InsertedLines.sorted {invoiceId : Uuid} {position : Nat} {written : List LineInput}
    {rows : List (Uuid × InvoiceLineRow)} (h : InsertedLines invoiceId position written rows) :
    rows.Pairwise fun a b => decide (a.2.position ≤ b.2.position) = true := by
  have hlt : (rows.map fun r => r.2.position).Pairwise (· < ·) := by
    rw [h.positions]
    exact List.pairwise_lt_range'
  exact (List.pairwise_map.mp hlt).imp fun hab => decide_eq_true hab.le

section Replace
variable {s t : Db} {id i : Uuid} {written : List LineInput} {rows : List (Uuid × InvoiceLineRow)}
  (hrows : t.invoiceLines.rows = (s.invoiceLines.filter fun k _ => !(s.lineIds i).contains k).rows ++ rows)
  (hins : InsertedLines i 0 written rows)

include hrows hins

theorem fetchLines_replaced : t.fetchLines i = rows := by
  have hold : ((s.invoiceLines.filter fun k _ => !(s.lineIds i).contains k).rows.filter
      fun r => decide (r.2.invoiceId = i)) = [] := by
    rw [List.filter_eq_nil_iff]
    intro l hl
    obtain ⟨hm, hn⟩ := List.mem_filter.mp hl
    have hout : l.1 ∉ s.lineIds i := by simpa using hn
    simpa [Db.mem_lineIds hm] using hout
  have hnew : rows.filter (fun r => decide (r.2.invoiceId = i)) = rows :=
    List.filter_eq_self.mpr fun r hr => decide_eq_true (hins.invoice r hr)
  rw [Db.fetchLines, hrows, List.filter_append, hold, hnew, List.nil_append]
  exact List.mergeSort_of_pairwise hins.sorted

theorem lineInputs_replaced : t.lineInputs i = written := by
  rw [Db.lineInputs, fetchLines_replaced hrows hins, hins.inputs]

theorem fetchLines_replaced_ne (hne : id ≠ i) : t.fetchLines id = s.fetchLines id := by
  have hold : ((s.invoiceLines.filter fun k _ => !(s.lineIds i).contains k).rows.filter
      fun r => decide (r.2.invoiceId = id)) =
      s.invoiceLines.rows.filter fun r => decide (r.2.invoiceId = id) := by
    rw [Table.filter, List.filter_filter]
    refine List.filter_congr fun l hl => ?_
    by_cases hid : l.2.invoiceId = id
    · have hout : l.1 ∉ s.lineIds i := by
        rw [Db.mem_lineIds hl, hid]
        exact hne
      simp [hid, hout]
    · simp [hid]
  have hnew : rows.filter (fun r => decide (r.2.invoiceId = id)) = [] := by
    rw [List.filter_eq_nil_iff]
    intro r hr
    simp [hins.invoice r hr, Ne.symm hne]
  rw [Db.fetchLines, hrows, List.filter_append, hold, hnew, List.append_nil, Db.fetchLines]

end Replace

def issuedLine (rated : List (RatedLine × LineTotals)) (id : Uuid) (row : InvoiceLineRow) :
    InvoiceLineRow :=
  rated.foldl (fun r x => if id = x.1.lineId then x.1.apply x.2 r else r) row

theorem rows_writeRates (lines : Table Uuid InvoiceLineRow) (rated : List (RatedLine × LineTotals)) :
    (writeRates lines rated).rows = lines.rows.map fun l => (l.1, issuedLine rated l.1 l.2) := by
  induction rated generalizing lines with
  | nil => exact (List.map_id _).symm
  | cons x xs ih =>
    refine (ih (lines.modify x.1.lineId (x.1.apply x.2))).trans ?_
    simp only [Table.modify, Table.mapRows, List.map_map]
    rfl

theorem issuedLine_keeps (rated : List (RatedLine × LineTotals)) (id : Uuid) (row : InvoiceLineRow) :
    (issuedLine rated id row).invoiceId = row.invoiceId ∧
      (issuedLine rated id row).position = row.position ∧
      (issuedLine rated id row).quantity = row.quantity ∧
      (issuedLine rated id row).unitPriceMinor = row.unitPriceMinor ∧
      (issuedLine rated id row).discountMinor = row.discountMinor := by
  induction rated generalizing row with
  | nil => exact ⟨rfl, rfl, rfl, rfl, rfl⟩
  | cons x xs ih =>
    have h := ih (if id = x.1.lineId then x.1.apply x.2 row else row)
    split_ifs at h with hid
    · simpa [issuedLine, hid, RatedLine.apply] using h
    · simpa [issuedLine, hid] using h

theorem issuedLine_rate {rated : List (RatedLine × LineTotals)} {id : Uuid} {bps : Int}
    (h : ∀ x ∈ rated, x.1.lineId = id → x.1.input.taxRateBps = bps) {row : InvoiceLineRow}
    (h0 : row.taxRateBps = bps ∨ ∃ x ∈ rated, x.1.lineId = id) :
    (issuedLine rated id row).taxRateBps = bps := by
  induction rated generalizing row with
  | nil => simpa [issuedLine] using h0
  | cons x xs ih =>
    refine ih (fun y hy => h y (List.mem_cons_of_mem _ hy)) ?_
    by_cases hid : id = x.1.lineId
    · left
      simp only [if_pos hid]
      exact h x List.mem_cons_self hid.symm
    · simp only [if_neg hid]
      refine h0.imp_right ?_
      rintro ⟨y, hy, hyid⟩
      rcases List.mem_cons.mp hy with rfl | hy
      · exact absurd hyid.symm hid
      · exact ⟨y, hy, hyid⟩

theorem issuedLine_none {rated : List (RatedLine × LineTotals)} {id : Uuid}
    (h : ∀ x ∈ rated, x.1.lineId ≠ id) (row : InvoiceLineRow) : issuedLine rated id row = row := by
  induction rated generalizing row with
  | nil => rfl
  | cons x xs ih =>
    refine (ih (fun y hy => h y (List.mem_cons_of_mem _ hy)) _).trans ?_
    exact if_neg fun hid => h x List.mem_cons_self hid.symm

theorem rateLine_lineId (db : Db) (d : Date) (id : Uuid) (line : InvoiceLineRow) :
    (rateLine db d id line).lineId = id := by
  unfold rateLine
  split_ifs
  · split <;> rfl
  · rfl

theorem rateLine_input (db : Db) (d : Date) (id : Uuid) (line : InvoiceLineRow) :
    (rateLine db d id line).input = ⟨line.quantity, line.unitPriceMinor, line.discountMinor,
      (rateLine db d id line).input.taxRateBps⟩ := by
  unfold rateLine
  split_ifs
  · split <;> rfl
  · rfl

theorem fetchLines_writeRates {s t : Db} {rated : List (RatedLine × LineTotals)}
    (ht : t.invoiceLines = writeRates s.invoiceLines rated) (id : Uuid) :
    t.fetchLines id = (s.fetchLines id).map fun l => (l.1, issuedLine rated l.1 l.2) := by
  rw [Db.fetchLines, ht, rows_writeRates, List.filter_map, Db.fetchLines,
    List.map_mergeSort (s := fun a b => decide (a.2.position ≤ b.2.position))]
  · simp only [Function.comp_def, (issuedLine_keeps _ _ _).1]
  · intro a _ b _
    simp only [(issuedLine_keeps _ _ _).2.1]

/-- The lines that issue reads and writes are those of its invoice. -/
theorem ratedLines_row {s : Db} {i : Uuid} {d : Date} {computed : List LineTotals}
    {x : RatedLine × LineTotals} (hx : x ∈ (s.ratedLines i d).zip computed) {l : Uuid × InvoiceLineRow}
    (hl : l ∈ s.invoiceLines.rows) (hid : x.1.lineId = l.1) :
    l.2.invoiceId = i ∧ x.1 = rateLine s d l.1 l.2 := by
  obtain ⟨⟨k, row⟩, hk, he⟩ := List.mem_map.mp (List.of_mem_zip hx).1
  obtain ⟨hm, hi⟩ := Db.mem_fetchLines.mp hk
  have hkl : k = l.1 := by rw [← hid, ← he, rateLine_lineId]
  obtain ⟨k', row'⟩ := l
  obtain rfl : k = k' := hkl
  obtain rfl := Table.row_unique hm hl
  exact ⟨hi, he.symm⟩

theorem lineInputs_writeRates {s t : Db} {i : Uuid} {d : Date} {computed : List LineTotals}
    (ht : t.invoiceLines = writeRates s.invoiceLines ((s.ratedLines i d).zip computed))
    (hlen : computed.length = (s.ratedLines i d).length) :
    t.lineInputs i = (s.ratedLines i d).map (·.input) := by
  rw [Db.lineInputs, fetchLines_writeRates ht, Db.ratedLines, List.map_map, List.map_map]
  refine List.map_congr_left fun l hl => ?_
  obtain ⟨hm, _⟩ := Db.mem_fetchLines.mp hl
  obtain ⟨_, _, hq, hu, hd⟩ := issuedLine_keeps ((s.ratedLines i d).zip computed) l.1 l.2
  have hrate : (issuedLine ((s.ratedLines i d).zip computed) l.1 l.2).taxRateBps =
      (rateLine s d l.1 l.2).input.taxRateBps := by
    refine issuedLine_rate (fun x hx hid => by rw [(ratedLines_row hx hm hid).2]) (.inr ?_)
    have hmem : rateLine s d l.1 l.2 ∈ ((s.ratedLines i d).zip computed).map Prod.fst := by
      rw [List.map_fst_zip hlen.ge]
      exact List.mem_map_of_mem hl
    obtain ⟨x, hx, he⟩ := List.mem_map.mp hmem
    exact ⟨x, hx, by rw [he, rateLine_lineId]⟩
  simp only [Function.comp_apply, InvoiceLineRow.toInput]
  rw [rateLine_input]
  simp only [Db.ratedLines] at hq hu hd hrate ⊢
  rw [hq, hu, hd, hrate]

theorem fetchLines_writeRates_ne {s t : Db} {id i : Uuid} {d : Date} {computed : List LineTotals}
    (ht : t.invoiceLines = writeRates s.invoiceLines ((s.ratedLines i d).zip computed))
    (hne : id ≠ i) : t.fetchLines id = s.fetchLines id := by
  rw [fetchLines_writeRates ht]
  refine (List.map_congr_left fun l hl => ?_).trans (List.map_id _)
  obtain ⟨hm, hid⟩ := Db.mem_fetchLines.mp hl
  rw [issuedLine_none fun x hx he => hne (hid.symm.trans (ratedLines_row hx hm he).1)]
  rfl

variable {s t : Db} {id i : Uuid}

theorem Db.TotalsAgree.congr (h : s.TotalsAgree id) (hi : t.invoices.find? id = s.invoices.find? id)
    (hl : t.fetchLines id = s.fetchLines id) : t.TotalsAgree id := by
  obtain ⟨r, currency, computed, hr, hc, hd⟩ := h
  exact ⟨r, currency, computed, hi.trans hr, hc, by rwa [lineInputs, hl]⟩

theorem Db.TotalsAgree.of_inputs {r : InvoiceRow} {currency : Currency} {computed : List LineTotals}
    {inputs : List LineInput} (hr : t.invoices.find? id = some r)
    (hc : Currency.new r.currency = .ok currency) (hl : t.lineInputs id = inputs)
    (hd : computeDocumentTotals inputs currency = .ok (computed, r.documentTotals)) :
    t.TotalsAgree id := ⟨r, currency, computed, hr, hc, by rwa [hl]⟩

variable [Formats]

/-- An edit stores the lines it computed the totals from. -/
theorem Db.TotalsAgree.updated (h : s.TotalsAgree id) {ctx : RequestCtx} {raw : String}
    {body : UpdateInvoiceRequest} {r : Response}
    (ho : (updateInvoiceHandler ctx raw body).run s = .ok (r, t)) : t.TotalsAgree id := by
  obtain ⟨i, accounts, row, doc, due, s', _, hrow, _, hr, rfl⟩ := updateInvoiceHandler_ok ho
  have hinv := hr.invoices
  by_cases hi : id = i
  · subst hi
    have hfind : (s'.invoices.modify id (body.apply ctx row doc due)).find? id =
        some (body.apply ctx row doc due row) := by
      rw [Table.find?_modify_self, hinv]
      exact congrArg _ hrow
    rcases hr with ⟨rfl, rfl⟩ | ⟨currency, inputs, computed, lines, rows, hc, hd, rfl, hrows, hins⟩
    · obtain ⟨row', currency, computed, hrow', hc, hd⟩ := h
      obtain rfl := Option.some.inj (hrow.symm.trans hrow')
      exact ⟨_, currency, computed, hfind, hc, hd⟩
    · exact .of_inputs hfind (parseCurrency_ok.mp hc) (lineInputs_replaced hrows hins) hd
  · refine h.congr ?_ ?_
    · exact (Table.find?_modify_ne _ _ hi).trans (by rw [hinv])
    · rcases hr with ⟨_, rfl⟩ | ⟨_, _, _, lines, rows, _, _, rfl, hrows, hins⟩
      · rfl
      · exact fetchLines_replaced_ne hrows hins hi

theorem Db.TotalsAgree.issued (h : s.TotalsAgree id) {ctx : RequestCtx} {body : IssueInvoiceRequest}
    (hi : Issued ctx body i s t) : t.TotalsAgree id := by
  obtain ⟨row, currency, n, issueDate, fxDate, due, computed, doc, base, journal, s₁, s₂, hrow, _, hc, _,
    hd, _, rfl, _, hp, _, rfl⟩ := hi
  have hinv := hp.invoices
  have hlines : s₂.invoiceLines = writeRates s.invoiceLines ((s.ratedLines i issueDate).zip computed) := by
    obtain ⟨_, _, _, _, _, _, rfl⟩ := hp.stored
    rfl
  by_cases hid : id = i
  · subst hid
    have hlen : computed.length = (s.ratedLines id issueDate).length := by
      simpa using mapM_length (computeDocumentTotals_ok.mp hd).1
    have hfind : (s₂.invoices.modify id (body.apply ctx (invoiceNumber ctx.today.year n) doc base
        issueDate fxDate due)).find? id = some (body.apply ctx (invoiceNumber ctx.today.year n) doc base
          issueDate fxDate due (doc.apply row)) := by
      rw [Table.find?_modify_self, hinv, Table.find?_modify_self, hrow]
      rfl
    exact .of_inputs hfind (parseCurrency_ok.mp hc) (lineInputs_writeRates hlines hlen) hd
  · refine h.congr ?_ (fetchLines_writeRates_ne hlines hid)
    rw [Table.find?_modify_ne _ _ hid, hinv, Table.find?_modify_ne _ _ hid]

inductive DraftOp
  | updateInvoice (ctx : RequestCtx) (id : String) (body : UpdateInvoiceRequest)
  | issueInvoice (ctx : RequestCtx) (id : String) (body : IssueInvoiceRequest)

def DraftOp.body : DraftOp → Tx Response
  | updateInvoice ctx id b => updateInvoiceHandler ctx id b
  | issueInvoice ctx id b => Finance.issueInvoice ctx id b

theorem DraftOp.gated (op : DraftOp) : op.body.Gated ledgerGate := by
  cases op with
  | updateInvoice ctx id b => exact updateInvoiceHandler_gated ctx id b
  | issueInvoice ctx id b => exact issueInvoice_gated ctx id b

theorem Db.TotalsAgree.step (h : s.TotalsAgree id) {op : DraftOp} {r : Response}
    (ho : op.body.run s = .ok (r, t)) : t.TotalsAgree id := by
  cases op with
  | updateInvoice ctx raw b => exact h.updated ho
  | issueInvoice ctx raw b =>
    obtain ⟨accounts, i, _, ⟨_, _, _, rfl⟩ | ⟨_, s', dto, hi, _, _, rfl⟩⟩ := issueInvoice_ok ho
    · exact h.congr rfl rfl
    · have hs : ({ s with accounts } : Db).TotalsAgree id := h.congr rfl rfl
      exact (hs.issued hi).congr rfl rfl

/-- In every interleaving of edits and issues the totals of the invoice are those of its stored
lines, in every committed store. -/
theorem totals_agree_interleaving {ι : Type} [DecidableEq ι] {ops : ι → DraftOp} {db : Db}
    {c : Config ι Db RowKey TxExit Response} (h0 : db.TotalsAgree id)
    (h : Reachable (fun i => (ops i).body) db c) : c.db.TotalsAgree id :=
  h.gated_invariant (I := fun s => s.TotalsAgree id) (fun i => (ops i).gated) h0
    fun _ _ _ _ hs ho => hs.step ho

/-- The line is replaced by one over two dollars, and the invoice is issued. -/
def editAndIssue : Fin 2 → DraftOp :=
  sideBySide
    (.updateInvoice (.nth 1) (PublicId.mk .invoice 31).asStr
      { lines := some [{ description := "Consulting", quantity := 2, unitPriceMinor := 100 }] })
    (.issueInvoice (.nth 2) (PublicId.mk .invoice 31).asStr {})

omit [Formats] in
theorem Db.oneDraft_agrees : letI := canonicalFormats; Db.oneDraft.TotalsAgree 31 := by
  let := canonicalFormats
  refine ⟨_, .USD, [⟨100, 0, 0, 100⟩], rfl, by decide, ?_⟩
  decide +kernel

omit [Formats] in
theorem totals_agree_interleaving_issued :
    letI := canonicalFormats
    ∃ c, Reachable (fun i => (editAndIssue i).body) Db.oneDraft c ∧ c.log.map Prod.fst = [0, 1] ∧
      c.db.TotalsAgree 31 := by
  let := canonicalFormats
  obtain ⟨c, hc, hlog⟩ := Reachable.of_play (fun i => (editAndIssue i).body) Db.oneDraft
    (Move.through 0 24 ++ Move.through 1 36) (fun c => c.log.map Prod.fst = [0, 1])
    (by decide +kernel)
  exact ⟨c, hc, of_decide_eq_true hlog, totals_agree_interleaving Db.oneDraft_agrees hc⟩

end Noxara.Finance
