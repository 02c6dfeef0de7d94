import Noxara.SalesQuotes

/-! What a request on quotes that is answered with success has done to the store. -/
namespace Noxara.Sales

open Transaction
open Finance (Uuid Formats AppError Currency parsePublicId computeDocumentTotals_ok bind_ok)

@[simp] theorem run_fetchQuoteRow_bind {α : Type} {q : Uuid} {g : Option QuoteRow → QuoteTx α} {s : QuoteDb} :
    (fetchQuoteRow q >>= g).run s = (g (s.quotes.find? q)).run s := rfl

@[simp] theorem run_fetchLines_bind {α : Type} {q : Uuid} {g : List QuoteLineRow → QuoteTx α} {s : QuoteDb} :
    (fetchLines q >>= g).run s = (g (s.linesOf q)).run s := rfl

/-- Reading the quote for the answer changes nothing. -/
theorem run_fetchQuoteDto_bind {α : Type} {q : Uuid} {e : AppError} {g : QuoteDto → QuoteTx α} {s : QuoteDb}
    {r : α × QuoteDb} (h : (fetchQuoteDto q e >>= g).run s = .ok r) : ∃ dto, (g dto).run s = .ok r := by
  obtain ⟨dto, t, hf, hr⟩ := Prog.run_bind_ok.mp h
  simp only [fetchQuoteDto, run_fetchQuoteRow_bind, Prog.run_okOr_bind_ok, run_fetchLines_bind,
    Prog.run_pure] at hf
  obtain ⟨row, -, hd⟩ := hf
  cases hd
  exact ⟨_, hr⟩

theorem run_answer {q : Uuid} {e : AppError} {n : Nat} {s : QuoteDb} {r : (Nat × QuoteDto) × QuoteDb}
    (h : (do let dto ← fetchQuoteDto q e; return (n, dto) : QuoteTx (Nat × QuoteDto)).run s = .ok r) :
    r.2 = s := by
  obtain ⟨dto, hr⟩ := run_fetchQuoteDto_bind h
  cases hr
  rfl

theorem run_each_insertLine {lines : List QuoteLineRow} {s : QuoteDb} {r : Unit × QuoteDb}
    (h : (Prog.each insertLine lines).run s = .ok r) : r.2 = s.setLines (· ++ lines) := by
  induction lines generalizing s with
  | nil =>
    cases h
    simp [QuoteDb.setLines]
  | cons l ls ih =>
    obtain ⟨-, hr⟩ := Prog.run_execute_bind_ok.mp h
    rw [ih hr]
    simp [QuoteDb.setLines]

theorem run_putAnswer_bind {α : Type} {scope : String} {key : Option String} {n : Int} {dto : QuoteDto}
    {g : Unit → QuoteTx α} {s : QuoteDb} {r : α × QuoteDb} (h : (putAnswer scope key n dto >>= g).run s = .ok r) :
    ∃ answers, (g ()).run { s with idempotency := answers } = .ok r := by
  obtain ⟨_, t, hput, h⟩ := Prog.run_bind_ok.mp h
  obtain ⟨⟩ := (AnswerTable.run_record_ok (t := quoteAnswers) fun _ => rfl).mp hput
  exact ⟨_, h⟩

section
variable [Formats]

theorem run_insertLines_bind {α : Type} {ctx : RequestCtx} {q : Uuid} {lines : List CreateQuoteLineRequest}
    {priced : PricedLines} {g : Unit → QuoteTx α} {s : QuoteDb} {r : α × QuoteDb}
    (h : (insertLines ctx q lines priced >>= g).run s = .ok r) :
    (g ()).run (s.setLines (· ++ quoteLines ctx q lines priced)) = .ok r := by
  obtain ⟨u, t, hi, hr⟩ := Prog.run_bind_ok.mp h
  have ht := run_each_insertLine hi
  subst ht
  exact hr

/-- A request goes on with the quote it names. -/
structure Names (id : String) (s : QuoteDb) (q : Uuid) (row : QuoteRow) : Prop where
  parsed : parsePublicId .quote id = .ok q
  found : s.quotes.find? q = some row

theorem run_namedQuote_bind {α : Type} {ctx : RequestCtx} {id : String} {g : Uuid × QuoteRow → QuoteTx α}
    {s : QuoteDb} {r : α × QuoteDb} (h : (namedQuote ctx id >>= g).run s = .ok r) :
    ∃ q row, Names id s q row ∧ (g (q, row)).run s = .ok r := by
  obtain ⟨⟨q, row⟩, t, hn, hr⟩ := Prog.run_bind_ok.mp h
  simp only [namedQuote, Prog.run_ofExcept_bind_ok, run_fetchQuoteRow_bind, Prog.run_okOr_bind_ok,
    Prog.run_pure, Except.ok.injEq, Prod.mk.injEq] at hn
  obtain ⟨q', hq, -, -, row', hrow, -, -, ⟨rfl, rfl⟩, rfl⟩ := hn
  exact ⟨q', row', ⟨hq, hrow⟩, hr⟩

/-- A new quote is written with its lines under an id that is not in use. -/
structure Inserted (ctx : RequestCtx) (row : QuoteRow) (lines : List CreateQuoteLineRequest)
    (priced : PricedLines) (s t : QuoteDb) : Prop where
  unused : s.quotes.find? (ctx.fresh 0) = none
  quotes : t.quotes = s.quotes.insert (ctx.fresh 0) row
  lines : t.lines = s.lines ++ quoteLines ctx (ctx.fresh 0) lines priced

theorem run_createQuote {ctx : RequestCtx} {body : CreateQuoteRequest} {s : QuoteDb}
    {r : (Nat × QuoteDto) × QuoteDb} (h : (createQuote ctx body).run s = .ok r) :
    r.2 = s ∨ ∃ row priced, draftQuote ctx body = .ok (row, priced) ∧
      Inserted ctx row body.lines priced s r.2 := by
  simp only [createQuote, Prog.run_ofExcept_bind_ok] at h
  obtain ⟨-, -, ⟨row, priced⟩, hdraft, h⟩ := h
  rcases AnswerTable.replayOr_ok.mp h with ⟨stored, -, rfl⟩ | ⟨-, h⟩
  · exact .inl rfl
  · simp only [insertQuote, Prog.run_execute_bind_ok, ensure_bind_ok] at h
    obtain ⟨⟨hunused, -⟩, h⟩ := h
    obtain ⟨-, h⟩ := Prog.run_execute_bind_ok.mp (run_insertLines_bind h)
    obtain ⟨dto, h⟩ := run_fetchQuoteDto_bind h
    obtain ⟨answers, h⟩ := run_putAnswer_bind h
    cases h
    exact .inr ⟨row, priced, hdraft, hunused, rfl, rfl⟩

/-- The lines after an edit, from those before. -/
def replacedLines (ctx : RequestCtx) (q : Uuid) (lines : Option (List CreateQuoteLineRequest))
    (priced : PricedLines) (old : List QuoteLineRow) : List QuoteLineRow :=
  lines.elim old fun lines => old.filter (fun l => ¬l.quoteId = q) ++ quoteLines ctx q lines priced

structure Edited (ctx : RequestCtx) (q : Uuid) (body : UpdateQuoteRequest) (head : QuoteHead)
    (priced : PricedLines) (s t : QuoteDb) : Prop where
  quotes : t.quotes = s.quotes.modify q (editHead head priced.doc)
  lines : t.lines = replacedLines ctx q body.lines priced s.lines

/-- The lines that an update prices: its own, or those that are stored. -/
def requestedLines (q : Uuid) (body : UpdateQuoteRequest) (s : QuoteDb) : List CreateQuoteLineRequest :=
  body.lines.getD ((s.linesOf q).map QuoteLineRow.request)

theorem run_replaceLines_bind {α : Type} {ctx : RequestCtx} {q : Uuid}
    {lines : Option (List CreateQuoteLineRequest)} {priced : PricedLines} {g : Unit → QuoteTx α} {s : QuoteDb}
    {r : α × QuoteDb} (h : (replaceLines ctx q lines priced >>= g).run s = .ok r) :
    (g ()).run (s.setLines (replacedLines ctx q lines priced)) = .ok r := by
  cases lines with
  | none => exact h
  | some lines =>
    obtain ⟨u, t, hw, hr⟩ := Prog.run_bind_ok.mp h
    obtain ⟨-, hi⟩ := Prog.run_execute_bind_ok.mp hw
    have ht := run_each_insertLine hi
    subst ht
    exact hr

theorem run_updateQuote {ctx : RequestCtx} {id : String} {body : UpdateQuoteRequest} {s : QuoteDb}
    {r : (Nat × QuoteDto) × QuoteDb} (h : (updateQuote ctx id body).run s = .ok r) :
    ∃ q row head priced, Names id s q row ∧ updatedHead row body = .ok head ∧
      priceLines (requestedLines q body s) head.currency = .ok priced ∧
      if row.status = .accepted then
        Inserted ctx (newVersion ctx q row head priced.doc) (requestedLines q body s) priced s r.2
      else Edited ctx q body head priced s r.2 := by
  unfold updateQuote at h
  obtain ⟨q, row, hnames, h⟩ := run_namedQuote_bind h
  simp only [Prog.run_ofExcept_bind_ok, run_fetchLines_bind] at h
  obtain ⟨head, hhead, priced, hpriced, h⟩ := h
  refine ⟨q, row, head, priced, hnames, hhead, hpriced, ?_⟩
  by_cases hacc : row.status = .accepted
  · rw [if_pos hacc] at h ⊢
    simp only [forkQuote, insertQuote, Prog.run_execute_bind_ok, ensure_bind_ok] at h
    obtain ⟨⟨hunused, -⟩, h⟩ := h
    have hend := run_answer (run_insertLines_bind h)
    exact ⟨hunused, by rw [hend]; rfl, by rw [hend]; rfl⟩
  · rw [if_neg hacc] at h ⊢
    obtain ⟨-, h⟩ := Prog.run_execute_bind_ok.mp h
    have hend := run_answer (run_replaceLines_bind h)
    exact ⟨by rw [hend]; rfl, by rw [hend]; rfl⟩

omit [Formats] in
/-- A header that is changed by itself. -/
theorem run_updateQuoteRow_answer {q : Uuid} {change : QuoteRow → QuoteRow} {e : AppError} {n : Nat} {s : QuoteDb}
    {r : (Nat × QuoteDto) × QuoteDb}
    (h : (do updateQuoteRow q change; let dto ← fetchQuoteDto q e; return (n, dto) :
      QuoteTx (Nat × QuoteDto)).run s = .ok r) : r.2 = s.setQuotes (·.modify q change) :=
  run_answer (Prog.run_execute_bind_ok.mp h).2

theorem run_sendQuote {thr : Int} {ctx : RequestCtx} {id : String} {approval : Option String} {s : QuoteDb}
    {r : (Nat × QuoteDto) × QuoteDb} (h : (sendQuote thr ctx id approval).run s = .ok r) :
    ∃ q row, Names id s q row ∧ (row.status = .draft ∨ row.status = .sent ∨ row.status = .expired) ∧
      r.2 = s.setQuotes (·.modify q
        (if HeldForApproval thr row.totals then holdQuote approval thr else sentQuote (linkNote "sent" row))) := by
  unfold sendQuote at h
  obtain ⟨q, row, hnames, h⟩ := run_namedQuote_bind h
  obtain ⟨hstatus, h⟩ := Prog.run_require_bind_ok.mp h
  have hopen : row.status = .draft ∨ row.status = .sent ∨ row.status = .expired := by
    cases hs : row.status <;> simp_all
  refine ⟨q, row, hnames, hopen, ?_⟩
  by_cases hheld : HeldForApproval thr row.totals
  · rw [if_pos hheld] at h ⊢
    exact run_updateQuoteRow_answer h
  · rw [if_neg hheld] at h ⊢
    exact run_updateQuoteRow_answer h

theorem run_concludeApproval {ctx : RequestCtx} {id : String} {change : QuoteRow → QuoteRow → QuoteRow}
    {s : QuoteDb} {r : (Nat × QuoteDto) × QuoteDb} (h : (concludeApproval ctx id change).run s = .ok r) :
    ∃ q row, Names id s q row ∧
      r.2 = if row.status = .pendingApproval then s.setQuotes (·.modify q (change row)) else s := by
  simp only [concludeApproval, Prog.run_ofExcept_bind_ok, run_fetchQuoteRow_bind, Prog.run_okOr_bind_ok] at h
  obtain ⟨q, hq, -, -, row, hrow, h⟩ := h
  refine ⟨q, row, ⟨hq, hrow⟩, ?_⟩
  by_cases hpending : row.status = .pendingApproval
  · rw [if_pos hpending] at h ⊢
    exact run_updateQuoteRow_answer h
  · rw [if_neg hpending] at h ⊢
    exact run_answer h

theorem run_acceptQuote {ctx : RequestCtx} {id : String} {s : QuoteDb} {r : (Nat × QuoteDto) × QuoteDb}
    (h : (acceptQuote ctx id).run s = .ok r) :
    ∃ q row, Names id s q row ∧
      if row.status = .accepted then r.2 = s
      else row.status ≠ .rejected ∧ row.status ≠ .pendingApproval ∧
        r.2 = { s.setQuotes (·.modify q (acceptedQuote ctx.now)) with
          events := s.events ++ [.accepted row.publicId row.totals.totalMinor row.currency] } := by
  unfold acceptQuote at h
  obtain ⟨q, row, hnames, h⟩ := run_namedQuote_bind h
  dsimp only at h
  refine ⟨q, row, hnames, ?_⟩
  by_cases hacc : row.status = .accepted
  · rw [if_pos hacc] at h ⊢
    exact run_answer h
  · rw [if_neg hacc] at h ⊢
    simp only [Prog.run_require_bind_ok] at h
    obtain ⟨hrejected, hpending, h⟩ := h
    obtain ⟨-, h⟩ := Prog.run_execute_bind_ok.mp h
    obtain ⟨-, h⟩ := Prog.run_execute_bind_ok.mp h
    exact ⟨hrejected, hpending, run_answer h⟩

theorem run_rejectQuote {ctx : RequestCtx} {id : String} {reason : Option String} {s : QuoteDb}
    {r : (Nat × QuoteDto) × QuoteDb} (h : (rejectQuote ctx id reason).run s = .ok r) :
    ∃ q row, Names id s q row ∧ row.status ≠ .accepted ∧
      r.2 = if row.status = .rejected then s
        else s.setQuotes (·.modify q (rejectedWithNotes (rejectNotes row.notes reason))) := by
  unfold rejectQuote at h
  obtain ⟨q, row, hnames, h⟩ := run_namedQuote_bind h
  obtain ⟨hstatus, h⟩ := Prog.run_require_bind_ok.mp h
  refine ⟨q, row, hnames, hstatus, ?_⟩
  by_cases hrejected : row.status = .rejected
  · rw [if_pos hrejected] at h ⊢
    exact run_answer h
  · rw [if_neg hrejected] at h ⊢
    exact run_updateQuoteRow_answer h

def Totalled (row : QuoteRow) (lines : List QuoteLineRow) : Prop :=
  ∃ c computed, Currency.new row.currency = .ok c ∧
    computeQuoteTotals (lines.map (·.input)) c = .ok (computed, row.totals)

theorem priceLines_ok {lines : List CreateQuoteLineRequest} {c : Currency} {priced : PricedLines}
    (h : priceLines lines c = .ok priced) :
    parseLineProductIds lines = .ok priced.productIds ∧
      computeQuoteTotals (lines.map (·.input)) c = .ok (priced.computed, priced.doc) := by
  simp only [priceLines, computeLines, bind_ok, Finance.mapError_ok] at h
  obtain ⟨ids, hids, computed, ⟨⟨computed', doc'⟩, hc, h1⟩, doc, hdoc, h⟩ := h
  cases h1
  cases h
  refine ⟨hids, ?_⟩
  rw [computeQuoteTotals, computeDocumentTotals_ok] at hc ⊢
  exact ⟨hc.1, hdoc⟩

theorem Totalled.of_priceLines {row : QuoteRow} {lines : List CreateQuoteLineRequest} {c : Currency}
    {priced : PricedLines} {stored : List QuoteLineRow} (h : priceLines lines c = .ok priced)
    (hc : Currency.new row.currency = .ok c) (htotals : row.totals = priced.doc)
    (hstored : stored.map (·.input) = lines.map (·.input)) : Totalled row stored := by
  refine ⟨c, priced.computed, hc, ?_⟩
  rw [hstored, htotals]
  exact (priceLines_ok h).2

theorem quoteLines_map {β : Type} {ctx : RequestCtx} {q : Uuid} {lines : List CreateQuoteLineRequest}
    {c : Currency} {priced : PricedLines} (h : priceLines lines c = .ok priced) (f : QuoteLineRow → β)
    (g : CreateQuoteLineRequest × Option Uuid → β)
    (hfg : ∀ position line productId totals, f (quoteLine ctx q position line productId totals) =
      g (line, productId)) :
    (quoteLines ctx q lines priced).map f = (lines.zip priced.productIds).map g := by
  obtain ⟨hids, hdoc⟩ := priceLines_ok h
  have hlength : (lines.zip priced.productIds).length ≤ priced.computed.length := by
    have hcomputed := Finance.mapM_length (computeDocumentTotals_ok.mp hdoc).1
    simp only [List.length_map] at hcomputed
    simp only [List.length_zip, hcomputed]
    exact Nat.min_le_left _ _
  calc (quoteLines ctx q lines priced).map f
      = (((lines.zip priced.productIds).zip priced.computed).zipIdx.map Prod.fst).map fun x => g x.1 := by
        simp only [quoteLines, List.map_map]
        exact List.map_congr_left fun x _ => hfg _ _ _ _
    _ = (((lines.zip priced.productIds).zip priced.computed).map Prod.fst).map g := by
        rw [List.zipIdx_map_fst, List.map_map]
        rfl
    _ = (lines.zip priced.productIds).map g := by rw [List.map_fst_zip hlength]

theorem quoteLines_input {ctx : RequestCtx} {q : Uuid} {lines : List CreateQuoteLineRequest} {c : Currency}
    {priced : PricedLines} (h : priceLines lines c = .ok priced) :
    (quoteLines ctx q lines priced).map (·.input) = lines.map (·.input) := by
  have hlength := Finance.mapM_length (priceLines_ok h).1
  rw [quoteLines_map h (·.input) (fun x => x.1.input) fun _ _ _ _ => rfl]
  have hmap : (lines.zip priced.productIds).map (fun x => x.1.input) =
      ((lines.zip priced.productIds).map Prod.fst).map (·.input) := by simp
  rw [hmap, List.map_fst_zip (Nat.le_of_eq hlength.symm)]

theorem quoteId_of_mem_quoteLines {ctx : RequestCtx} {q : Uuid} {lines : List CreateQuoteLineRequest}
    {priced : PricedLines} {l : QuoteLineRow} (h : l ∈ quoteLines ctx q lines priced) : l.quoteId = q := by
  obtain ⟨x, -, rfl⟩ := List.mem_map.mp h
  rfl

theorem Inserted.find?_ne {ctx : RequestCtx} {row : QuoteRow} {lines : List CreateQuoteLineRequest}
    {priced : PricedLines} {s t : QuoteDb} (h : Inserted ctx row lines priced s t) {q : Uuid} (hq : q ≠ ctx.fresh 0) :
    t.quotes.find? q = s.quotes.find? q := by
  rw [h.quotes, Table.find?_insert_ne _ _ hq]

theorem Inserted.find?_self {ctx : RequestCtx} {row : QuoteRow} {lines : List CreateQuoteLineRequest}
    {priced : PricedLines} {s t : QuoteDb} (h : Inserted ctx row lines priced s t) :
    t.quotes.find? (ctx.fresh 0) = some row := by
  rw [h.quotes, Table.find?_insert_self h.unused]

theorem filter_quoteLines {ctx : RequestCtx} {p : Uuid} {lines : List CreateQuoteLineRequest}
    {priced : PricedLines} (q : Uuid) :
    (quoteLines ctx p lines priced).filter (fun l => l.quoteId = q) =
      if p = q then quoteLines ctx p lines priced else [] := by
  split_ifs with h
  · refine List.filter_eq_self.mpr fun l hl => ?_
    simp [quoteId_of_mem_quoteLines hl, h]
  · refine List.filter_eq_nil_iff.mpr fun l hl => ?_
    simp [quoteId_of_mem_quoteLines hl, h]

theorem Inserted.linesOf {ctx : RequestCtx} {row : QuoteRow} {lines : List CreateQuoteLineRequest}
    {priced : PricedLines} {s t : QuoteDb} (h : Inserted ctx row lines priced s t) (q : Uuid) :
    t.linesOf q = s.linesOf q ++ if ctx.fresh 0 = q then quoteLines ctx q lines priced else [] := by
  simp only [QuoteDb.linesOf, h.lines, List.filter_append, filter_quoteLines]
  split_ifs with hq
  · rw [hq]
  · rfl

theorem filter_replacedLines {ctx : RequestCtx} {p : Uuid} {lines : Option (List CreateQuoteLineRequest)}
    {priced : PricedLines} {old : List QuoteLineRow} {q : Uuid} (hq : q ≠ p) :
    (replacedLines ctx p lines priced old).filter (fun l => l.quoteId = q) =
      old.filter (fun l => l.quoteId = q) := by
  cases lines with
  | none => rfl
  | some lines =>
    simp only [replacedLines, Option.elim_some, List.filter_append, filter_quoteLines, if_neg hq.symm,
      List.append_nil, List.filter_filter]
    refine List.filter_congr fun l _ => ?_
    by_cases hl : l.quoteId = q
    · simp [hl, hq]
    · simp [hl]

theorem filter_replacedLines_self {ctx : RequestCtx} {q : Uuid} {lines : Option (List CreateQuoteLineRequest)}
    {priced : PricedLines} {old : List QuoteLineRow} :
    (replacedLines ctx q lines priced old).filter (fun l => l.quoteId = q) =
      lines.elim (old.filter fun l => l.quoteId = q) fun lines => quoteLines ctx q lines priced := by
  cases lines with
  | none => rfl
  | some lines =>
    simp [replacedLines, filter_quoteLines, List.filter_filter]

theorem Edited.input {ctx : RequestCtx} {q : Uuid} {body : UpdateQuoteRequest} {head : QuoteHead}
    {priced : PricedLines} {s t : QuoteDb} (h : Edited ctx q body head priced s t)
    (hpriced : priceLines (requestedLines q body s) head.currency = .ok priced) :
    (t.linesOf q).map (·.input) = (requestedLines q body s).map (·.input) := by
  simp only [QuoteDb.linesOf, h.lines, filter_replacedLines_self]
  cases hlines : body.lines with
  | none => simp [requestedLines, hlines, QuoteDb.linesOf, Function.comp_def, QuoteLineRow.request,
      QuoteLineRow.input, CreateQuoteLineRequest.input]
  | some lines =>
    have hrequested : requestedLines q body s = lines := by simp [requestedLines, hlines]
    rw [hrequested] at hpriced ⊢
    exact quoteLines_input hpriced

theorem currency_of_updatedHead {row : QuoteRow} {body : UpdateQuoteRequest} {head : QuoteHead}
    (h : updatedHead row body = .ok head) : Currency.new head.currencyCode = .ok head.currency := by
  simp only [updatedHead, bind_ok, Finance.parseCurrency, Finance.mapError_ok] at h
  obtain ⟨c, hc, _, _, _, _, h⟩ := h
  cases h
  exact hc

end

end Noxara.Sales
