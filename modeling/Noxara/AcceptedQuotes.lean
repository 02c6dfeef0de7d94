import Noxara.QuoteEffects
import Noxara.TransactionRecheck

/-! Requests on one quote side by side: what becomes of it once it is accepted. -/
namespace Noxara.Sales

open Transaction
open Finance (Uuid Formats AppError parsePublicId)

def QuoteEvent.accepts (publicId : String) : QuoteEvent → Bool
  | accepted id _ _ => id = publicId
  | created _ _ _ => false

/-- What the row of a quote guards: the header, the lines, and how often its acceptance was announced. -/
structure QuotePart where
  row : Option QuoteRow
  lines : List QuoteLineRow
  acceptances : Nat

def QuoteDb.part (q : Uuid) (publicId : String) (s : QuoteDb) : QuotePart :=
  ⟨s.quotes.find? q, s.linesOf q, s.events.countP (·.accepts publicId)⟩

def QuotePart.Accepted (p : QuotePart) : Prop := ∃ row, p.row = some row ∧ row.status = .accepted

def QuotePart.Open (p : QuotePart) : Prop := ∀ row, p.row = some row → row.status ≠ .accepted

/-- The totals of the quote are those of its lines, and its acceptance was announced once if it is accepted,
and else not at all. -/
def QuotePart.Sound (publicId : String) (p : QuotePart) : Prop :=
  ∃ row, p.row = some row ∧ row.publicId = publicId ∧ Totalled row p.lines ∧
    p.acceptances = if row.status = .accepted then 1 else 0

theorem QuotePart.Sound.header {publicId : String} {p : QuotePart} (h : p.Sound publicId) (hopen : p.Open)
    {row : QuoteRow} (hrow : p.row = some row) {f : QuoteRow → QuoteRow}
    (hid : (f row).publicId = row.publicId) (htotals : (f row).totals = row.totals)
    (hcurrency : (f row).currency = row.currency) :
    (f row).publicId = publicId ∧ Totalled (f row) p.lines ∧ p.acceptances = 0 := by
  obtain ⟨r, hr, hpid, ⟨c, computed, hc, hdoc⟩, hcount⟩ := h
  rw [hrow] at hr
  cases hr
  refine ⟨hid.trans hpid, ⟨c, computed, by rw [hcurrency]; exact hc, by rw [htotals]; exact hdoc⟩, ?_⟩
  rw [hcount, if_neg (hopen row hrow)]

def QuoteRequest.KeepsLines : QuoteRequest → Prop
  | update _ _ body => body.lines = none
  | _ => False

instance (o : QuoteRequest) : Decidable o.KeepsLines := by
  cases o <;> unfold QuoteRequest.KeepsLines <;> infer_instance

/-- The condition on a statement that takes the row of the quote: the quote is not accepted yet, and the lines
that an update has priced without replacing them are still the stored ones. -/
def StillOpen (o : QuoteRequest) (seen : List QuotePart) (now : QuotePart) : Prop :=
  now.Open ∧ (o.KeepsLines → ∀ p, seen.head? = some p → p.lines = now.lines)

/-- What a request makes of a quote. -/
def Edits (publicId : String) (a b : QuotePart) : Prop := a.Open ∧ b.Sound publicId

def quoteGuard (q : Uuid) (publicId : String) : Guard QuoteDb QuoteLock QuotePart :=
  ⟨.quote q, QuoteDb.part q publicId, QuotePart.Sound publicId⟩

section
variable {q : Uuid} {publicId : String}

theorem writes_fetchQuoteDto {W : (QuoteDb → QuoteDb) → Prop} (hid : W id) (p : Uuid) (e : AppError) :
    (fetchQuoteDto p e).Writes W :=
  .bind (Prog.writes_query hid _) fun row => .bind (Prog.writes_okOr row e) fun _ =>
    .bind (Prog.writes_query hid _) fun _ => trivial

theorem held_answer {G : QuotePart → Prop} {cur : QuotePart} (h : G cur) (p : Uuid) (e : AppError) (n : Nat) :
    (do let dto ← fetchQuoteDto p e; return (n, dto) : QuoteTx (Nat × QuoteDto)).Held
      (QuoteDb.part q publicId) G cur :=
  .of_writes (.bind (writes_fetchQuoteDto (Prog.Keeps.id _) p e) fun _ => trivial) h

theorem held_insertLines_bind {α : Type} {G : QuotePart → Prop} {lines : List QuoteLineRow}
    {f : Unit → QuoteTx α} {cur : QuotePart} (hq : ∀ l ∈ lines, l.quoteId = q)
    (hf : (f ()).Held (QuoteDb.part q publicId) G { cur with lines := cur.lines ++ lines }) :
    (Prog.each insertLine lines >>= f).Held (QuoteDb.part q publicId) G cur := by
  induction lines generalizing cur with
  | nil =>
    simp only [List.append_nil] at hf
    exact hf
  | cons l ls ih =>
    rw [Prog.each_cons_bind]
    refine .execute_bind (n := { cur with lines := cur.lines ++ [l] }) (fun v s hs => ?_) (ih ?_ ?_)
    · rw [← hs]
      have hl := hq l List.mem_cons_self
      simp [QuoteDb.part, QuoteDb.linesOf, QuoteDb.setLines, hl]
    · exact fun x hx => hq x (List.mem_cons_of_mem _ hx)
    · simpa using hf

section
variable [Formats]

theorem held_replaceLines_bind {α : Type} {G : QuotePart → Prop} {ctx : RequestCtx}
    {lines : Option (List CreateQuoteLineRequest)} {priced : PricedLines} {f : Unit → QuoteTx α} {cur : QuotePart}
    (hf : (f ()).Held (QuoteDb.part q publicId) G
      { cur with lines := lines.elim cur.lines fun ls => quoteLines ctx q ls priced }) :
    (replaceLines ctx q lines priced >>= f).Held (QuoteDb.part q publicId) G cur := by
  cases lines with
  | none => exact hf
  | some lines =>
    simp only [replaceLines, bind_assoc]
    refine .execute_bind (n := { cur with lines := [] }) (fun v s hs => ?_) (held_insertLines_bind ?_ ?_)
    · rw [← hs]
      simp [QuoteDb.part, QuoteDb.linesOf, QuoteDb.setLines, List.filter_filter]
    · exact fun l hl => quoteId_of_mem_quoteLines hl
    · simpa using hf

end

variable {A : List QuotePart → QuotePart → Prop} {seen : List QuotePart}

theorem rechecks_fetchQuoteRow_bind {α : Type} {e : AppError} {f : QuoteRow → QuoteTx α}
    (hf : ∀ (v : QuoteDb) row, v.quotes.find? q = some row → row.publicId = publicId →
      (f row).Rechecks (quoteGuard q publicId) A (Edits publicId) (fun r => r) (v.part q publicId :: seen)) :
    (fetchQuoteRow q >>= fun row => Prog.okOr row e >>= f).Rechecks (quoteGuard q publicId) A (Edits publicId)
      (fun r => r) seen := by
  refine .query_bind fun v base hinv hbase => .okOr_bind fun row hrow => hf v row hrow ?_
  obtain ⟨r, hr, hpid, -⟩ := hinv
  have hpart : (v.part q publicId).row = some r := by
    rw [← hr]
    exact congrArg QuotePart.row hbase.symm
  cases hpart.symm.trans hrow
  exact hpid

theorem rechecks_answer {p : Uuid} {e : AppError} {n : Nat} :
    (do let dto ← fetchQuoteDto p e; return (n, dto) : QuoteTx (Nat × QuoteDto)).Rechecks
      (quoteGuard q publicId) A (Edits publicId) (fun r => r) seen := by
  unfold fetchQuoteDto fetchQuoteRow
  simp only [bind_assoc]
  refine .query_bind fun _ _ _ _ => .okOr_bind fun row _ => .query_bind fun _ _ _ _ => ?_
  exact fun _ _ => rfl

theorem rechecks_updateQuoteRow_bind {α : Type} {o : QuoteRequest} {change : QuoteRow → QuoteRow}
    {f : Unit → QuoteTx α}
    (hf : ∀ base row, base.Sound publicId → StillOpen o seen base → base.row = some row →
      (f ()).Held (QuoteDb.part q publicId) (Edits publicId base) { base with row := some (change row) }) :
    (updateQuoteRow q change >>= f).Rechecks (quoteGuard q publicId) (StillOpen o) (Edits publicId)
      (fun r => r) seen := by
  refine .execute_bind (fun v => List.mem_singleton_self _) fun v base hinv hbase hA _ => ?_
  have hsome := hinv
  obtain ⟨row, hrow, -⟩ := hsome
  refine ⟨{ base with row := some (change row) }, fun s hs => ?_, hf base row hinv hA hrow⟩
  have hpart : s.part q publicId = base := hs.trans hbase.symm
  have hfind : s.quotes.find? q = some row := by
    rw [← hrow, ← hpart]
    rfl
  change (s.setQuotes (·.modify q change)).part q publicId = _
  rw [← hpart]
  simp [QuoteDb.part, Table.find?_modify_self, hfind]

theorem rechecks_header {o : QuoteRequest} {change : QuoteRow → QuoteRow} {e : AppError} {n : Nat}
    (hid : ∀ r, (change r).publicId = r.publicId) (htotals : ∀ r, (change r).totals = r.totals)
    (hcurrency : ∀ r, (change r).currency = r.currency) (hstatus : ∀ r, (change r).status ≠ .accepted) :
    (do updateQuoteRow q change; let dto ← fetchQuoteDto q e; return (n, dto) :
      QuoteTx (Nat × QuoteDto)).Rechecks (quoteGuard q publicId) (StillOpen o) (Edits publicId)
      (fun r => r) seen := by
  refine rechecks_updateQuoteRow_bind fun base row hinv hA hrow => held_answer ⟨hA.1, ?_⟩ _ _ _
  obtain ⟨hpid, htotalled, hzero⟩ := hinv.header hA.1 hrow (hid row) (htotals row) (hcurrency row)
  exact ⟨change row, rfl, hpid, htotalled, by rw [if_neg (hstatus row)]; exact hzero⟩

variable [Formats]

/-- The request is about the quote `q`. -/
def QuoteRequest.On (q : Uuid) : QuoteRequest → Prop
  | create _ _ => False
  | update _ id _ | send _ id _ | approvalComplete _ id | approvalReject _ id | accept _ id | reject _ id _ =>
    parsePublicId .quote id = .ok q

theorem rechecks_namedQuote_bind {α : Type} {ctx : RequestCtx} {id : String} {f : Uuid × QuoteRow → QuoteTx α}
    (hid : parsePublicId .quote id = .ok q)
    (hf : ∀ (v : QuoteDb) row, v.quotes.find? q = some row → row.publicId = publicId →
      (f (q, row)).Rechecks (quoteGuard q publicId) A (Edits publicId) (fun r => r) (v.part q publicId :: seen)) :
    (namedQuote ctx id >>= f).Rechecks (quoteGuard q publicId) A (Edits publicId) (fun r => r) seen := by
  unfold namedQuote
  simp only [bind_assoc, hid]
  refine .ofExcept_bind fun q' hq => .ofExcept_bind fun _ _ => ?_
  cases hq
  refine rechecks_fetchQuoteRow_bind fun v row hrow hpid => .ofExcept_bind fun _ _ => ?_
  exact hf v row hrow hpid

omit [Formats] in
theorem rechecks_insertLines_bind {α : Type} {p : Uuid} (hp : p ≠ q) {lines : List QuoteLineRow}
    (hlines : ∀ l ∈ lines, l.quoteId = p) {f : Unit → QuoteTx α}
    (hf : ∀ seen, (f ()).Rechecks (quoteGuard q publicId) A (Edits publicId) (fun r => r) seen) :
    (Prog.each insertLine lines >>= f).Rechecks (quoteGuard q publicId) A (Edits publicId) (fun r => r) seen := by
  induction lines generalizing seen with
  | nil => exact hf seen
  | cons l ls ih =>
    rw [Prog.each_cons_bind]
    refine .keeps_bind (fun v => List.not_mem_nil) (fun v s => ?_) fun v =>
      ih fun x hx => hlines x (List.mem_cons_of_mem _ hx)
    have hl : l.quoteId ≠ q := by
      rw [hlines l List.mem_cons_self]
      exact hp
    simp [quoteGuard, QuoteDb.part, QuoteDb.linesOf, QuoteDb.setLines, hl]

theorem rechecks_forkQuote {o : QuoteRequest} {ctx : RequestCtx} {row : QuoteRow} {head : QuoteHead}
    {lines : List CreateQuoteLineRequest} {priced : PricedLines} :
    (forkQuote ctx q row head lines priced).Rechecks (quoteGuard q publicId) (StillOpen o) (Edits publicId)
      (fun r => r) seen := by
  unfold forkQuote
  by_cases hfresh : ctx.fresh 0 = q
  · -- The id is in use: it is that of the quote.
    refine .execute_bind (fun v => ?_) fun v base hinv hbase _ hc => ?_
    · rw [hfresh]
      exact List.mem_cons_self
    · obtain ⟨hunused, -⟩ := ensure_bind_ok.mp hc
      obtain ⟨r, hr, -⟩ := hinv
      rw [hfresh] at hunused
      have hpart : (v.part q publicId).row = some r := by
        rw [← hr]
        exact congrArg QuotePart.row hbase.symm
      cases hpart.symm.trans hunused
  · refine .keeps_bind (fun v hk => ?_) (fun v s => ?_) fun v => ?_
    · simp only [quoteGuard, List.mem_cons, List.not_mem_nil, or_false, reduceCtorEq, QuoteLock.quote.injEq] at hk
      exact hfresh hk.symm
    · simp only [quoteGuard, QuoteDb.part, QuoteDb.setQuotes_quotes, QuoteDb.setQuotes_linesOf,
        QuoteDb.setQuotes_events, Table.find?_insert_ne _ _ (Ne.symm hfresh)]
    · exact rechecks_insertLines_bind hfresh (fun l hl => quoteId_of_mem_quoteLines hl) fun _ => rechecks_answer

theorem rechecks_updateQuote {ctx : RequestCtx} {id : String} {body : UpdateQuoteRequest}
    (hid : parsePublicId .quote id = .ok q) :
    (updateQuote ctx id body).Rechecks (quoteGuard q publicId) (StillOpen (.update ctx id body)) (Edits publicId)
      (fun r => r) [] := by
  refine rechecks_namedQuote_bind hid fun v row hrow _ => .ofExcept_bind fun head hhead => ?_
  refine .query_bind fun u base _ hbase => .ofExcept_bind fun priced hpriced => ?_
  split_ifs with hacc
  · exact rechecks_forkQuote
  · refine rechecks_updateQuoteRow_bind fun base row hinv hA hrow => held_replaceLines_bind (held_answer ?_ _ _ _)
    refine ⟨hA.1, editHead head priced.doc row, rfl, ?_⟩
    obtain ⟨r, hr, hpid, -, hcount⟩ := hinv
    cases hrow.symm.trans hr
    refine ⟨hpid, .of_priceLines hpriced (currency_of_updatedHead hhead) rfl ?_, hcount⟩
    -- The lines are the ones that the totals were made of.
    cases hlines : body.lines with
    | none =>
      have hkept := hA.2 hlines _ rfl
      simp only [Option.elim_none, Option.getD_none, ← hkept]
      simp [quoteGuard, QuoteDb.part, QuoteLineRow.request, QuoteLineRow.input, CreateQuoteLineRequest.input]
    | some lines =>
      rw [hlines] at hpriced
      exact quoteLines_input hpriced

theorem rechecks_concludeApproval {o : QuoteRequest} {ctx : RequestCtx} {id : String}
    {change : QuoteRow → QuoteRow → QuoteRow} (hid : parsePublicId .quote id = .ok q)
    (hpid : ∀ x r, (change x r).publicId = r.publicId) (htotals : ∀ x r, (change x r).totals = r.totals)
    (hcurrency : ∀ x r, (change x r).currency = r.currency) (hstatus : ∀ x r, (change x r).status ≠ .accepted) :
    (concludeApproval ctx id change).Rechecks (quoteGuard q publicId) (StillOpen o) (Edits publicId)
      (fun r => r) [] := by
  unfold concludeApproval
  refine .ofExcept_bind fun q' hq => .ofExcept_bind fun _ _ => ?_
  cases hid.symm.trans hq
  refine rechecks_fetchQuoteRow_bind fun v row hrow _ => ?_
  split_ifs with hpending
  · exact rechecks_header (hpid row) (htotals row) (hcurrency row) (hstatus row)
  · exact rechecks_answer

theorem rechecks_sendQuote {thr : Int} {ctx : RequestCtx} {id : String} {approval : Option String}
    (hid : parsePublicId .quote id = .ok q) :
    (sendQuote thr ctx id approval).Rechecks (quoteGuard q publicId) (StillOpen (.send ctx id approval))
      (Edits publicId) (fun r => r) [] := by
  refine rechecks_namedQuote_bind hid fun v row _ _ => .require_bind fun _ => ?_
  split_ifs
  · exact rechecks_header (fun _ => rfl) (fun _ => rfl) (fun _ => rfl) fun _ => QuoteStatus.noConfusion
  · exact rechecks_header (fun _ => rfl) (fun _ => rfl) (fun _ => rfl) fun _ => QuoteStatus.noConfusion

theorem rechecks_acceptQuote {ctx : RequestCtx} {id : String} (hid : parsePublicId .quote id = .ok q) :
    (acceptQuote ctx id).Rechecks (quoteGuard q publicId) (StillOpen (.accept ctx id)) (Edits publicId)
      (fun r => r) [] := by
  refine rechecks_namedQuote_bind hid fun v row _ hpid => ?_
  dsimp only
  split_ifs with hacc
  · exact rechecks_answer
  · refine .require_bind fun _ => .require_bind fun _ => rechecks_updateQuoteRow_bind fun base r hinv hA hr => ?_
    obtain ⟨hnew, htotalled, hzero⟩ := hinv.header hA.1 hr (f := acceptedQuote ctx.now) rfl rfl rfl
    let next : QuotePart := ⟨some (acceptedQuote ctx.now r), base.lines, base.acceptances + 1⟩
    refine .execute_bind (n := next) (fun u s hs => ?_) (held_answer ⟨hA.1, ?_⟩ _ _ _)
    · have hrow := congrArg QuotePart.row hs
      have hlines := congrArg QuotePart.lines hs
      have hcount := congrArg QuotePart.acceptances hs
      simp only [QuoteDb.part] at hrow hlines hcount
      have hlast : (QuoteEvent.accepted row.publicId row.totals.totalMinor row.currency).accepts publicId = true := by
        simp [QuoteEvent.accepts, hpid]
      simp [next, QuoteDb.part, hrow, hcount, hlast, ← hlines, QuoteDb.linesOf]
    · exact ⟨acceptedQuote ctx.now r, rfl, hnew, htotalled, by simp [next, hzero, acceptedQuote]⟩

theorem rechecks_rejectQuote {ctx : RequestCtx} {id : String} {reason : Option String}
    (hid : parsePublicId .quote id = .ok q) :
    (rejectQuote ctx id reason).Rechecks (quoteGuard q publicId) (StillOpen (.reject ctx id reason))
      (Edits publicId) (fun r => r) [] := by
  refine rechecks_namedQuote_bind hid fun v row _ _ => .require_bind fun _ => ?_
  split_ifs
  · exact rechecks_answer
  · exact rechecks_header (fun _ => rfl) (fun _ => rfl) (fun _ => rfl) fun _ => QuoteStatus.noConfusion

theorem rechecks_body {thr : Int} {o : QuoteRequest} (h : o.On q) :
    (o.body thr).Rechecks (quoteGuard q publicId) (StillOpen o) (Edits publicId) (fun r => r) [] := by
  cases o with
  | create ctx body => exact absurd h id
  | update ctx id body => exact rechecks_updateQuote h
  | send ctx id approval => exact rechecks_sendQuote h
  | approvalComplete ctx id =>
    exact rechecks_concludeApproval h (fun _ _ => rfl) (fun _ _ => rfl) (fun _ _ => rfl)
      fun _ _ => QuoteStatus.noConfusion
  | approvalReject ctx id =>
    exact rechecks_concludeApproval h (fun _ _ => rfl) (fun _ _ => rfl) (fun _ _ => rfl)
      fun _ _ => QuoteStatus.noConfusion
  | accept ctx id => exact rechecks_acceptQuote h
  | reject ctx id reason => exact rechecks_rejectQuote h

end

end Noxara.Sales
