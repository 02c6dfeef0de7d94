import Noxara.QuoteEffects

/-! Discounts and their approval, over runs of requests on quotes. -/
namespace Noxara.Sales

open Transaction
open Finance (Uuid Formats PublicId canonicalFormats Currency LineInput DocumentTotals bind_ok)

/-- What a customer is offered in a line. -/
structure LineTerms where
  productId : Option Uuid
  description : String
  input : LineInput
  deriving DecidableEq

def QuoteLineRow.terms (l : QuoteLineRow) : LineTerms := ⟨l.productId, l.description, l.input⟩

def QuoteDb.termsOf (q : Uuid) (s : QuoteDb) : Option Int × List LineTerms :=
  ((s.quotes.find? q).map (·.totals.discountMinor), (s.linesOf q).map (·.terms))

/-- A discount that is not below the threshold, in basis points of the subtotal. -/
def Exceeds (thresholdBps : Int) (totals : DocumentTotals) : Prop :=
  0 < totals.discountMinor ∧ thresholdBps ≤
    if 0 < totals.subtotalMinor then (totals.discountMinor * 10000).tdiv totals.subtotalMinor else 0

instance (thresholdBps : Int) (totals : DocumentTotals) : Decidable (Exceeds thresholdBps totals) :=
  inferInstanceAs (Decidable (_ ∧ _))

section
variable [Formats]

/-- An approval was completed, and the lines and the discount have not changed since. -/
def ApprovedSince (q : Uuid) (steps : List (QuoteDb × QuoteRequest)) (t : QuoteDb) : Prop :=
  ∃ before u ctx id after, steps = before ++ (u, .approvalComplete ctx id) :: after ∧
    (∃ row, Names id u q row ∧ row.status = .pendingApproval) ∧ ∀ x ∈ after, x.1.termsOf q = t.termsOf q

theorem ApprovedSince.later {q : Uuid} {steps : List (QuoteDb × QuoteRequest)} {t u : QuoteDb}
    (h : ApprovedSince q steps t) (o : QuoteRequest) (hterms : t.termsOf q = u.termsOf q) :
    ApprovedSince q (steps ++ [(t, o)]) u := by
  obtain ⟨before, v, ctx, id, after, rfl, hpending, hsince⟩ := h
  refine ⟨before, v, ctx, id, after ++ [(t, o)], by simp, hpending, fun x hx => ?_⟩
  rcases List.mem_append.mp hx with hx | hx
  · exact (hsince x hx).trans hterms
  · obtain rfl := List.mem_singleton.mp hx
    exact hterms

def requestTerms (lines : List CreateQuoteLineRequest) : Except Finance.AppError (List LineTerms) := do
  let productIds ← parseLineProductIds lines
  return (lines.zip productIds).map fun x => ⟨x.2, x.1.description, x.1.input⟩

/-- The condition on a step of a run: a quote with a discount that is not below the threshold is accepted
after it was sent only, new lines of a quote that is sent have a smaller discount, and no discount is so large
that sending overlooks it. -/
def Cautious (thresholdBps : Int) (q : Uuid) (step : QuoteDb × QuoteRequest) : Prop :=
  match step.2 with
  | .accept _ id => ∀ row, Names id step.1 q row →
      row.status = .sent ∨ row.status = .accepted ∨ ¬Exceeds thresholdBps row.totals
  | .update _ id body => ∀ row lines, Names id step.1 q row → row.status = .sent → body.lines = some lines →
      requestTerms lines = .ok ((step.1.linesOf q).map (·.terms)) ∨
      ∀ c computed doc, computeQuoteTotals (lines.map (·.input)) c = .ok (computed, doc) →
        ¬Exceeds thresholdBps doc
  | .send _ id _ => ∀ row, Names id step.1 q row → Exceeds thresholdBps row.totals →
      HeldForApproval thresholdBps row.totals
  | _ => True

/-- What holds of a quote all along. -/
structure Sound (thresholdBps : Int) (q : Uuid) (steps : List (QuoteDb × QuoteRequest)) (t : QuoteDb) : Prop where
  linesOf : t.quotes.find? q = none → t.linesOf q = []
  totalled : ∀ row, t.quotes.find? q = some row → Totalled row (t.linesOf q)
  approved : ∀ row, t.quotes.find? q = some row → row.status = .sent ∨ row.status = .accepted →
    ¬Exceeds thresholdBps row.totals ∨ ApprovedSince q steps t

section
variable {thr : Int} {q : Uuid} {steps : List (QuoteDb × QuoteRequest)} {t u : QuoteDb}

theorem Sound.of_same (h : Sound thr q steps t) (o : QuoteRequest) (hrow : u.quotes.find? q = t.quotes.find? q)
    (hlines : u.linesOf q = t.linesOf q) : Sound thr q (steps ++ [(t, o)]) u := by
  have hterms : t.termsOf q = u.termsOf q := by simp only [QuoteDb.termsOf, hrow, hlines]
  refine ⟨fun hn => ?_, fun row hr => ?_, fun row hr hs => ?_⟩
  · rw [hlines]
    exact h.linesOf (by rwa [hrow] at hn)
  · rw [hlines]
    exact h.totalled row (by rwa [hrow] at hr)
  · rcases h.approved row (by rwa [hrow] at hr) hs with hbelow | hsince
    · exact .inl hbelow
    · exact .inr (hsince.later o hterms)

theorem Sound.of_header (h : Sound thr q steps t) (o : QuoteRequest) {row : QuoteRow}
    {change : QuoteRow → QuoteRow} (hrow : t.quotes.find? q = some row)
    (hquotes : u.quotes = t.quotes.modify q change) (hlines : u.lines = t.lines)
    (htotals : (change row).totals = row.totals) (hcurrency : (change row).currency = row.currency)
    (happroved : (change row).status = .sent ∨ (change row).status = .accepted →
      ¬Exceeds thr row.totals ∨ ApprovedSince q (steps ++ [(t, o)]) u) : Sound thr q (steps ++ [(t, o)]) u := by
  have hnew : u.quotes.find? q = some (change row) := by rw [hquotes, Table.find?_modify_self, hrow]; rfl
  have hof : u.linesOf q = t.linesOf q := by simp only [QuoteDb.linesOf, hlines]
  refine ⟨fun hn => ?_, fun r hr => ?_, fun r hr hs => ?_⟩
  · rw [hnew] at hn
    cases hn
  · rw [hnew] at hr
    cases hr
    obtain ⟨c, computed, hc, hdoc⟩ := h.totalled row hrow
    exact ⟨c, computed, by rw [hcurrency]; exact hc, by rw [hof, htotals]; exact hdoc⟩
  · rw [hnew] at hr
    cases hr
    rw [htotals]
    exact happroved hs

theorem Sound.of_other_header (h : Sound thr q steps t) (o : QuoteRequest) {p : Uuid} (hp : q ≠ p)
    {change : QuoteRow → QuoteRow} (hquotes : u.quotes = t.quotes.modify p change) (hlines : u.lines = t.lines) :
    Sound thr q (steps ++ [(t, o)]) u :=
  h.of_same o (by rw [hquotes, Table.find?_modify_ne _ _ hp]) (by simp only [QuoteDb.linesOf, hlines])

omit [Formats] in
theorem termsOf_header {row : QuoteRow} {change : QuoteRow → QuoteRow} (hrow : t.quotes.find? q = some row)
    (hquotes : u.quotes = t.quotes.modify q change) (hlines : u.lines = t.lines)
    (htotals : (change row).totals = row.totals) : t.termsOf q = u.termsOf q := by
  simp only [QuoteDb.termsOf, hquotes, Table.find?_modify_self, hrow, Option.map_some, QuoteDb.linesOf, hlines,
    htotals]

theorem Sound.of_inserted (h : Sound thr q steps t) (o : QuoteRequest) {ctx : RequestCtx} {row : QuoteRow}
    {lines : List CreateQuoteLineRequest} {c : Currency} {priced : PricedLines}
    (hin : Inserted ctx row lines priced t u) (hpriced : priceLines lines c = .ok priced)
    (hcurrency : Currency.new row.currency = .ok c) (htotals : row.totals = priced.doc)
    (hstatus : row.status = .draft) : Sound thr q (steps ++ [(t, o)]) u := by
  by_cases hq : q = ctx.fresh 0
  · subst hq
    have hlines : u.linesOf (ctx.fresh 0) = quoteLines ctx (ctx.fresh 0) lines priced := by
      rw [hin.linesOf, h.linesOf hin.unused, if_pos rfl, List.nil_append]
    refine ⟨fun hn => ?_, fun r hr => ?_, fun r hr hs => ?_⟩
    · rw [hin.find?_self] at hn
      cases hn
    · rw [hin.find?_self] at hr
      cases hr
      refine .of_priceLines hpriced hcurrency htotals ?_
      rw [hlines]
      exact quoteLines_input hpriced
    · rw [hin.find?_self] at hr
      cases hr
      rw [hstatus] at hs
      rcases hs with hs | hs <;> cases hs
  · refine h.of_same o (hin.find?_ne hq) ?_
    rw [hin.linesOf, if_neg (Ne.symm hq), List.append_nil]

theorem quoteLines_terms {ctx : RequestCtx} {lines : List CreateQuoteLineRequest} {c : Currency}
    {priced : PricedLines} (h : priceLines lines c = .ok priced) :
    requestTerms lines = .ok ((quoteLines ctx q lines priced).map (·.terms)) := by
  have hids := (priceLines_ok h).1
  rw [quoteLines_map h (·.terms) (fun x => ⟨x.2, x.1.description, x.1.input⟩) fun _ _ _ _ => rfl]
  simp only [requestTerms, hids]
  rfl

omit [Formats] in
/-- Lines of the same terms come to the same totals, in whatever currency. -/
theorem Totalled.totals_eq {row : QuoteRow} {stored : List QuoteLineRow} (h : Totalled row stored)
    {inputs : List LineInput} {c : Currency} {computed : List Finance.LineTotals} {doc : DocumentTotals}
    (hinputs : inputs = stored.map (·.input)) (hdoc : computeQuoteTotals inputs c = .ok (computed, doc)) :
    doc = row.totals := by
  obtain ⟨d, computed', -, hstored⟩ := h
  have hsame : computeQuoteTotals inputs c = .ok (computed', row.totals) := by
    rw [hinputs, ← hstored]
    exact Finance.computeDocumentTotals_currency _ c d
  rw [hdoc] at hsame
  cases hsame
  rfl

/-- An edit in place. -/
theorem Sound.of_edited (h : Sound thr q steps t) {ctx : RequestCtx} {id : String} {body : UpdateQuoteRequest}
    {row : QuoteRow} {head : QuoteHead} {priced : PricedLines} (hnames : Names id t q row)
    (hhead : updatedHead row body = .ok head)
    (hpriced : priceLines (requestedLines q body t) head.currency = .ok priced)
    (hopen : row.status ≠ .accepted) (hed : Edited ctx q body head priced t u)
    (hcautious : Cautious thr q (t, .update ctx id body)) :
    Sound thr q (steps ++ [(t, .update ctx id body)]) u := by
  have hnew : u.quotes.find? q = some (editHead head priced.doc row) := by
    rw [hed.quotes, Table.find?_modify_self, hnames.found]
    rfl
  refine ⟨fun hn => ?_, fun r hr => ?_, fun r hr hs => ?_⟩
  · rw [hnew] at hn
    cases hn
  · rw [hnew] at hr
    cases hr
    exact .of_priceLines hpriced (currency_of_updatedHead hhead) rfl (hed.input hpriced)
  · rw [hnew] at hr
    cases hr
    have hsent : row.status = .sent := by
      rcases hs with hs | hs
      · exact hs
      · exact absurd hs hopen
    change ¬Exceeds thr priced.doc ∨ _
    -- Either the terms are the ones that were approved, or the discount is small.
    have hcase : (t.linesOf q).map (·.terms) = (u.linesOf q).map (·.terms) ∨ ¬Exceeds thr priced.doc := by
      simp only [QuoteDb.linesOf, hed.lines, filter_replacedLines_self]
      cases hlines : body.lines with
      | none => exact .inl rfl
      | some lines =>
        have hrequested : requestedLines q body t = lines := by simp [requestedLines, hlines]
        rw [hrequested] at hpriced
        rcases hcautious row lines hnames hsent hlines with hsame | hbelow
        · left
          rw [@quoteLines_terms _ q ctx _ _ _ hpriced] at hsame
          exact (Except.ok.inj hsame).symm
        · exact .inr (hbelow _ _ _ (priceLines_ok hpriced).2)
    rcases hcase with hterms | hbelow
    · have hinputs : (requestedLines q body t).map (·.input) = (t.linesOf q).map (·.input) := by
        have hmap := congrArg (List.map LineTerms.input) hterms
        simp only [List.map_map] at hmap
        rw [← hed.input hpriced]
        exact hmap.symm
      have htotals : priced.doc = row.totals :=
        (h.totalled row hnames.found).totals_eq hinputs (priceLines_ok hpriced).2
      have hsame : t.termsOf q = u.termsOf q := by
        simp only [QuoteDb.termsOf, hnew, hnames.found, hterms, Option.map_some, editHead, htotals]
      rw [htotals]
      rcases h.approved row hnames.found (.inl hsent) with hbelow | hsince
      · exact .inl hbelow
      · exact .inr (hsince.later _ hsame)
    · exact .inl hbelow

end

variable {thr : Int} {q : Uuid} {steps : List (QuoteDb × QuoteRequest)} {t : QuoteDb}

theorem Sound.create (h : Sound thr q steps t) {ctx : RequestCtx} {body : CreateQuoteRequest}
    {r : (Nat × QuoteDto) × QuoteDb} (hr : (createQuote ctx body).run t = .ok r) :
    Sound thr q (steps ++ [(t, .create ctx body)]) r.2 := by
  rcases run_createQuote hr with hsame | ⟨row, priced, hdraft, hin⟩
  · rw [hsame]
    exact h.of_same _ rfl rfl
  · simp only [draftQuote, bind_ok, Finance.parseCurrency, Finance.mapError_ok] at hdraft
    obtain ⟨_, _, _, _, _, _, c, hc, _, _, priced', hpriced, hdraft⟩ := hdraft
    cases hdraft
    exact h.of_inserted _ hin hpriced hc rfl rfl

theorem Sound.update (h : Sound thr q steps t) {ctx : RequestCtx} {id : String} {body : UpdateQuoteRequest}
    {r : (Nat × QuoteDto) × QuoteDb} (hr : (updateQuote ctx id body).run t = .ok r)
    (hc : Cautious thr q (t, .update ctx id body)) : Sound thr q (steps ++ [(t, .update ctx id body)]) r.2 := by
  obtain ⟨p, row, head, priced, hnames, hhead, hpriced, heffect⟩ := run_updateQuote hr
  split_ifs at heffect with hacc
  · exact h.of_inserted _ heffect hpriced (currency_of_updatedHead hhead) rfl rfl
  · by_cases hq : q = p
    · subst hq
      exact h.of_edited hnames hhead hpriced hacc heffect hc
    · refine h.of_same _ ?_ ?_
      · rw [heffect.quotes, Table.find?_modify_ne _ _ hq]
      · simp only [QuoteDb.linesOf, heffect.lines, filter_replacedLines hq]

theorem Sound.send (h : Sound thr q steps t) {ctx : RequestCtx} {id : String} {approval : Option String}
    {r : (Nat × QuoteDto) × QuoteDb} (hr : (sendQuote thr ctx id approval).run t = .ok r)
    (hc : Cautious thr q (t, .send ctx id approval)) : Sound thr q (steps ++ [(t, .send ctx id approval)]) r.2 := by
  obtain ⟨p, row, hnames, -, heffect⟩ := run_sendQuote hr
  rw [heffect]
  by_cases hq : q = p
  · subst hq
    split_ifs with hheld
    · refine h.of_header _ hnames.found rfl rfl rfl rfl fun hs => ?_
      rcases hs with hs | hs <;> cases hs
    · exact h.of_header _ hnames.found rfl rfl rfl rfl fun _ => .inl fun hex => hheld (hc row hnames hex)
  · exact h.of_other_header _ hq rfl rfl

theorem Sound.approvalComplete (h : Sound thr q steps t) {ctx : RequestCtx} {id : String}
    {r : (Nat × QuoteDto) × QuoteDb} (hr : (Sales.approvalComplete ctx id).run t = .ok r) :
    Sound thr q (steps ++ [(t, .approvalComplete ctx id)]) r.2 := by
  obtain ⟨p, row, hnames, heffect⟩ := run_concludeApproval hr
  rw [heffect]
  split_ifs with hpending
  · by_cases hq : q = p
    · subst hq
      refine h.of_header _ hnames.found rfl rfl rfl rfl fun _ => .inr ?_
      exact ⟨steps, t, ctx, id, [], rfl, ⟨row, hnames, hpending⟩, by simp⟩
    · exact h.of_other_header _ hq rfl rfl
  · exact h.of_same _ rfl rfl

theorem Sound.approvalReject (h : Sound thr q steps t) {ctx : RequestCtx} {id : String}
    {r : (Nat × QuoteDto) × QuoteDb} (hr : (Sales.approvalReject ctx id).run t = .ok r) :
    Sound thr q (steps ++ [(t, .approvalReject ctx id)]) r.2 := by
  obtain ⟨p, row, hnames, heffect⟩ := run_concludeApproval hr
  rw [heffect]
  split_ifs with hpending
  · by_cases hq : q = p
    · subst hq
      refine h.of_header _ hnames.found rfl rfl rfl rfl fun hs => ?_
      rcases hs with hs | hs <;> cases hs
    · exact h.of_other_header _ hq rfl rfl
  · exact h.of_same _ rfl rfl

theorem Sound.accept (h : Sound thr q steps t) {ctx : RequestCtx} {id : String}
    {r : (Nat × QuoteDto) × QuoteDb} (hr : (acceptQuote ctx id).run t = .ok r)
    (hc : Cautious thr q (t, .accept ctx id)) : Sound thr q (steps ++ [(t, .accept ctx id)]) r.2 := by
  obtain ⟨p, row, hnames, heffect⟩ := run_acceptQuote hr
  split_ifs at heffect with hacc
  · rw [heffect]
    exact h.of_same _ rfl rfl
  · rw [heffect.2.2]
    by_cases hq : q = p
    · subst hq
      refine h.of_header _ hnames.found rfl rfl rfl rfl fun _ => ?_
      rcases hc row hnames with hsent | haccepted | hbelow
      · rcases h.approved row hnames.found (.inl hsent) with hbelow | hsince
        · exact .inl hbelow
        · exact .inr (hsince.later _ (termsOf_header hnames.found rfl rfl rfl))
      · exact absurd haccepted hacc
      · exact .inl hbelow
    · exact h.of_other_header _ hq rfl rfl

theorem Sound.reject (h : Sound thr q steps t) {ctx : RequestCtx} {id : String} {reason : Option String}
    {r : (Nat × QuoteDto) × QuoteDb} (hr : (rejectQuote ctx id reason).run t = .ok r) :
    Sound thr q (steps ++ [(t, .reject ctx id reason)]) r.2 := by
  obtain ⟨p, row, hnames, -, heffect⟩ := run_rejectQuote hr
  rw [heffect]
  split_ifs with hrejected
  · exact h.of_same _ rfl rfl
  · by_cases hq : q = p
    · subst hq
      refine h.of_header _ hnames.found rfl rfl rfl rfl fun hs => ?_
      rcases hs with hs | hs <;> cases hs
    · exact h.of_other_header _ hq rfl rfl

theorem Sound.step (h : Sound thr q steps t) {o : QuoteRequest} {r : (Nat × QuoteDto) × QuoteDb}
    (hr : (o.body thr).run t = .ok r) (hc : Cautious thr q (t, o)) : Sound thr q (steps ++ [(t, o)]) r.2 := by
  cases o with
  | create ctx body => exact h.create hr
  | update ctx id body => exact h.update hr hc
  | send ctx id approval => exact h.send hr hc
  | approvalComplete ctx id => exact h.approvalComplete hr
  | approvalReject ctx id => exact h.approvalReject hr
  | accept ctx id => exact h.accept hr hc
  | reject ctx id reason => exact h.reject hr

theorem sound_of_runs {s t : QuoteDb} {steps : List (QuoteDb × QuoteRequest)}
    (h : Runs (QuoteRequest.body thr) s steps t) (hnew : s.quotes.find? q = none) (hlines : s.linesOf q = [])
    (hc : ∀ x ∈ steps, Cautious thr q x) : Sound thr q steps t := by
  induction h with
  | nil =>
    refine ⟨fun _ => hlines, fun row hr => ?_, fun row hr => ?_⟩
    · rw [hnew] at hr
      cases hr
    · rw [hnew] at hr
      cases hr
  | step prior hr ih =>
    exact (ih fun x hx => hc x (List.mem_append_left _ hx)).step hr (hc _ (by simp))

/-- In every run of cautious steps a quote that is accepted has a discount below the threshold, or one that
was approved. -/
theorem accepted_discount_approved {s t : QuoteDb} {steps : List (QuoteDb × QuoteRequest)}
    (h : Runs (QuoteRequest.body thr) s steps t) (hnew : s.quotes.find? q = none) (hlines : s.linesOf q = [])
    (hc : ∀ x ∈ steps, Cautious thr q x) {row : QuoteRow} (hrow : t.quotes.find? q = some row)
    (hacc : row.status = .accepted) : ¬Exceeds thr row.totals ∨ ApprovedSince q steps t :=
  (sound_of_runs h hnew hlines hc).approved row hrow (.inr hacc)

end

def QuoteDb.oneCustomer : QuoteDb := { QuoteDb.empty with
  customers := [1]
  users := [2] }

section
variable [Formats]

def halfPrice : QuoteRequest :=
  .create (.nth 1) { customerId := (PublicId.mk .customer 1).asStr, lines := [⟨none, "", 1, 10000, 5000, 0⟩] }

def firstQuote : String := (PublicId.mk .quote 100).asStr

def approvedAndAccepted : List QuoteRequest :=
  [halfPrice, .send (.nth 2) firstQuote none, .approvalComplete (.nth 3) firstQuote, .accept (.nth 4) firstQuote]

end

/-- Check the condition on a step that changes no lines. -/
def cautious [Formats] (thr : Int) (q : Uuid) (step : QuoteDb × QuoteRequest) : Bool :=
  match step.2 with
  | .accept _ _ => (step.1.quotes.find? q).all fun row =>
      row.status = .sent ∨ row.status = .accepted ∨ ¬Exceeds thr row.totals
  | .update _ _ body => body.lines.isNone
  | .send _ _ _ => (step.1.quotes.find? q).all fun row =>
      Exceeds thr row.totals → HeldForApproval thr row.totals
  | _ => true

theorem cautious_sound [Formats] {thr : Int} {q : Uuid} {step : QuoteDb × QuoteRequest}
    (h : cautious thr q step = true) : Cautious thr q step := by
  obtain ⟨db, request⟩ := step
  cases request with
  | accept ctx id =>
    intro row hnames
    simpa [cautious, hnames.found] using h
  | update ctx id body =>
    intro row lines _ _ hlines
    simp [cautious, hlines] at h
  | send ctx id approval =>
    intro row hnames hex
    simp only [cautious, hnames.found, Option.all_some, decide_eq_true_eq] at h
    exact h hex
  | create | approvalComplete | approvalReject | reject => trivial

def isCompletion : QuoteRequest → Bool
  | .approvalComplete _ _ => true
  | _ => false

theorem not_approvedSince [Formats] {q : Uuid} {steps : List (QuoteDb × QuoteRequest)} {t : QuoteDb}
    (h : ∀ x ∈ steps, isCompletion x.2 = false) : ¬ApprovedSince q steps t := by
  rintro ⟨before, u, ctx, id, after, rfl, -, -⟩
  cases h _ (List.mem_append_right _ List.mem_cons_self)

/-- Sent, approved and accepted. -/
theorem accepted_discount_approved_half_price :
    letI := canonicalFormats
    ∃ steps t row, Runs (QuoteRequest.body 1000) .oneCustomer steps t ∧ t.quotes.find? 100 = some row ∧
      row.status = .accepted ∧ Exceeds 1000 row.totals ∧
      (¬Exceeds 1000 row.totals ∨ ApprovedSince 100 steps t) := by
  let := canonicalFormats
  obtain ⟨steps, t, hrun, hend⟩ := Runs.of_play (QuoteRequest.body 1000) approvedAndAccepted .oneCustomer
    (fun steps t => steps.all (cautious 1000 100) &&
      (t.quotes.find? 100).any fun row => row.status = .accepted ∧ Exceeds 1000 row.totals) (by decide +kernel)
  simp only [Bool.and_eq_true, List.all_eq_true, Option.any_eq_true, decide_eq_true_eq] at hend
  obtain ⟨hc, row, hrow, hacc, hex⟩ := hend
  exact ⟨steps, t, row, hrun, hrow, hacc, hex,
    accepted_discount_approved hrun rfl rfl (fun x hx => cautious_sound (hc x hx)) hrow hacc⟩

/-- A draft at half price is accepted though nobody approved the discount. -/
theorem draft_accepted_without_approval :
    letI := canonicalFormats
    ∃ steps t row, Runs (QuoteRequest.body 1000) .oneCustomer steps t ∧ t.quotes.find? 100 = some row ∧
      row.status = .accepted ∧ Exceeds 1000 row.totals ∧ ¬ApprovedSince 100 steps t := by
  let := canonicalFormats
  obtain ⟨steps, t, hrun, hend⟩ := Runs.of_play (QuoteRequest.body 1000)
    [halfPrice, .accept (.nth 2) firstQuote] .oneCustomer
    (fun steps t => steps.all (fun x => !isCompletion x.2) &&
      (t.quotes.find? 100).any fun row => row.status = .accepted ∧ Exceeds 1000 row.totals) (by decide +kernel)
  simp only [Bool.and_eq_true, List.all_eq_true, Option.any_eq_true, decide_eq_true_eq, Bool.not_eq_true'] at hend
  obtain ⟨hnone, row, hrow, hacc, hex⟩ := hend
  exact ⟨steps, t, row, hrun, hrow, hacc, hex, not_approvedSince hnone⟩

end Noxara.Sales
