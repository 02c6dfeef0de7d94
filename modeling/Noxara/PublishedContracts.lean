import Noxara.AcceptedQuotes
import Noxara.QuoteApprovals
import Noxara.SalesContracts

/-! Requests on one contract side by side, and what stays of accepted quotes and published contracts. -/
namespace Noxara.Sales

open Transaction
open Finance (Uuid Formats canonicalFormats PublicId parsePublicId)

/-- The condition on a statement that takes the row of the contract: it is not published yet. -/
def Unpublished (now : Option ContractRow) : Prop := ∀ row, now = some row → row.publishedAt = none

def contractGuard (k : Uuid) : Guard ContractDb ContractLock (Option ContractRow) :=
  ⟨.contract k, fun s => s.contracts.find? k, fun r => r.isSome⟩

/-- What a request makes of a contract. -/
def Drafts (a b : Option ContractRow) : Prop := Unpublished a ∧ b.isSome

section
variable {k : Uuid} {seen : List (Option ContractRow)}

theorem rechecks_updateContractRow_bind {α : Type} {change : ContractRow → ContractRow}
    {f : ContractRow → ContractTx α}
    (hf : ∀ row base, Unpublished base → (f row).Held (contractGuard k).part (Drafts base) (some row)) :
    (updateContractRow k change >>= f).Rechecks (contractGuard k) (fun _ => Unpublished) Drafts
      (fun r => r) seen := by
  refine .executeReturning_bind (fun v => List.mem_singleton_self _) fun v base row hinv hbase hA hc => ?_
  have hold : v.contracts.find? k = base := hbase.symm
  cases hfind : v.contracts.find? k with
  | none =>
    simp only [hfind] at hc
    cases hc
  | some old =>
    simp only [hfind, ensure_bind_ok] at hc
    obtain ⟨-, -, -, hrow⟩ := hc
    cases hrow
    refine ⟨some (change old), fun s hs => ?_, hf _ base hA⟩
    have hs : s.contracts.find? k = some old := hs.trans hfind
    change (s.contracts.modify k change).find? k = _
    rw [Table.find?_modify_self, hs]
    rfl

theorem held_insertContractEvent_bind {α : Type} {G : Option ContractRow → Prop} {cur : Option ContractRow}
    {event : ContractEvent} {f : Unit → ContractTx α} (hf : (f ()).Held (contractGuard k).part G cur) :
    (insertContractEvent event >>= f).Held (contractGuard k).part G cur :=
  .execute_bind (fun _ _ hs => hs) hf

variable [Formats]

/-- The request is about the contract `k`. -/
def ContractRequest.On (k : Uuid) : ContractRequest → Prop
  | update _ id _ | publish _ id _ => parsePublicId .salesContract id = .ok k

theorem rechecks_namedContract_bind {α : Type} {ctx : RequestCtx} {id : String}
    {f : Uuid × ContractRow → ContractTx α} (hid : parsePublicId .salesContract id = .ok k)
    (hf : ∀ row seen, (f (k, row)).Rechecks (contractGuard k) (fun _ => Unpublished) Drafts (fun r => r) seen) :
    (namedContract ctx id >>= f).Rechecks (contractGuard k) (fun _ => Unpublished) Drafts (fun r => r) seen := by
  unfold namedContract
  simp only [bind_assoc, hid]
  refine .ofExcept_bind fun k' hk => .ofExcept_bind fun _ _ => ?_
  cases hk
  exact .query_bind fun v base _ _ => .okOr_bind fun row _ => .ofExcept_bind fun _ _ => hf row _

theorem rechecks_updateContract {ctx : RequestCtx} {id : String} {body : UpdateContractRequest}
    (hid : parsePublicId .salesContract id = .ok k) :
    (updateContract ctx id body).Rechecks (contractGuard k) (fun _ => Unpublished) Drafts (fun r => r) [] := by
  refine rechecks_namedContract_bind hid fun row seen => .require_bind fun _ => .ofExcept_bind fun _ _ =>
    .ofExcept_bind fun change _ => ?_
  rw [← bind_pure (updateContractRow k change)]
  exact rechecks_updateContractRow_bind fun row base hA => ⟨hA, rfl⟩

theorem rechecks_publishContract {ctx : RequestCtx} {id : String} {today : Finance.Date}
    (hid : parsePublicId .salesContract id = .ok k) :
    (publishContract ctx id today).Rechecks (contractGuard k) (fun _ => Unpublished) Drafts (fun r => r) [] := by
  refine rechecks_namedContract_bind hid fun row seen => ?_
  dsimp only
  split_ifs
  · exact fun _ _ => rfl
  · refine .require_bind fun _ => rechecks_updateContractRow_bind fun row base hA => ?_
    refine held_insertContractEvent_bind ?_
    split_ifs
    · exact held_insertContractEvent_bind ⟨hA, rfl⟩
    · exact ⟨hA, rfl⟩

theorem disciplined_contracts {ι : Type} {requests : ι → ContractRequest} (hon : ∀ i, (requests i).On k)
    {db : ContractDb} (h0 : (db.contracts.find? k).isSome) :
    Watch.Disciplined (contractGuard k) (fun _ _ => Unpublished) (fun _ => Drafts)
      (fun i => (requests i).body) db where
  rechecks i := by
    have hi := hon i
    cases hr : requests i with
    | update ctx id body =>
      rw [hr] at hi
      exact rechecks_updateContract hi
    | publish ctx id today =>
      rw [hr] at hi
      exact rechecks_publishContract hi
  start := h0
  keeps _ _ _ _ h := h.2

theorem disciplined_quotes {ι : Type} {thr : Int} {q : Uuid} {publicId : String} {requests : ι → QuoteRequest}
    (hon : ∀ i, (requests i).On q) {db : QuoteDb} (h0 : (db.part q publicId).Sound publicId) :
    Watch.Disciplined (quoteGuard q publicId) (fun i => StillOpen (requests i)) (fun _ => Edits publicId)
      (fun i => (requests i).body thr) db where
  rechecks i := rechecks_body (hon i)
  start := h0
  keeps _ _ _ _ h := h.2

end

/-- Requests on one quote whose updates of it find it open and with the lines they priced: from when the quote
is accepted its header and lines stay, its totals are those of its lines, and its acceptance was announced
once. Requests on one contract whose updates find it unpublished: a published contract stays. -/
theorem accepted_quote_and_published_contract_stay [Formats] {ι : Type} [DecidableEq ι] :
    (∀ (thr : Int) (q : Uuid) (publicId : String) (requests : ι → QuoteRequest) (db : QuoteDb)
      (W V : Watch ι QuoteDb QuoteLock Finance.AppError (Nat × QuoteDto) QuotePart),
      (∀ i, (requests i).On q) → (db.part q publicId).Sound publicId →
      Watch.Reached (quoteGuard q publicId) (fun i => StillOpen (requests i)) (fun i => (requests i).body thr) db W →
      Relation.ReflTransGen (Watch.Step (quoteGuard q publicId) fun i => StillOpen (requests i)) W V →
      ∀ row, W.config.db.quotes.find? q = some row → row.status = .accepted →
        V.config.db.quotes.find? q = some row ∧ V.config.db.linesOf q = W.config.db.linesOf q ∧
          Totalled row (V.config.db.linesOf q) ∧ V.config.db.events.countP (·.accepts publicId) = 1) ∧
    ∀ (k : Uuid) (requests : ι → ContractRequest) (db : ContractDb)
      (W V : Watch ι ContractDb ContractLock Finance.AppError ContractRow (Option ContractRow)),
      (∀ i, (requests i).On k) → (db.contracts.find? k).isSome →
      Watch.Reached (contractGuard k) (fun _ _ => Unpublished) (fun i => (requests i).body) db W →
      Relation.ReflTransGen (Watch.Step (contractGuard k) fun _ _ => Unpublished) W V →
      ∀ row, W.config.db.contracts.find? k = some row → row.publishedAt.isSome →
        V.config.db.contracts.find? k = some row := by
  constructor
  · intro thr q publicId requests db W V hon h0 hW hV row hrow hacc
    have hdisc := @disciplined_quotes _ _ thr _ _ _ hon _ h0
    have hstart : (W.config.db.part q publicId).Accepted := ⟨row, hrow, hacc⟩
    obtain ⟨-, hsame⟩ := hW.settled hV hdisc (v := fun p => p) (F := QuotePart.Accepted) hstart
      fun i a b _ ha hG => by
        obtain ⟨r, hr, hs⟩ := ha
        exact absurd hs (hG.1 r hr)
    have hfind := congrArg QuotePart.row hsame
    have hlines := congrArg QuotePart.lines hsame
    have hsound := Watch.Reached.inv (hW.trans hV) hdisc
    obtain ⟨r, hr, -, htotalled, hcount⟩ := hsound
    have hnow : V.config.db.quotes.find? q = some row := hfind.trans hrow
    cases hr.symm.trans hnow
    rw [if_pos hacc] at hcount
    exact ⟨hnow, hlines, htotalled, hcount⟩
  · intro k requests db W V hon h0 hW hV row hrow hpub
    have hstart : ∃ r, (contractGuard k).part W.config.db = some r ∧ r.publishedAt.isSome = true :=
      ⟨row, hrow, hpub⟩
    obtain ⟨-, hsame⟩ := hW.settled hV (disciplined_contracts hon h0) (v := fun p => p)
      (F := fun p => ∃ r, p = some r ∧ r.publishedAt.isSome = true) hstart fun i a b _ ha hG => by
        obtain ⟨r, hr, hs⟩ := ha
        rw [hG.1 r hr] at hs
        cases hs
    exact hsame.trans hrow

section
variable [Formats]

def onePiece : QuoteLineRow where
  publicId := "qtl_" ++ Formats.uuidDisplay 101
  quoteId := 100
  position := 0
  productId := none
  description := ""
  quantity := 1
  unitPriceMinor := 100
  discountMinor := 0
  taxRateBps := 0
  taxMinor := 0
  lineTotalMinor := 100

def draftOfOnePiece : QuoteRow where
  publicId := firstQuote
  dealId := none
  customerId := 1
  quoteNumber := "Q-1"
  status := .draft
  versionNumber := 1
  previousQuoteId := none
  currency := "USD"
  totals := ⟨100, 0, 0, 100⟩
  notes := none
  validUntil := none
  acceptedAt := none
  ownerUserId := some 2
  version := 1
  approvalId := none
  discountApprovalThresholdBps := none

def QuoteDb.oneDraft : QuoteDb := { QuoteDb.oneCustomer with
  quotes := Table.empty.insert 100 draftOfOnePiece
  lines := [onePiece] }

theorem sound_oneDraft : (QuoteDb.oneDraft.part 100 firstQuote).Sound firstQuote := by
  have hdoc : computeQuoteTotals [⟨1, 100, 0, 0⟩] .USD = .ok ([⟨100, 0, 0, 100⟩], ⟨100, 0, 0, 100⟩) := by
    decide
  have hcode : Finance.Currency.new "USD" = .ok .USD := by decide
  exact ⟨draftOfOnePiece, rfl, rfl, ⟨.USD, _, hcode, hdoc⟩, rfl⟩

def emptied : QuoteRequest := .update (.nth 5) firstQuote { lines := some [] }

def acceptance : QuoteRequest := .accept (.nth 2) firstQuote

/-- A draft contract, and requests to publish it and to change it. -/
def firstContract : String := (PublicId.mk .salesContract 300).asStr

def draftContract : ContractRow where
  publicId := firstContract
  customerId := 1
  dealId := none
  orderId := none
  title := "Support"
  status := .draft
  termMonths := none
  startDate := none
  endDate := none
  valueMinor := 0
  currency := "USD"
  autoRenew := false
  renewalNoticeDays := 30
  ownerUserId := some 2
  publishedAt := none
  version := 1

def ContractDb.oneDraft : ContractDb := ⟨Table.empty.insert 300 draftContract, [], [2]⟩

def publication : ContractRequest := .publish (.nth 1) firstContract ⟨2026, 1, 1, by decide⟩

def retitled : ContractRequest := .update (.nth 2) firstContract { title := some "Other" }

end

/-- Check the condition of a statement that takes the row of a quote. -/
def stillOpen (o : QuoteRequest) (seen : List QuotePart) (now : QuotePart) : Bool :=
  now.row.all (fun row => row.status ≠ .accepted) &&
    (!decide o.KeepsLines || seen.head?.all fun p => p.lines = now.lines)

theorem stillOpen_sound {o : QuoteRequest} {seen : List QuotePart} {now : QuotePart}
    (h : stillOpen o seen now = true) : StillOpen o seen now := by
  simp only [stillOpen, Bool.and_eq_true, Bool.or_eq_true, Bool.not_eq_true', decide_eq_false_iff_not,
    Option.all_eq_true, decide_eq_true_eq] at h
  exact ⟨h.1, fun hk => h.2.resolve_left (not_not_intro hk)⟩

theorem unpublished_sound {now : Option ContractRow} (h : now.all (fun row => row.publishedAt.isNone) = true) :
    Unpublished now := by
  intro row hrow
  simpa [hrow] using h

/-- A quote that is accepted and then updated, and a contract that is published and then updated. -/
theorem accepted_quote_and_published_contract_stay_one_after_another :
    letI := canonicalFormats
    (∃ (W V : Watch (Fin 2) QuoteDb QuoteLock Finance.AppError (Nat × QuoteDto) QuotePart) (row : QuoteRow),
      W.config.db.quotes.find? 100 = some row ∧ row.status = .accepted ∧ V.config.db.quotes.keys.length = 2 ∧
      V.config.db.quotes.find? 100 = some row ∧ V.config.db.linesOf 100 = W.config.db.linesOf 100 ∧
      Totalled row (V.config.db.linesOf 100) ∧ V.config.db.events.countP (·.accepts firstQuote) = 1) ∧
    ∃ (W V : Watch (Fin 2) ContractDb ContractLock Finance.AppError ContractRow (Option ContractRow))
      (row : ContractRow), W.config.db.contracts.find? 300 = some row ∧ row.publishedAt.isSome ∧
      V.config.log.length = 2 ∧ V.config.db.contracts.find? 300 = some row := by
  let := canonicalFormats
  constructor
  · have hid : parsePublicId .quote firstQuote = .ok 100 := by decide +kernel
    obtain ⟨W, V, hW, hV, hacc, htwo⟩ := Watch.Reached.of_play (g := quoteGuard 100 firstQuote)
      (P := fun i => stillOpen (sideBySide acceptance emptied i))
      (A := fun i => StillOpen (sideBySide acceptance emptied i)) (fun i seen r => stillOpen_sound)
      (fun i : Fin 2 => (sideBySide acceptance emptied i).body 1000) .oneDraft (Move.through left 5)
      (Move.through right 5) (fun W => (W.config.db.quotes.find? 100).any (·.status = .accepted))
      (fun V => V.config.db.quotes.keys.length = 2) (by decide +kernel)
    obtain ⟨row, hrow, hs⟩ := (Option.any_eq_true _ _).mp hacc
    have hon : ∀ i : Fin 2, (sideBySide acceptance emptied i).On 100 := by
      intro i
      unfold sideBySide
      split_ifs
      · exact hid
      · exact hid
    exact ⟨W, V, row, hrow, of_decide_eq_true hs, of_decide_eq_true htwo,
      accepted_quote_and_published_contract_stay.1 1000 100 firstQuote _ .oneDraft W V hon sound_oneDraft hW hV row
        hrow (of_decide_eq_true hs)⟩
  · have hid : parsePublicId .salesContract firstContract = .ok 300 := by decide +kernel
    obtain ⟨W, V, hW, hV, hpub, htwo⟩ := Watch.Reached.of_play (g := contractGuard 300)
      (P := fun _ _ now => now.all (fun row => row.publishedAt.isNone))
      (A := fun _ _ => Unpublished) (fun i seen r => unpublished_sound)
      (fun i : Fin 2 => (sideBySide publication retitled i).body) .oneDraft (Move.through left 3)
      (Move.through right 1) (fun W => (W.config.db.contracts.find? 300).any (·.publishedAt.isSome))
      (fun V => V.config.log.length = 2) (by decide +kernel)
    obtain ⟨row, hrow, hs⟩ := (Option.any_eq_true _ _).mp hpub
    have hon : ∀ i : Fin 2, (sideBySide publication retitled i).On 300 := by
      intro i
      unfold sideBySide
      split_ifs
      · exact hid
      · exact hid
    exact ⟨W, V, row, hrow, hs, of_decide_eq_true htwo,
      accepted_quote_and_published_contract_stay.2 300 _ .oneDraft W V hon rfl hW hV row hrow hs⟩

/-- An update that passed its check is committed after the quote was accepted: the accepted quote loses its
lines. -/
theorem accepted_quote_emptied :
    letI := canonicalFormats
    ∃ c d, Reachable (fun i : Fin 2 => (sideBySide emptied acceptance i).body 1000) .oneDraft c ∧
      Relation.ReflTransGen Step c d ∧
      ((c.db.quotes.find? 100).any fun row => row.status = .accepted ∧ row.totals.totalMinor = 100 ∧
        (c.db.linesOf 100).length = 1) = true ∧
      ((d.db.quotes.find? 100).any fun row => row.status = .accepted ∧ row.totals.totalMinor = 0 ∧
        d.db.linesOf 100 = []) = true := by
  let := canonicalFormats
  exact Reachable.of_play_twice (fun i : Fin 2 => (sideBySide emptied acceptance i).body 1000) .oneDraft
    ([.exec left, .exec left] ++ Move.through right 5) (Move.through left 4) _ _ (by decide +kernel)

end Noxara.Sales
