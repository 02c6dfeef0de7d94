import Noxara.JournalChecks
import Noxara.MoneyRounding

/-! Documents whose totals are computed always post: the totals of lines add up despite their rounding, and
the entries of an invoice and of a credit note take them as they are. -/
namespace Noxara.Finance
open Rounding

structure LineInput.Fair (l : LineInput) : Prop where
  quantity : 0 ≤ l.quantity
  price : 0 ≤ l.unitPriceMinor
  discount : 0 ≤ l.discountMinor
  within : l.discountMinor ≤ l.quantity * l.unitPriceMinor
  rate : 0 ≤ l.taxRateBps

/-- The amounts of a line add up, and what is taxed and the tax are no less than zero. -/
structure LineTotals.Sound (t : LineTotals) : Prop where
  adds : t.grossMinor - t.discountMinor + t.taxMinor = t.lineTotalMinor
  base : 0 ≤ t.grossMinor - t.discountMinor
  tax : 0 ≤ t.taxMinor

theorem Money.roundHalfUp_nonneg {n d v : Int} (hn : 0 ≤ n) (hd : 0 < d) (h : Money.roundHalfUp n d = .ok v) :
    0 ≤ v := by
  rw [Money.roundHalfUp_eq n hd.ne', checked_ok] at h
  obtain ⟨-, rfl⟩ := h
  refine le_roundAway ?_
  rw [Int.cast_zero]
  exact div_nonneg (by exact_mod_cast hn) (by exact_mod_cast hd.le)

theorem computeLine_ok {l : LineInput} {c : Currency} {t : LineTotals} (h : computeLine l c = .ok t) :
    t.grossMinor = l.quantity * l.unitPriceMinor ∧ t.discountMinor = l.discountMinor ∧
      Money.roundHalfUp ((l.quantity * l.unitPriceMinor - l.discountMinor) * l.taxRateBps) 10000 = .ok t.taxMinor ∧
      t.lineTotalMinor = l.quantity * l.unitPriceMinor - l.discountMinor + t.taxMinor := by
  simp only [computeLine, Money.checkedSub, Money.checkedAdd, Money.scaleHalfUp, ne_eq, not_true, if_false,
    OfNat.ofNat_ne_zero, bind_ok, checked_ok] at h
  obtain ⟨_, ⟨-, rfl⟩, _, ⟨_, ⟨-, rfl⟩, hbase⟩, _, ⟨tax, htax, hscaled⟩, _, htotal, hline⟩ := h
  cases hbase
  cases hscaled
  simp only [not_true, if_false, bind_ok, checked_ok] at htotal
  obtain ⟨_, ⟨-, rfl⟩, htotal⟩ := htotal
  cases htotal
  cases hline
  exact ⟨rfl, rfl, htax, rfl⟩

theorem LineInput.Fair.sound {l : LineInput} {c : Currency} {t : LineTotals} (hl : l.Fair)
    (h : computeLine l c = .ok t) : t.Sound := by
  obtain ⟨hgross, hdiscount, htax, htotal⟩ := computeLine_ok h
  have hbase : 0 ≤ l.quantity * l.unitPriceMinor - l.discountMinor := sub_nonneg.mpr hl.within
  refine ⟨?_, ?_, Money.roundHalfUp_nonneg (mul_nonneg hbase hl.rate) (by norm_num) htax⟩
  · rw [hgross, hdiscount, htotal]
  · rw [hgross, hdiscount]
    exact hbase

theorem mem_of_mapM_ok {ε α β : Type} {f : α → Except ε β} {l : List α} {r : List β} (h : l.mapM f = .ok r)
    {b : β} (hb : b ∈ r) : ∃ a ∈ l, f a = .ok b := by
  induction l generalizing r with
  | nil =>
    cases h
    cases hb
  | cons a l ih =>
    simp only [List.mapM_cons, bind_ok] at h
    obtain ⟨x, hx, xs, hxs, h⟩ := h
    cases h
    rcases List.mem_cons.mp hb with rfl | hb
    · exact ⟨a, List.mem_cons_self, hx⟩
    · obtain ⟨a', ha', hfa⟩ := ih hxs hb
      exact ⟨a', List.mem_cons_of_mem a ha', hfa⟩

structure DocumentTotals.Sound (d : DocumentTotals) : Prop where
  adds : d.subtotalMinor - d.discountMinor + d.taxMinor = d.totalMinor
  base : 0 ≤ d.subtotalMinor - d.discountMinor
  tax : 0 ≤ d.taxMinor
  fits : InI64 d.totalMinor

theorem DocumentTotals.add_ok {d e : DocumentTotals} {t : LineTotals} (h : d.add t = .ok e) :
    e = ⟨d.subtotalMinor + t.grossMinor, d.discountMinor + t.discountMinor, d.taxMinor + t.taxMinor,
      d.totalMinor + t.lineTotalMinor⟩ ∧ InI64 (d.totalMinor + t.lineTotalMinor) := by
  simp only [DocumentTotals.add, bind_ok, checked_ok] at h
  obtain ⟨_, ⟨-, rfl⟩, _, ⟨-, rfl⟩, _, ⟨-, rfl⟩, _, ⟨hfits, rfl⟩, h⟩ := h
  cases h
  exact ⟨rfl, hfits⟩

theorem DocumentTotals.Sound.add {d e : DocumentTotals} {t : LineTotals} (hd : d.Sound) (ht : t.Sound)
    (h : d.add t = .ok e) : e.Sound := by
  obtain ⟨rfl, hfits⟩ := DocumentTotals.add_ok h
  have hadds := hd.adds
  have hbase := hd.base
  have htax := hd.tax
  have hline := ht.adds
  have hlineBase := ht.base
  have hlineTax := ht.tax
  constructor
  · dsimp only
    omega
  · dsimp only
    omega
  · dsimp only
    omega
  · exact hfits

/-- And so do all of them. -/
theorem DocumentTotals.Sound.foldlM {d e : DocumentTotals} {ts : List LineTotals} (hd : d.Sound)
    (hts : ∀ t ∈ ts, t.Sound) (h : ts.foldlM DocumentTotals.add d = .ok e) : e.Sound := by
  induction ts generalizing d with
  | nil =>
    cases h
    exact hd
  | cons t ts ih =>
    obtain ⟨mid, ht, hrest⟩ := bind_ok.mp (by simpa only [List.foldlM_cons] using h)
    exact ih (hd.add (hts t List.mem_cons_self) ht) (fun x hx => hts x (List.mem_cons_of_mem t hx)) hrest

theorem sound_of_computed {lines : List LineInput} {currency : Currency} {computed : List LineTotals}
    {doc : DocumentTotals} (hlines : ∀ l ∈ lines, l.Fair)
    (h : computeDocumentTotals lines currency = .ok (computed, doc)) :
    (∀ t ∈ computed, t.Sound) ∧ doc.Sound := by
  obtain ⟨hcomputed, hdoc⟩ := computeDocumentTotals_ok.mp h
  have hsound : ∀ t ∈ computed, t.Sound := by
    intro t ht
    obtain ⟨l, hl, hline⟩ := mem_of_mapM_ok hcomputed ht
    exact (hlines l hl).sound hline
  exact ⟨hsound, DocumentTotals.Sound.foldlM (by constructor <;> decide) hsound hdoc⟩

theorem debits_nonneg {ls : List LedgerLine} (h : ∀ l ∈ ls, l.OneSided) : 0 ≤ debits ls := by
  refine List.sum_nonneg fun x hx => ?_
  obtain ⟨l, hl, rfl⟩ := List.mem_map.mp hx
  exact (LedgerLine.oneSided_iff.mp (h l hl)).2.1

theorem credits_nonneg {ls : List LedgerLine} (h : ∀ l ∈ ls, l.OneSided) : 0 ≤ credits ls := by
  refine List.sum_nonneg fun x hx => ?_
  obtain ⟨l, hl, rfl⟩ := List.mem_map.mp hx
  exact (LedgerLine.oneSided_iff.mp (h l hl)).2.2

/-- Lines of one side each that add up to the same pass, where that fits. -/
theorem passes_of_oneSided {ls : List LedgerLine} (hls : ∀ l ∈ ls, l.OneSided) (hequal : debits ls = credits ls)
    (hfits : debits ls ≤ i64Max) : Passes ls := by
  have hsplit : ∀ n, 0 ≤ debits (ls.take n) ∧ 0 ≤ credits (ls.take n) ∧ debits (ls.take n) ≤ debits ls ∧
      credits (ls.take n) ≤ credits ls := by
    intro n
    have htake : ∀ l ∈ ls.take n, l.OneSided := fun l hl => hls l (List.mem_of_mem_take hl)
    have hdrop : ∀ l ∈ ls.drop n, l.OneSided := fun l hl => hls l (List.mem_of_mem_drop hl)
    have hd := debits_append (ls.take n) (ls.drop n)
    have hc := credits_append (ls.take n) (ls.drop n)
    rw [List.take_append_drop] at hd hc
    have hdn := debits_nonneg hdrop
    have hcn := credits_nonneg hdrop
    exact ⟨debits_nonneg htake, credits_nonneg htake, by omega, by omega⟩
  refine ⟨fun n => ?_, fun n => ?_, fun l hl => (LedgerLine.oneSided_iff.mp (hls l hl)).1, hequal⟩
  · obtain ⟨hnonneg, -, hle, -⟩ := hsplit n
    exact inI64_of_nonneg hnonneg (hle.trans hfits)
  · obtain ⟨-, hnonneg, -, hle⟩ := hsplit n
    exact inI64_of_nonneg hnonneg (hle.trans (hequal ▸ hfits))

def debitOn (code : String) (ls : List LedgerLine) : Int :=
  (ls.map fun l => if l.accountCode = code then l.debitMinor else 0).sum

def creditOn (code : String) (ls : List LedgerLine) : Int :=
  (ls.map fun l => if l.accountCode = code then l.creditMinor else 0).sum

/-- Lines of a document: the total on receivables, against revenue and tax, each left out where it is zero. -/
def invoiceLines (net tax total : Int) : List LedgerLine :=
  [LedgerLine.debit codes.AR total (some "Accounts receivable")] ++
    (if net > 0 then [LedgerLine.credit codes.REVENUE net (some "Revenue")] else []) ++
    (if tax > 0 then [LedgerLine.credit codes.TAX_PAYABLE tax (some "Tax payable")] else [])

section
variable {net tax total : Int}

theorem invoiceLines_eq (htotal : 0 < total) :
    ([LedgerLine.debit codes.AR total (some "Accounts receivable"), LedgerLine.credit codes.REVENUE net
      (some "Revenue"),
      LedgerLine.credit codes.TAX_PAYABLE tax (some "Tax payable")].filter
        fun l => l.debitMinor > 0 ∨ l.creditMinor > 0) = invoiceLines net tax total := by
  simp only [invoiceLines, List.filter_cons, List.filter_nil, LedgerLine.debit, LedgerLine.credit]
  split_ifs <;> simp_all

theorem optional_sum (f : LedgerLine → Int) {n : Int} (hn : 0 ≤ n) {l : LedgerLine} (hzero : n = 0 → f l = 0) :
    ((if n > 0 then [l] else []).map f).sum = f l := by
  split_ifs with h
  · simp
  · rw [hzero (by omega)]
    rfl

theorem invoiceLines_sum (f : LedgerLine → Int) (hnet : 0 ≤ net) (htax : 0 ≤ tax)
    (hf : ∀ code memo, f (LedgerLine.credit code 0 memo) = 0) :
    ((invoiceLines net tax total).map f).sum = f (LedgerLine.debit codes.AR total (some "Accounts receivable")) +
      f (LedgerLine.credit codes.REVENUE net (some "Revenue")) +
      f (LedgerLine.credit codes.TAX_PAYABLE tax (some "Tax payable")) := by
  unfold invoiceLines
  rw [List.map_append, List.map_append, List.sum_append, List.sum_append,
    optional_sum f hnet (by rintro rfl; exact hf _ _), optional_sum f htax (by rintro rfl; exact hf _ _)]
  simp

def creditNoteLines (net tax total : Int) : List LedgerLine :=
  (if net > 0 then [LedgerLine.debit codes.REVENUE net (some "Revenue reversal")] else []) ++
    (if tax > 0 then [LedgerLine.debit codes.TAX_PAYABLE tax (some "Tax reversal")] else []) ++
    [LedgerLine.credit codes.AR total (some "AR credit")]

theorem creditNoteLines_sum (f : LedgerLine → Int) (hnet : 0 ≤ net) (htax : 0 ≤ tax)
    (hf : ∀ code memo, f (LedgerLine.debit code 0 memo) = 0) :
    ((creditNoteLines net tax total).map f).sum = f (LedgerLine.debit codes.REVENUE net (some "Revenue reversal")) +
      f (LedgerLine.debit codes.TAX_PAYABLE tax (some "Tax reversal")) +
      f (LedgerLine.credit codes.AR total (some "AR credit")) := by
  unfold creditNoteLines
  rw [List.map_append, List.map_append, List.sum_append, List.sum_append,
    optional_sum f hnet (by rintro rfl; exact hf _ _), optional_sum f htax (by rintro rfl; exact hf _ _)]
  simp

section
variable (hnet : 0 ≤ net) (htax : 0 ≤ tax) (code : String)
include hnet htax

theorem debitOn_invoiceLines : debitOn code (invoiceLines net tax total) = if codes.AR = code then total else 0 := by
  have h : debitOn code (invoiceLines net tax total) = (if codes.AR = code then total else 0) +
      (if codes.REVENUE = code then 0 else 0) + if codes.TAX_PAYABLE = code then 0 else 0 :=
    invoiceLines_sum (fun l => if l.accountCode = code then l.debitMinor else 0) hnet htax fun _ _ => ite_self _
  simpa using h

theorem creditOn_invoiceLines : creditOn code (invoiceLines net tax total) =
    (if codes.REVENUE = code then net else 0) + if codes.TAX_PAYABLE = code then tax else 0 := by
  have h : creditOn code (invoiceLines net tax total) = (if codes.AR = code then 0 else 0) +
      (if codes.REVENUE = code then net else 0) + if codes.TAX_PAYABLE = code then tax else 0 :=
    invoiceLines_sum (fun l => if l.accountCode = code then l.creditMinor else 0) hnet htax fun _ _ => ite_self _
  simpa using h

theorem creditOn_creditNoteLines :
    creditOn code (creditNoteLines net tax total) = if codes.AR = code then total else 0 := by
  have h : creditOn code (creditNoteLines net tax total) = (if codes.REVENUE = code then 0 else 0) +
      (if codes.TAX_PAYABLE = code then 0 else 0) + if codes.AR = code then total else 0 :=
    creditNoteLines_sum (fun l => if l.accountCode = code then l.creditMinor else 0) hnet htax fun _ _ => ite_self _
  simpa using h

theorem debitOn_creditNoteLines : debitOn code (creditNoteLines net tax total) =
    (if codes.REVENUE = code then net else 0) + if codes.TAX_PAYABLE = code then tax else 0 := by
  have h : debitOn code (creditNoteLines net tax total) = (if codes.REVENUE = code then net else 0) +
      (if codes.TAX_PAYABLE = code then tax else 0) + if codes.AR = code then 0 else 0 :=
    creditNoteLines_sum (fun l => if l.accountCode = code then l.debitMinor else 0) hnet htax fun _ _ => ite_self _
  simpa using h

end

variable [Formats]

theorem invoiceIssueEntry_posts (id : Uuid) (currency : Currency) (hnet : 0 ≤ net) (htax : 0 ≤ tax)
    (htotal : 0 < total) (hsum : net + tax = total) (hfits : total ≤ i64Max) :
    ∃ j, invoiceIssueEntry id currency net tax total = .ok j ∧ j.lines = invoiceLines net tax total := by
  have hlines := @invoiceLines_eq net tax total htotal
  refine ⟨_, JournalDraft.balanced_ok.mpr ⟨JournalDraft.assertBalanced_iff.mpr ?_, rfl⟩, hlines⟩
  have hdebits : debits (invoiceLines net tax total) = total + 0 + 0 :=
    invoiceLines_sum (·.debitMinor) hnet htax fun _ _ => rfl
  have hcredits : credits (invoiceLines net tax total) = 0 + net + tax :=
    invoiceLines_sum (·.creditMinor) hnet htax fun _ _ => rfl
  dsimp only
  rw [hlines]
  refine passes_of_oneSided (fun l hl => ?_) (by omega) (by omega)
  rcases List.mem_append.mp hl with hl | hl
  · rcases List.mem_append.mp hl with hl | hl
    · exact List.mem_singleton.mp hl ▸ Or.inl ⟨htotal, rfl⟩
    · obtain ⟨hpos, rfl⟩ := mem_optional.mp hl
      exact Or.inr ⟨hpos, rfl⟩
  · obtain ⟨hpos, rfl⟩ := mem_optional.mp hl
    exact Or.inr ⟨hpos, rfl⟩

theorem creditNoteEntry_posts (id : Uuid) (currency : Currency) (hnet : 0 ≤ net) (htax : 0 ≤ tax)
    (htotal : 0 < total) (hsum : net + tax = total) (hfits : total ≤ i64Max) :
    ∃ j, creditNoteEntry id currency net tax total = .ok j ∧ j.lines = creditNoteLines net tax total := by
  refine ⟨_, JournalDraft.balanced_ok.mpr ⟨JournalDraft.assertBalanced_iff.mpr ?_, rfl⟩, rfl⟩
  have hdebits : debits (creditNoteLines net tax total) = net + tax + 0 :=
    creditNoteLines_sum (·.debitMinor) hnet htax fun _ _ => rfl
  have hcredits : credits (creditNoteLines net tax total) = 0 + 0 + total :=
    creditNoteLines_sum (·.creditMinor) hnet htax fun _ _ => rfl
  change Passes (creditNoteLines net tax total)
  refine passes_of_oneSided (fun l hl => ?_) (by omega) (by omega)
  rcases List.mem_append.mp hl with hl | hl
  · rcases List.mem_append.mp hl with hl | hl
    · obtain ⟨hpos, rfl⟩ := mem_optional.mp hl
      exact Or.inl ⟨hpos, rfl⟩
    · obtain ⟨hpos, rfl⟩ := mem_optional.mp hl
      exact Or.inl ⟨hpos, rfl⟩
  · exact List.mem_singleton.mp hl ▸ Or.inr ⟨htotal, rfl⟩

/-- The totals of a document add up, and where there is anything to pay, an invoice and a credit note over
it post it: receivables by the total, revenue by what is not tax, and tax payable by the tax. -/
theorem documents_post (lines : List LineInput) (currency : Currency) (computed : List LineTotals)
    (doc : DocumentTotals) (hlines : ∀ l ∈ lines, l.Fair)
    (h : computeDocumentTotals lines currency = .ok (computed, doc)) :
    doc.subtotalMinor - doc.discountMinor + doc.taxMinor = doc.totalMinor ∧
    (∀ t ∈ computed, t.grossMinor - t.discountMinor + t.taxMinor = t.lineTotalMinor) ∧
    (0 < doc.totalMinor → ∀ id c,
      (∃ j, invoiceIssueEntry id c (doc.totalMinor - doc.taxMinor) doc.taxMinor doc.totalMinor = .ok j ∧
        debitOn codes.AR j.lines = doc.totalMinor ∧ creditOn codes.AR j.lines = 0 ∧
        creditOn codes.REVENUE j.lines = doc.totalMinor - doc.taxMinor ∧ debitOn codes.REVENUE j.lines = 0 ∧
        creditOn codes.TAX_PAYABLE j.lines = doc.taxMinor ∧ debitOn codes.TAX_PAYABLE j.lines = 0) ∧
      ∃ j, creditNoteEntry id c (doc.totalMinor - doc.taxMinor) doc.taxMinor doc.totalMinor = .ok j ∧
        creditOn codes.AR j.lines = doc.totalMinor ∧ debitOn codes.AR j.lines = 0 ∧
        debitOn codes.REVENUE j.lines = doc.totalMinor - doc.taxMinor ∧ creditOn codes.REVENUE j.lines = 0 ∧
        debitOn codes.TAX_PAYABLE j.lines = doc.taxMinor ∧ creditOn codes.TAX_PAYABLE j.lines = 0) := by
  obtain ⟨hcomputed, hdoc⟩ := sound_of_computed hlines h
  refine ⟨hdoc.adds, fun t ht => (hcomputed t ht).adds, fun htotal id c => ?_⟩
  have hadds := hdoc.adds
  have hbase := hdoc.base
  have hnet : 0 ≤ doc.totalMinor - doc.taxMinor := by omega
  have hfits := (inI64_iff.mp hdoc.fits).2
  obtain ⟨i, hi, hilines⟩ := invoiceIssueEntry_posts id c hnet hdoc.tax htotal (by omega) hfits
  obtain ⟨n, hn, hnlines⟩ := creditNoteEntry_posts id c hnet hdoc.tax htotal (by omega) hfits
  have har : codes.AR ≠ codes.REVENUE := by decide
  have hart : codes.AR ≠ codes.TAX_PAYABLE := by decide
  have hrev : codes.REVENUE ≠ codes.TAX_PAYABLE := by decide
  refine ⟨⟨i, hi, ?_⟩, n, hn, ?_⟩
  · rw [hilines]
    simp [debitOn_invoiceLines hnet hdoc.tax, creditOn_invoiceLines hnet hdoc.tax, har, hart, hrev, har.symm,
      hart.symm, hrev.symm]
  · rw [hnlines]
    simp [creditOn_creditNoteLines hnet hdoc.tax, debitOn_creditNoteLines hnet hdoc.tax, har, hart, hrev, har.symm,
      hart.symm, hrev.symm]

end

theorem documents_post_one_line :
    letI := canonicalFormats
    ∃ j, invoiceIssueEntry 7 .USD 101 6 107 = .ok j ∧ debitOn codes.AR j.lines = 107 := by
  let := canonicalFormats
  have hfair : ∀ l ∈ [(⟨1, 101, 0, 550⟩ : LineInput)], l.Fair := by
    intro l hl
    obtain rfl := List.mem_singleton.mp hl
    constructor <;> decide
  obtain ⟨-, -, hpost⟩ := documents_post [⟨1, 101, 0, 550⟩] .USD [⟨101, 0, 6, 107⟩]
    ⟨101, 0, 6, 107⟩ hfair (by decide)
  obtain ⟨⟨j, hj, har, -⟩, -⟩ := hpost (by decide) 7 .USD
  exact ⟨j, hj, har⟩

end Noxara.Finance
