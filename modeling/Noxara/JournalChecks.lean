import Noxara.ExpenseDecisions
import Mathlib.Algebra.Order.BigOperators.Group.List

/-! What the check of a journal draft accepts, and which builders only give lines that the journal takes. -/
namespace Noxara.Finance

/-- Dr Wages, Cr Deductions Payable, Cr Net Pay Clearing. -/
def payrollEntry [Formats] (runId : Uuid) (currency : Currency) (grossMinor deductionsMinor netMinor : Int) :
    Except MoneyError JournalDraft := do
  let rest ← checked (grossMinor - deductionsMinor)
  if rest ≠ netMinor then .error .overflow
  else
    JournalDraft.balanced
      { memo := s!"Payroll run {Formats.uuidDisplay runId}"
        sourceType := .payroll
        sourceId := runId
        currency
        lines := [LedgerLine.debit codes.WAGES_EXPENSE grossMinor (some "Wages expense")] ++
          (if deductionsMinor > 0 then
            [LedgerLine.credit codes.PAYROLL_DEDUCTIONS deductionsMinor (some "Payroll deductions payable")]
          else []) ++
          (if netMinor > 0 then
            [LedgerLine.credit codes.NET_PAY_CLEARING netMinor (some "Net pay clearing")] else []) }

def debits (ls : List LedgerLine) : Int := (ls.map (·.debitMinor)).sum

def credits (ls : List LedgerLine) : Int := (ls.map (·.creditMinor)).sum

@[simp] theorem debits_nil : debits [] = 0 := rfl

@[simp] theorem credits_nil : credits [] = 0 := rfl

@[simp] theorem debits_cons (l : LedgerLine) (ls : List LedgerLine) : debits (l :: ls) = l.debitMinor + debits ls :=
  List.sum_cons

@[simp] theorem credits_cons (l : LedgerLine) (ls : List LedgerLine) :
    credits (l :: ls) = l.creditMinor + credits ls := List.sum_cons

@[simp] theorem debits_append (ls ms : List LedgerLine) : debits (ls ++ ms) = debits ls + debits ms := by
  simp [debits]

@[simp] theorem credits_append (ls ms : List LedgerLine) : credits (ls ++ ms) = credits ls + credits ms := by
  simp [credits]

/-- Not both sides positive, and not both zero. -/
def LedgerLine.Sided (l : LedgerLine) : Prop :=
  ¬((l.debitMinor > 0 ∧ l.creditMinor > 0) ∨ (l.debitMinor = 0 ∧ l.creditMinor = 0))

instance (l : LedgerLine) : Decidable l.Sided := inferInstanceAs (Decidable (¬_))

theorem LedgerLine.oneSided_iff {l : LedgerLine} :
    l.OneSided ↔ l.Sided ∧ 0 ≤ l.debitMinor ∧ 0 ≤ l.creditMinor := by
  unfold OneSided Sided
  omega

/-- The running sums fit, no line is mixed or empty, and the sides add up to the same. -/
structure Passes (ls : List LedgerLine) : Prop where
  debitsFit : ∀ n, InI64 (debits (ls.take n))
  creditsFit : ∀ n, InI64 (credits (ls.take n))
  sided : ∀ l ∈ ls, l.Sided
  equal : debits ls = credits ls

theorem addLine_iff {acc acc' : Int × Int} {l : LedgerLine} : addLine acc l = .ok acc' ↔
    InI64 (acc.1 + l.debitMinor) ∧ InI64 (acc.2 + l.creditMinor) ∧ l.Sided ∧
      acc' = (acc.1 + l.debitMinor, acc.2 + l.creditMinor) := by
  simp only [addLine, bind_ok, checked_ok, LedgerLine.Sided]
  constructor
  · rintro ⟨_, ⟨hd, rfl⟩, _, ⟨hc, rfl⟩, h⟩
    split_ifs at h with hsided
    exact ⟨hd, hc, hsided, (Except.ok.inj h).symm⟩
  · rintro ⟨hd, hc, hsided, rfl⟩
    exact ⟨_, ⟨hd, rfl⟩, _, ⟨hc, rfl⟩, if_neg hsided⟩

/-- The loop stops at the first running sum that does not fit and at the first line that is not sided. -/
theorem foldlM_addLine_iff {ls : List LedgerLine} {acc acc' : Int × Int} (hacc : InI64 acc.1 ∧ InI64 acc.2) :
    ls.foldlM addLine acc = .ok acc' ↔
      (∀ n, InI64 (acc.1 + debits (ls.take n)) ∧ InI64 (acc.2 + credits (ls.take n))) ∧
        (∀ l ∈ ls, l.Sided) ∧ acc' = (acc.1 + debits ls, acc.2 + credits ls) := by
  induction ls generalizing acc with
  | nil =>
    have hpure : (pure acc : Except MoneyError (Int × Int)) = .ok acc' ↔ acc' = acc :=
      ⟨fun h => (Except.ok.inj h).symm, fun h => h ▸ rfl⟩
    simp [hpure, hacc]
  | cons l ls ih =>
    simp only [List.foldlM_cons, bind_ok, addLine_iff, List.forall_mem_cons]
    constructor
    · rintro ⟨_, ⟨hd, hc, hl, rfl⟩, hrest⟩
      obtain ⟨hfit, hsided, rfl⟩ := (ih ⟨hd, hc⟩).mp hrest
      refine ⟨fun n => ?_, ⟨hl, hsided⟩, by simp [add_assoc]⟩
      cases n with
      | zero => simpa using hacc
      | succ n => simpa [add_assoc] using hfit n
    · rintro ⟨hfit, ⟨hl, hsided⟩, rfl⟩
      have hone := hfit 1
      simp only [List.take_succ_cons, List.take_zero, debits_cons, credits_cons, debits_nil, credits_nil,
        add_zero] at hone
      refine ⟨_, ⟨hone.1, hone.2, hl, rfl⟩, (ih hone).mpr ⟨fun n => ?_, hsided, by simp [add_assoc]⟩⟩
      simpa [add_assoc] using hfit (n + 1)

theorem JournalDraft.assertBalanced_iff {d : JournalDraft} : d.assertBalanced = .ok () ↔ Passes d.lines := by
  have hzero : InI64 ((0 : Int), (0 : Int)).1 ∧ InI64 ((0 : Int), (0 : Int)).2 := by decide
  simp only [assertBalanced, bind_ok, foldlM_addLine_iff hzero, zero_add]
  constructor
  · rintro ⟨_, ⟨hfit, hsided, rfl⟩, h⟩
    split_ifs at h with hne
    exact ⟨fun n => (hfit n).1, fun n => (hfit n).2, hsided, not_not.mp hne⟩
  · intro h
    exact ⟨_, ⟨fun n => ⟨h.debitsFit n, h.creditsFit n⟩, h.sided, rfl⟩, if_neg (not_not.mpr h.equal)⟩

theorem JournalDraft.oneSided_iff {d : JournalDraft} (h : d.assertBalanced = .ok ()) :
    (∀ l ∈ d.lines, l.OneSided) ↔ ∀ l ∈ d.lines, 0 ≤ l.debitMinor ∧ 0 ≤ l.creditMinor := by
  have hpasses := assertBalanced_iff.mp h
  refine forall₂_congr fun l hl => ?_
  rw [LedgerLine.oneSided_iff]
  exact ⟨fun hl' => hl'.2, fun hl' => ⟨hpasses.sided l hl, hl'⟩⟩

theorem sums_of_sided {f g : LedgerLine → Int} {ls : List LedgerLine} (h : ∀ l ∈ ls, 0 < f l ∧ g l = 0) :
    0 ≤ (ls.map f).sum ∧ (ls.map g).sum = 0 := by
  constructor
  · refine List.sum_nonneg fun x hx => ?_
    obtain ⟨l, hl, rfl⟩ := List.mem_map.mp hx
    exact (h l hl).1.le
  · refine List.sum_eq_zero fun x hx => ?_
    obtain ⟨l, hl, rfl⟩ := List.mem_map.mp hx
    exact (h l hl).2

/-- A debit against positive credits is positive where the two sides agree. -/
theorem oneSided_of_debit {d : JournalDraft} {code : String} {amount : Int} {memo : Option String}
    {ls : List LedgerLine} (hlines : d.lines = [LedgerLine.debit code amount memo] ++ ls)
    (hls : ∀ l ∈ ls, 0 < l.creditMinor ∧ l.debitMinor = 0) (h : d.assertBalanced = .ok ()) :
    ∀ l ∈ d.lines, l.OneSided := by
  rw [JournalDraft.oneSided_iff h]
  have hpasses := JournalDraft.assertBalanced_iff.mp h
  obtain ⟨hcredits, hdebits⟩ : 0 ≤ credits ls ∧ debits ls = 0 := sums_of_sided hls
  have hequal := hpasses.equal
  rw [hlines] at hequal ⊢
  simp only [debits_append, credits_append, debits_cons, credits_cons, debits_nil, credits_nil, LedgerLine.debit,
    hdebits] at hequal
  intro l hl
  rcases List.mem_append.mp hl with hl | hl
  · obtain rfl := List.mem_singleton.mp hl
    exact ⟨by simp only [LedgerLine.debit]; omega, le_rfl⟩
  · obtain ⟨hpos, hzero⟩ := hls l hl
    omega

theorem oneSided_of_credit {d : JournalDraft} {code : String} {amount : Int} {memo : Option String}
    {ls : List LedgerLine} (hlines : d.lines = ls ++ [LedgerLine.credit code amount memo])
    (hls : ∀ l ∈ ls, 0 < l.debitMinor ∧ l.creditMinor = 0) (h : d.assertBalanced = .ok ()) :
    ∀ l ∈ d.lines, l.OneSided := by
  rw [JournalDraft.oneSided_iff h]
  have hpasses := JournalDraft.assertBalanced_iff.mp h
  obtain ⟨hdebits, hcredits⟩ : 0 ≤ debits ls ∧ credits ls = 0 := sums_of_sided hls
  have hequal := hpasses.equal
  rw [hlines] at hequal ⊢
  simp only [debits_append, credits_append, debits_cons, credits_cons, debits_nil, credits_nil, LedgerLine.credit,
    hcredits] at hequal
  intro l hl
  rcases List.mem_append.mp hl with hl | hl
  · obtain ⟨hpos, hzero⟩ := hls l hl
    omega
  · obtain rfl := List.mem_singleton.mp hl
    exact ⟨le_rfl, by simp only [LedgerLine.credit]; omega⟩

theorem mem_optional {c : Prop} [Decidable c] {l x : LedgerLine} : x ∈ (if c then [l] else []) ↔ c ∧ x = l := by
  split_ifs with h <;> simp [h]

section
variable [Formats] {id : Uuid} {currency : Currency} {net tax total : Int} {j : JournalDraft}

theorem invoiceIssueEntry_oneSided (h : invoiceIssueEntry id currency net tax total = .ok j) :
    ∀ l ∈ j.lines, l.OneSided := by
  obtain ⟨hbalanced, rfl⟩ := JournalDraft.balanced_ok.mp h
  intro l hl
  obtain ⟨hmem, hpos⟩ := List.mem_filter.mp hl
  have hpos := of_decide_eq_true hpos
  simp only [List.mem_cons, List.not_mem_nil, or_false] at hmem
  unfold LedgerLine.OneSided
  rcases hmem with rfl | rfl | rfl <;>
    dsimp only [LedgerLine.debit, LedgerLine.credit] at hpos ⊢ <;> omega

theorem paymentEntry_oneSided {allocated unapplied : Int} (h : paymentEntry id currency allocated unapplied = .ok j) :
    ∀ l ∈ j.lines, l.OneSided := by
  simp only [paymentEntry, bind_ok] at h
  obtain ⟨cash, -, h⟩ := h
  obtain ⟨hbalanced, rfl⟩ := JournalDraft.balanced_ok.mp h
  refine oneSided_of_debit (List.append_assoc _ _ _) (fun l hl => ?_) hbalanced
  rcases List.mem_append.mp hl with hl | hl <;> obtain ⟨hpos, rfl⟩ := mem_optional.mp hl
  · exact ⟨hpos, rfl⟩
  · exact ⟨hpos, rfl⟩

theorem payrollEntry_oneSided {gross deductions : Int} (h : payrollEntry id currency gross deductions net = .ok j) :
    ∀ l ∈ j.lines, l.OneSided := by
  simp only [payrollEntry, bind_ok] at h
  obtain ⟨rest, -, h⟩ := h
  split at h
  · cases h
  obtain ⟨hbalanced, rfl⟩ := JournalDraft.balanced_ok.mp h
  refine oneSided_of_debit (List.append_assoc _ _ _) (fun l hl => ?_) hbalanced
  rcases List.mem_append.mp hl with hl | hl <;> obtain ⟨hpos, rfl⟩ := mem_optional.mp hl
  · exact ⟨hpos, rfl⟩
  · exact ⟨hpos, rfl⟩

theorem creditNoteEntry_oneSided (h : creditNoteEntry id currency net tax total = .ok j) :
    ∀ l ∈ j.lines, l.OneSided := by
  obtain ⟨hbalanced, rfl⟩ := JournalDraft.balanced_ok.mp h
  refine oneSided_of_credit rfl (fun l hl => ?_) hbalanced
  rcases List.mem_append.mp hl with hl | hl <;> obtain ⟨hpos, rfl⟩ := mem_optional.mp hl
  · exact ⟨hpos, rfl⟩
  · exact ⟨hpos, rfl⟩

/-- An expense has its amount on both sides, whatever its sign. -/
theorem expenseEntry_oneSided_iff {amount : Int} (hamount : InI64 amount) :
    (∀ j, expenseEntry id currency amount = .ok j → ∀ l ∈ j.lines, l.OneSided) ↔ 0 ≤ amount := by
  constructor
  · intro h
    by_contra hneg
    have hbalanced : Passes [LedgerLine.debit codes.EXPENSE amount (some "Expense"),
        LedgerLine.credit codes.CASH amount (some "Cash")] := by
      have hzero : InI64 0 := by decide
      refine ⟨fun n => ?_, fun n => ?_, fun l hl => ?_, ?_⟩
      · rcases n with _ | _ | n <;> simp [LedgerLine.debit, LedgerLine.credit, hamount, hzero]
      · rcases n with _ | _ | n <;> simp [LedgerLine.debit, LedgerLine.credit, hamount, hzero]
      · simp only [List.mem_cons, List.not_mem_nil, or_false] at hl
        unfold LedgerLine.Sided
        rcases hl with rfl | rfl <;> dsimp only [LedgerLine.debit, LedgerLine.credit] <;> omega
      · simp [LedgerLine.debit, LedgerLine.credit]
    have hlines := h _ (JournalDraft.balanced_ok.mpr ⟨JournalDraft.assertBalanced_iff.mpr hbalanced, rfl⟩)
    have hdebit := hlines _ List.mem_cons_self
    unfold LedgerLine.OneSided at hdebit
    dsimp only [LedgerLine.debit] at hdebit
    omega
  · intro hnonneg j hj
    obtain ⟨hbalanced, rfl⟩ := JournalDraft.balanced_ok.mp hj
    rw [JournalDraft.oneSided_iff hbalanced]
    intro l hl
    simp only [List.mem_cons, List.not_mem_nil, or_false] at hl
    rcases hl with rfl | rfl
    · exact ⟨hnonneg, le_rfl⟩
    · exact ⟨le_rfl, hnonneg⟩

end

/-- What is asked of the check: what it accepts has one positive side on each line, and equal sides. -/
def JournalDraft.CheckedExactly (d : JournalDraft) : Prop :=
  d.assertBalanced = .ok () → (∀ l ∈ d.lines, l.OneSided) ∧ debits d.lines = credits d.lines

/-- Negative sides pass the check. All builders but that of expenses leave them out. -/
theorem journal_check_exact_iff [Formats] :
    (∀ d : JournalDraft, d.CheckedExactly ↔
      (∀ l ∈ d.lines, 0 ≤ l.debitMinor ∧ 0 ≤ l.creditMinor) ∨ ¬Passes d.lines) ∧
    (∀ id currency net tax total j, invoiceIssueEntry id currency net tax total = .ok j →
      ∀ l ∈ j.lines, l.OneSided) ∧
    (∀ id currency allocated unapplied j, paymentEntry id currency allocated unapplied = .ok j →
      ∀ l ∈ j.lines, l.OneSided) ∧
    (∀ id currency net tax total j, creditNoteEntry id currency net tax total = .ok j →
      ∀ l ∈ j.lines, l.OneSided) ∧
    (∀ id currency gross deductions net j, payrollEntry id currency gross deductions net = .ok j →
      ∀ l ∈ j.lines, l.OneSided) ∧
    ∀ id currency amount, InI64 amount →
      ((∀ j, expenseEntry id currency amount = .ok j → ∀ l ∈ j.lines, l.OneSided) ↔ 0 ≤ amount) := by
  refine ⟨fun d => ?_, fun _ _ _ _ _ _ => invoiceIssueEntry_oneSided, fun _ _ _ _ _ => paymentEntry_oneSided,
    fun _ _ _ _ _ _ => creditNoteEntry_oneSided, fun _ _ _ _ _ _ => payrollEntry_oneSided,
    fun _ _ _ => expenseEntry_oneSided_iff⟩
  constructor
  · intro h
    by_cases hpasses : Passes d.lines
    · have hbalanced := JournalDraft.assertBalanced_iff.mpr hpasses
      exact Or.inl ((JournalDraft.oneSided_iff hbalanced).mp (h hbalanced).1)
    · exact Or.inr hpasses
  · rintro (hnonneg | hpasses) hbalanced
    · exact ⟨(JournalDraft.oneSided_iff hbalanced).mpr hnonneg,
        (JournalDraft.assertBalanced_iff.mp hbalanced).equal⟩
    · exact absurd (JournalDraft.assertBalanced_iff.mp hbalanced) hpasses

theorem journal_check_exact_expense :
    letI := canonicalFormats
    ∀ j, expenseEntry 7 .USD 250 = .ok j → ∀ l ∈ j.lines, l.OneSided := by
  let := canonicalFormats
  exact (journal_check_exact_iff.2.2.2.2.2 7 .USD 250 (by decide)).mpr (by decide)

/-- An expense of minus five is an entry with a negative debit and a negative credit. -/
theorem journal_check_takes_negative :
    letI := canonicalFormats
    ∃ j, expenseEntry 7 .USD (-5) = .ok j ∧ ¬j.CheckedExactly ∧ ¬∀ l ∈ j.lines, l.OneSided := by
  let := canonicalFormats
  have hbalanced : ∀ memo, JournalDraft.assertBalanced ⟨memo, .expense, 7, .USD,
      [LedgerLine.debit codes.EXPENSE (-5) (some "Expense"), LedgerLine.credit codes.CASH (-5) (some "Cash")],
      none, none, none, none⟩ = .ok () := fun _ => by rfl
  have hsides : ¬∀ l ∈ [LedgerLine.debit codes.EXPENSE (-5) (some "Expense"),
      LedgerLine.credit codes.CASH (-5) (some "Cash")], l.OneSided := by decide
  exact ⟨_, JournalDraft.balanced_ok.mpr ⟨hbalanced _, rfl⟩, fun h => hsides (h (hbalanced _)).1, hsides⟩

end Noxara.Finance
