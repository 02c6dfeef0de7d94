import Noxara.FinanceStatements
import Noxara.PayrollHandlers

/-! The totals of a payslip and its lines. What a line does to the totals is decided by how its component is
calculated; the kind that the line shows decides it only for a fixed amount. -/
namespace Noxara.Payroll
open Transaction
open Finance (Uuid AppError validation trim Currency InI64 i64Min i64Max saturateI64_of_inI64 wrapI64_of_inI64)

structure CreatePayrollComponentRequest where
  code : String
  label : String
  lineKind : String
  calcMethod : String
  configJson : Option Json
  currency : Option String
  sortOrder : Option Int

def LineKind.parse : String → Option LineKind
  | "earning" => some .earning
  | "deduction" => some .deduction
  | _ => none

def CalcMethod.parse : String → Option CalcMethod
  | "fixed_from_comp" => some .fixedFromComp
  | "rate_x_hours" => some .rateXHours
  | "unpaid_leave_proration" => some .unpaidLeaveProration
  | "percent_of_gross" => some .percentOfGross
  | "fixed_amount" => some .fixedAmount
  | _ => none

def componentCurrency (currency : Option String) : Except AppError (Option Currency) :=
  match currency.filter fun s => trim s ≠ "" with
  | none => .ok none
  | some s => ((Currency.new s).map some).mapError fun _ => validation "invalid currency"

/-- The row of a component, and its currency, which no calculation reads. -/
def createComponent (body : CreatePayrollComponentRequest) : Except AppError (ComponentRow × Option Currency) := do
  if trim body.code = "" ∨ trim body.label = "" then throw (validation "code and label are required")
  let some lineKind := LineKind.parse body.lineKind
    | throw (validation "line_kind must be one of [\"earning\", \"deduction\"]")
  let some calcMethod := CalcMethod.parse body.calcMethod
    | throw (validation "calc_method must be one of [\"fixed_from_comp\", \"rate_x_hours\", \"unpaid_leave_proration\", \"percent_of_gross\", \"fixed_amount\"]")
  let currency ← componentCurrency body.currency
  return (⟨trim body.code, trim body.label, lineKind, calcMethod, body.configJson.getD (.object []),
    body.sortOrder.getD 100⟩, currency)

/-- Components that were accepted, of which no two have a code. -/
structure Catalogue where
  components : List ComponentRow
  accepted : ∀ c ∈ components, ∃ body currency, createComponent body = .ok (c, currency)
  codes : (components.map (·.code)).Nodup

/-- What an amount of a component is added to, or taken from. -/
inductive Side
  | gross | lessGross | deductions
  deriving DecidableEq

def ComponentRow.side (c : ComponentRow) : Side :=
  match c.calcMethod with
  | .fixedFromComp | .rateXHours => .gross
  | .unpaidLeaveProration => .lessGross
  | .percentOfGross => .deductions
  | .fixedAmount => if c.lineKind = .earning then .gross else .deductions

def PayslipLineRow.On (components : List ComponentRow) (s : Side) (l : PayslipLineRow) : Prop :=
  ∃ c ∈ components, c.code = l.componentCode ∧ c.side = s

instance (components : List ComponentRow) (s : Side) (l : PayslipLineRow) : Decidable (l.On components s) :=
  inferInstanceAs (Decidable (∃ c ∈ components, c.code = l.componentCode ∧ c.side = s))

def sumOn (components : List ComponentRow) (s : Side) (lines : List PayslipLineRow) : Int :=
  ((lines.filter fun l => l.On components s).map (·.amountMinor)).sum

def Db.linesOfPayslip (id : Uuid) (s : Db) : List PayslipLineRow := s.lines.filter (·.payslipId = id)

/-- No sum on the way leaves 64 bits. -/
def SumsInWords (components : List ComponentRow) (lines : List PayslipLineRow) : Prop :=
  ∀ n, InI64 (sumOn components .gross (lines.take n) - sumOn components .lessGross (lines.take n)) ∧
    InI64 (sumOn components .deductions (lines.take n))

structure TotalsAgree (components : List ComponentRow) (p : PayslipRow) (lines : List PayslipLineRow) : Prop where
  gross : p.grossMinor = sumOn components .gross lines - sumOn components .lessGross lines
  deductions : p.deductionsMinor = sumOn components .deductions lines
  net : p.netMinor = p.grossMinor - p.deductionsMinor

/-- The sum of the lines of a kind that are not of unpaid leave. -/
def sumOfKind (components : List ComponentRow) (kind : LineKind) (lines : List PayslipLineRow) : Int :=
  ((lines.filter fun l => l.lineKind = kind ∧ ¬l.On components .lessGross).map (·.amountMinor)).sum

/-- The amount of a component that a payslip has a line of. -/
abbrev Charge := ComponentRow × Int

def Charge.draft (x : Charge) : LineDraft := ⟨x.1.lineKind, x.1.code, x.1.label, x.2, x.1.sortOrder⟩

def chargedOn (s : Side) (charges : List Charge) : Int := ((charges.filter fun x => x.1.side = s).map (·.2)).sum

def chargedGross (charges : List Charge) : Int := chargedOn .gross charges - chargedOn .lessGross charges

theorem chargedOn_concat (s : Side) (charges : List Charge) (x : Charge) :
    chargedOn s (charges ++ [x]) = chargedOn s charges + if x.1.side = s then x.2 else 0 := by
  unfold chargedOn
  by_cases h : x.1.side = s <;> simp [h]

def ChargesInWords (charges : List Charge) : Prop :=
  ∀ n, InI64 (chargedGross (charges.take n)) ∧ InI64 (chargedOn .deductions (charges.take n))

theorem ChargesInWords.of_append {charges more : List Charge} (h : ChargesInWords (charges ++ more)) :
    ChargesInWords charges := by
  intro n
  rcases Nat.le_total n charges.length with hle | hle
  · have htake : (charges ++ more).take n = charges.take n := List.take_append_of_le_length hle
    rw [← htake]
    exact h n
  · have hall := h charges.length
    rw [List.take_left] at hall
    rw [List.take_of_length_le hle]
    exact hall

theorem ChargesInWords.whole {charges : List Charge} (h : ChargesInWords charges) :
    InI64 (chargedGross charges) ∧ InI64 (chargedOn .deductions charges) := by
  have hall := h charges.length
  rwa [List.take_length] at hall

/-- The payslip has the lines of the charges, and their sums where these are in range. -/
def SlipDraft.Charges (d : SlipDraft) (charges : List Charge) : Prop :=
  d.lines = charges.map Charge.draft ∧
    (ChargesInWords charges → d.grossMinor = chargedGross charges ∧
      d.deductionsMinor = chargedOn .deductions charges)

variable {d : SlipDraft} {charges : List Charge} {c : ComponentRow}

theorem chargedGross_concat (charges : List Charge) (x : Charge) :
    chargedGross (charges ++ [x]) =
      chargedGross charges + (if x.1.side = .gross then x.2 else 0) - if x.1.side = .lessGross then x.2 else 0 := by
  unfold chargedGross
  rw [chargedOn_concat, chargedOn_concat]
  omega

/-- A charge goes to the side of its component. -/
theorem SlipDraft.Charges.add (h : d.Charges charges) (hmethod : c.calcMethod ≠ .percentOfGross) (amount : Int) :
    (d.add c amount).Charges (charges ++ [(c, amount)]) := by
  have hlines : (d.add c amount).lines = (charges ++ [(c, amount)]).map Charge.draft := by
    rw [List.map_append, ← h.1]
    unfold SlipDraft.add
    dsimp only
    split
    · rfl
    · rfl
    · rfl
    · split_ifs <;> rfl
    · split_ifs <;> rfl
  refine ⟨hlines, fun hwords => ?_⟩
  obtain ⟨hgross, hdeductions⟩ := h.2 hwords.of_append
  obtain ⟨hgrossWord, hdeductionsWord⟩ := hwords.whole
  rw [chargedGross_concat] at hgrossWord ⊢
  rw [chargedOn_concat] at hdeductionsWord ⊢
  unfold SlipDraft.add
  cases hc : c.calcMethod with
  | percentOfGross => exact absurd hc hmethod
  | fixedFromComp | rateXHours =>
    have hside : c.side = .gross := by
      unfold ComponentRow.side
      rw [hc]
    simp only [hside, reduceCtorEq, if_true, if_false, sub_zero, add_zero] at hgrossWord ⊢
    exact ⟨by rw [hgross, wrapI64_of_inI64 hgrossWord], hdeductions⟩
  | unpaidLeaveProration =>
    have hside : c.side = .lessGross := by
      unfold ComponentRow.side
      rw [hc]
    simp only [hside, reduceCtorEq, if_true, if_false, add_zero] at hgrossWord ⊢
    exact ⟨by rw [hgross, saturatingSub, saturateI64_of_inI64 hgrossWord], hdeductions⟩
  | fixedAmount =>
    have hside : c.side = if c.lineKind = .earning then .gross else .deductions := by
      unfold ComponentRow.side
      rw [hc]
    by_cases hkind : c.lineKind = .earning
    · rw [if_pos hkind] at hside
      simp only [hside, hkind, reduceCtorEq, if_true, if_false, sub_zero, add_zero] at hgrossWord ⊢
      exact ⟨by rw [hgross, wrapI64_of_inI64 hgrossWord], hdeductions⟩
    · rw [if_neg hkind] at hside
      simp only [hside, hkind, reduceCtorEq, if_true, if_false, sub_zero, add_zero] at hdeductionsWord ⊢
      exact ⟨hgross, by rw [hdeductions, wrapI64_of_inI64 hdeductionsWord]⟩

/-- A percentage that makes a line is a deduction. -/
def Charge.Valid (x : Charge) : Prop := x.1.calcMethod = .percentOfGross → x.1.lineKind = .deduction

theorem SlipDraft.Charges.addFixed (h : d.Charges charges) (salary workingDays : Int) (e : EmployeeInputs)
    (c : ComponentRow) :
    ∃ more, (addFixed salary workingDays e d c).Charges (charges ++ more) ∧ (∀ x ∈ more, x.Valid) ∧
      (more.map (·.1)).Sublist ([c].filter fun c => c.calcMethod ≠ .percentOfGross) := by
  have hnone : d.Charges (charges ++ []) := by rwa [List.append_nil]
  unfold Payroll.addFixed
  dsimp only
  split_ifs with hmethod hzero
  · exact ⟨[], hnone, nofun, List.nil_sublist _⟩
  · exact ⟨[], hnone, nofun, List.nil_sublist _⟩
  · refine ⟨_, h.add hmethod _, fun x hx => ?_, by simp [hmethod]⟩
    rw [List.mem_singleton.mp hx]
    exact fun hpercent => absurd hpercent hmethod

theorem SlipDraft.Charges.addPercent (h : d.Charges charges) (c : ComponentRow) :
    ∃ more, (addPercent d c).Charges (charges ++ more) ∧ (∀ x ∈ more, x.Valid) ∧
      (more.map (·.1)).Sublist ([c].filter fun c => c.calcMethod = .percentOfGross) := by
  have hnone : d.Charges (charges ++ []) := by rwa [List.append_nil]
  unfold Payroll.addPercent
  dsimp only
  generalize (saturatingMul d.grossMinor (configI64 c "percent_bps")).tdiv 10000 = amount
  split_ifs with hskip hzero
  · exact ⟨[], hnone, nofun, List.nil_sublist _⟩
  · exact ⟨[], hnone, nofun, List.nil_sublist _⟩
  · obtain ⟨hmethod, hkind⟩ := not_or.mp hskip
    have hmethod : c.calcMethod = .percentOfGross := not_not.mp hmethod
    have hkind : c.lineKind = .deduction := not_not.mp hkind
    have hside : c.side = .deductions := by
      unfold ComponentRow.side
      rw [hmethod]
    refine ⟨[(c, amount)], ⟨?_, fun hwords => ?_⟩, fun x hx => ?_, by simp [hmethod]⟩
    · rw [List.map_append, ← h.1, ← hkind]
      rfl
    · obtain ⟨hgross, hdeductions⟩ := h.2 hwords.of_append
      obtain ⟨-, hword⟩ := hwords.whole
      rw [chargedGross_concat]
      rw [chargedOn_concat] at hword ⊢
      simp only [hside, reduceCtorEq, if_true, if_false, sub_zero, add_zero] at hword ⊢
      exact ⟨hgross, by rw [hdeductions, wrapI64_of_inI64 hword]⟩
    · rw [List.mem_singleton.mp hx]
      exact fun _ => hkind

theorem SlipDraft.Charges.foldl {step : SlipDraft → ComponentRow → SlipDraft} {own : ComponentRow → Bool}
    (hstep : ∀ {d : SlipDraft} {charges}, d.Charges charges →
      ∀ c, ∃ more, (step d c).Charges (charges ++ more) ∧
      (∀ x ∈ more, x.Valid) ∧ (more.map (·.1)).Sublist ([c].filter own))
    (components : List ComponentRow) (h : d.Charges charges) :
    ∃ more, (components.foldl step d).Charges (charges ++ more) ∧ (∀ x ∈ more, x.Valid) ∧
      (more.map (·.1)).Sublist (components.filter own) := by
  induction components generalizing d charges with
  | nil => exact ⟨[], by rwa [List.append_nil], nofun, List.nil_sublist _⟩
  | cons c components ih =>
    obtain ⟨first, hfirst, hvalid, hsub⟩ := hstep h c
    obtain ⟨rest, hrest, hvalidRest, hsubRest⟩ := ih hfirst
    refine ⟨first ++ rest, by rwa [← List.append_assoc], fun x hx => ?_, ?_⟩
    · rcases List.mem_append.mp hx with hx | hx
      · exact hvalid x hx
      · exact hvalidRest x hx
    · rw [List.map_append, ← List.singleton_append, List.filter_append]
      exact hsub.append hsubRest

/-- What a payslip charges: components of the catalogue, each at most once. -/
theorem draftSlip_charges {components : List ComponentRow} {currency : String} {workingDays : Int}
    {e : EmployeeInputs} (h : draftSlip components currency workingDays e = some d) :
    ∃ charges, d.Charges charges ∧ (∀ x ∈ charges, x.Valid) ∧ (charges.map (·.1)).Subperm components := by
  obtain ⟨salary, -, h⟩ := Option.bind_eq_some_iff.mp h
  dsimp only at h
  split_ifs at h
  cases h
  have hstart : (⟨0, 0, []⟩ : SlipDraft).Charges [] := ⟨rfl, fun _ => ⟨rfl, rfl⟩⟩
  obtain ⟨fixed, hfixed, hvalid, hsub⟩ :=
    hstart.foldl (fun h c => h.addFixed salary.1 workingDays e c) components
  obtain ⟨percent, hpercent, hvalidPercent, hsubPercent⟩ := hfixed.foldl (fun h c => h.addPercent c) components
  refine ⟨_, hpercent, fun x hx => ?_, ?_⟩
  · rcases List.mem_append.mp hx with hx | hx
    · exact hvalid x hx
    · exact hvalidPercent x hx
  · rw [List.nil_append, List.map_append]
    have hparts := hsub.append hsubPercent
    have hperm := List.filter_append_perm (fun c : ComponentRow => decide (c.calcMethod ≠ .percentOfGross)) components
    have hother : (components.filter fun c => !decide (c.calcMethod ≠ .percentOfGross)) =
        components.filter fun c => decide (c.calcMethod = .percentOfGross) :=
      List.filter_congr fun c _ => by simp
    rw [hother] at hperm
    exact hparts.subperm.trans hperm.subperm

structure Shows (components : List ComponentRow) (l : PayslipLineRow) (x : Charge) : Prop where
  code : l.componentCode = x.1.code
  kind : l.lineKind = x.1.lineKind
  amount : l.amountMinor = x.2
  mem : x.1 ∈ components
  valid : x.Valid

variable {components : List ComponentRow} {lines : List PayslipLineRow}

theorem payslipLines_shows (ctx : CalculateCtx) (runId employeeId : Uuid) (currency : String)
    (hd : d.lines = charges.map Charge.draft) (hmem : ∀ x ∈ charges, x.1 ∈ components)
    (hvalid : ∀ x ∈ charges, x.Valid) :
    List.Forall₂ (Shows components) (payslipLines ctx runId employeeId currency d) charges := by
  unfold payslipLines
  rw [hd]
  clear hd
  generalize 0 = n
  induction charges generalizing n with
  | nil => exact .nil
  | cons x charges ih =>
    rw [List.map_cons, List.zipIdx_cons, List.map_cons]
    obtain ⟨hx, hmem⟩ := List.forall_mem_cons.mp hmem
    obtain ⟨hxvalid, hvalid⟩ := List.forall_mem_cons.mp hvalid
    exact .cons ⟨rfl, rfl, rfl, hx, hxvalid⟩ (ih hmem hvalid (n + 1))

theorem sum_filter_of_shows (h : List.Forall₂ (Shows components) lines charges) {P : PayslipLineRow → Prop}
    {Q : Charge → Prop} [DecidablePred P] [DecidablePred Q] (hPQ : ∀ l x, Shows components l x → (P l ↔ Q x)) :
    ((lines.filter P).map (·.amountMinor)).sum = ((charges.filter Q).map (·.2)).sum := by
  induction h with
  | nil => rfl
  | @cons l x lines charges hlx _ ih =>
    have hiff := hPQ l x hlx
    by_cases hQ : Q x
    · have hP := hiff.mpr hQ
      simp [hP, hQ, ih, hlx.amount]
    · have hP : ¬P l := mt hiff.mp hQ
      simp [hP, hQ, ih]

theorem Shows.on_iff (hcodes : (components.map (·.code)).Nodup) {l : PayslipLineRow} {x : Charge}
    (h : Shows components l x) (s : Side) : l.On components s ↔ x.1.side = s := by
  constructor
  · rintro ⟨c, hc, hcode, hside⟩
    rw [List.inj_on_of_nodup_map hcodes h.mem hc (h.code.symm.trans hcode.symm)]
    exact hside
  · exact fun hside => ⟨x.1, h.mem, h.code.symm, hside⟩

theorem sumOn_eq (hcodes : (components.map (·.code)).Nodup) (h : List.Forall₂ (Shows components) lines charges)
    (s : Side) : sumOn components s lines = chargedOn s charges :=
  sum_filter_of_shows h fun _ _ hshows => hshows.on_iff hcodes s

theorem chargesInWords_of_sums (hcodes : (components.map (·.code)).Nodup)
    (h : List.Forall₂ (Shows components) lines charges) (hwords : SumsInWords components lines) :
    ChargesInWords charges := by
  intro n
  have hn := hwords n
  have htake := List.forall₂_take n h
  rw [sumOn_eq hcodes htake, sumOn_eq hcodes htake, sumOn_eq hcodes htake] at hn
  exact hn

def slipLines (ctx : CalculateCtx) (runId : Uuid) (currency : String) (workingDays : Int) (e : EmployeeInputs) :
    List PayslipLineRow :=
  match draftSlip ctx.components currency workingDays e with
  | none => []
  | some d => payslipLines ctx runId e.employeeId currency d

/-- The payslip is of an employee of the calculation, and the checks of its table hold. -/
def Slip (ctx : CalculateCtx) (currency : String) (workingDays : Int) (es : List EmployeeInputs) (p : PayslipRow) :
    Prop :=
  ∃ e ∈ es, ∃ d, draftSlip ctx.components currency workingDays e = some d ∧
    p = payslipRow (ctx.payslipId e.employeeId) currency d ∧ 0 ≤ p.grossMinor ∧ 0 ≤ p.deductionsMinor

variable {ctx : CalculateCtx} {runId : Uuid} {currency : String} {workingDays : Int} {s t : Db}

theorem run_each_insertPayslipLine {rows : List PayslipLineRow} {r : Unit × Db}
    (h : (Prog.each insertPayslipLine rows).run s = .ok r) : r.2 = s.setLines (· ++ rows) := by
  induction rows generalizing s with
  | nil =>
    cases h
    simp [Db.setLines]
  | cons row rows ih =>
    obtain ⟨-, hr⟩ := Prog.run_execute_bind_ok.mp h
    rw [ih hr]
    simp [Db.setLines]

theorem run_insertPayslips {es : List EmployeeInputs} {totals : Totals} {r : Totals × Db}
    (h : (insertPayslips ctx runId currency workingDays es totals).run s = .ok r) :
    r.2.lines = s.lines ++ es.flatMap (slipLines ctx runId currency workingDays) ∧
      ∀ key p, r.2.payslips.find? key = some p →
        s.payslips.find? key = some p ∨ Slip ctx currency workingDays es p := by
  induction es generalizing totals s with
  | nil =>
    cases h
    exact ⟨(List.append_nil _).symm, fun key p hp => Or.inl hp⟩
  | cons e es ih =>
    have hlater : ∀ p, Slip ctx currency workingDays es p → Slip ctx currency workingDays (e :: es) p :=
      fun p ⟨e', he', hslip⟩ => ⟨e', List.mem_cons_of_mem _ he', hslip⟩
    unfold insertPayslips at h
    rw [List.flatMap_cons]
    cases hd : draftSlip ctx.components currency workingDays e with
    | none =>
      rw [hd] at h
      obtain ⟨hlines, hslips⟩ := ih h
      have hnone : slipLines ctx runId currency workingDays e = [] := by
        unfold slipLines
        rw [hd]
      exact ⟨by rw [hlines, hnone, List.nil_append], fun key p hp => (hslips key p hp).imp_right (hlater p)⟩
    | some d =>
      rw [hd] at h
      dsimp only at h
      obtain ⟨hcheck, h⟩ := Prog.run_execute_bind_ok.mp h
      obtain ⟨_, u, heach, h⟩ := Prog.run_bind_ok.mp h
      have hu : u = _ := run_each_insertPayslipLine heach
      subst hu
      obtain ⟨hlines, hslips⟩ := ih h
      have hsome : slipLines ctx runId currency workingDays e =
          payslipLines ctx runId e.employeeId currency d := by
        unfold slipLines
        rw [hd]
      split_ifs at hcheck with hsigns hkey
      refine ⟨?_, fun key p hp => ?_⟩
      · rw [hlines, hsome, ← List.append_assoc]
        rfl
      · rcases hslips key p hp with hp | hp
        · rcases Table.find?_insert_some hp with hp | ⟨-, rfl⟩
          · exact Or.inl hp
          · obtain ⟨hgross, hdeductions, -⟩ := hsigns
            exact Or.inr ⟨e, List.mem_cons_self, d, hd, rfl, hgross, hdeductions⟩
        · exact Or.inr (hlater p hp)

/-- Rows are taken away at most. -/
def Shrinks (f : Db → Db) : Prop :=
  ∀ s, (∀ l ∈ (f s).lines, l ∈ s.lines) ∧
    ∀ key p, (f s).payslips.find? key = some p → s.payslips.find? key = some p

theorem shrinks_id : Shrinks id := fun _ => ⟨fun _ h => h, fun _ _ h => h⟩

theorem Shrinks.comp {f g : Db → Db} (hf : Shrinks f) (hg : Shrinks g) : Shrinks (f ∘ g) := fun s =>
  ⟨fun l h => (hg s).1 l ((hf (g s)).1 l h), fun key p h => (hg s).2 key p ((hf (g s)).2 key p h)⟩

theorem writes_clearCalculated (status : RunStatus) (runId : Uuid) :
    (clearCalculated status runId).Writes Shrinks := by
  unfold clearCalculated
  split_ifs
  · refine .bind (Prog.writes_query shrinks_id _) fun _ => .bind (Prog.writes_each (fun lineId => ?_) _) fun _ =>
      .bind (Prog.writes_query shrinks_id _) fun _ => Prog.writes_each (fun e => ?_) _
    · exact Prog.writes_execute shrinks_id fun _ _ s => ⟨fun l h => List.mem_of_mem_filter h, fun _ _ h => h⟩
    · exact Prog.writes_execute shrinks_id fun _ _ s => ⟨fun _ h => h, fun _ _ h => (Table.find?_filter.mp h).1⟩
  · trivial

theorem run_updateRun {change : RunRow → RunRow} {r : RunRow × Db} (h : (updateRun runId change).run s = .ok r) :
    r.2.lines = s.lines ∧ r.2.payslips = s.payslips := by
  obtain ⟨-, hr⟩ := Prog.run_executeReturning_ok.mp h
  rw [hr]
  exact ⟨rfl, rfl⟩

theorem run_putAnswer {scope : String} {key : Option String} {answer : RunRow} {r : Unit × Db}
    (h : (putAnswer scope key answer).run s = .ok r) : r.2.lines = s.lines ∧ r.2.payslips = s.payslips := by
  obtain rfl := (AnswerTable.run_record_ok (t := answers) fun _ => rfl).mp h
  exact ⟨rfl, rfl⟩

/-- A calculation that succeeds repeats a stored answer, or clears rows and then stores the payslips of its
employees with their lines. -/
theorem run_calculateRun {answer : RunRow} (h : (calculateRun ctx runId).run s = .ok (answer, t)) :
    t = s ∨ ∃ (u : Db) (currency : String) (workingDays : Int), (∀ l ∈ u.lines, l ∈ s.lines) ∧
      (∀ key p, u.payslips.find? key = some p → s.payslips.find? key = some p) ∧
      t.lines = u.lines ++ ctx.employees.flatMap (slipLines ctx runId currency workingDays) ∧
      ∀ key p, t.payslips.find? key = some p →
        u.payslips.find? key = some p ∨ Slip ctx currency workingDays ctx.employees p := by
  rcases AnswerTable.replayOr_ok.mp h with ⟨stored, -, heq⟩ | ⟨-, h⟩
  · cases heq
    exact Or.inl rfl
  · obtain ⟨run, s₁, hfetch, hbody⟩ := Prog.run_bind_ok.mp h
    obtain ⟨-, hs⟩ := Prog.run_okOr_ok.mp hfetch
    have hs : s₁ = s := hs
    clear h hfetch
    subst hs
    obtain ⟨-, h⟩ := Prog.run_require_bind_ok.mp hbody
    obtain ⟨-, h⟩ := Prog.run_require_bind_ok.mp h
    obtain ⟨_, u, hclear, h⟩ := Prog.run_bind_ok.mp h
    obtain ⟨f, hf, hu⟩ := (writes_clearCalculated _ _).run_ok shrinks_id (fun _ _ => Shrinks.comp) hclear
    have hu : u = f s₁ := hu
    obtain ⟨-, h⟩ := Prog.run_require_bind_ok.mp h
    obtain ⟨-, h⟩ := Prog.run_require_bind_ok.mp h
    obtain ⟨totals, t₁, hinsert, h⟩ := Prog.run_bind_ok.mp h
    obtain ⟨updated, t₂, hupdate, h⟩ := Prog.run_bind_ok.mp h
    obtain ⟨_, t₃, hput, h⟩ := Prog.run_bind_ok.mp h
    cases h
    obtain ⟨hlines, hslips⟩ := run_insertPayslips hinsert
    obtain ⟨hlines₂, hslips₂⟩ := run_updateRun hupdate
    obtain ⟨hlines₃, hslips₃⟩ := run_putAnswer hput
    refine Or.inr ⟨u, run.currency, run.periodStart.countWeekdays run.periodEnd, ?_, ?_, ?_, fun key p hp => ?_⟩
    · rw [hu]
      exact (hf s₁).1
    · rw [hu]
      exact (hf s₁).2
    · exact hlines₃.trans (hlines₂.trans hlines)
    · have hp : t₁.payslips.find? key = some p := by
        rw [← hslips₂, ← hslips₃]
        exact hp
      exact hslips key p hp

/-- Employees and payslips have keys of their own, and no line has the id of a payslip that is not yet made. -/
structure CalculateCtx.Fresh (ctx : CalculateCtx) (s : Db) : Prop where
  employees : (ctx.employees.map (·.employeeId)).Nodup
  distinct : ∀ e e', ctx.payslipId e = ctx.payslipId e' → e = e'
  unused : ∀ l ∈ s.lines, ∀ e, l.payslipId ≠ ctx.payslipId e

theorem flatMap_eq_of_nodup {α β : Type} {xs : List α} {g : α → List β} {x : α} (hnodup : xs.Nodup)
    (hx : x ∈ xs)
    (hother : ∀ y ∈ xs, y ≠ x → g y = []) : xs.flatMap g = g x := by
  induction xs with
  | nil => cases hx
  | cons y xs ih =>
    obtain ⟨hnotin, hnodup⟩ := List.nodup_cons.mp hnodup
    rw [List.flatMap_cons]
    rcases List.mem_cons.mp hx with rfl | hx
    · have hrest : xs.flatMap g = [] := List.flatMap_eq_nil_iff.mpr fun z hz =>
        hother z (List.mem_cons_of_mem _ hz) fun heq => hnotin (heq ▸ hz)
      rw [hrest, List.append_nil]
    · have hfirst := hother y List.mem_cons_self fun heq => hnotin (heq ▸ hx)
      rw [hfirst, List.nil_append]
      exact ih hnodup hx fun z hz => hother z (List.mem_cons_of_mem _ hz)

theorem lines_of_slip (hfresh : ctx.Fresh s) {u : Db} (hu : ∀ l ∈ u.lines, l ∈ s.lines) {e : EmployeeInputs}
    (he : e ∈ ctx.employees) (hd : draftSlip ctx.components currency workingDays e = some d)
    (ht : t.lines = u.lines ++ ctx.employees.flatMap (slipLines ctx runId currency workingDays)) :
    t.linesOfPayslip (ctx.payslipId e.employeeId) =
      payslipLines ctx runId e.employeeId currency d := by
  have hid : ∀ e' l, l ∈ slipLines ctx runId currency workingDays e' →
      l.payslipId = ctx.payslipId e'.employeeId := by
    intro e' l hl
    unfold slipLines at hl
    split at hl
    · cases hl
    · obtain ⟨x, -, rfl⟩ := List.mem_map.mp hl
      rfl
  have hold : u.lines.filter (fun l => l.payslipId = ctx.payslipId e.employeeId) = [] :=
    List.filter_eq_nil_iff.mpr fun l hl heq => hfresh.unused l (hu l hl) _ (of_decide_eq_true heq)
  have hown : slipLines ctx runId currency workingDays e = payslipLines ctx runId e.employeeId currency d := by
    unfold slipLines
    rw [hd]
  unfold Db.linesOfPayslip
  rw [ht, List.filter_append, hold, List.nil_append, List.filter_flatMap,
    flatMap_eq_of_nodup hfresh.employees.of_map he, hown, List.filter_eq_self]
  · intro l hl
    exact decide_eq_true (hid e l (hown ▸ hl))
  · intro e' he' hne
    refine List.filter_eq_nil_iff.mpr fun l hl heq => hne ?_
    have heq : l.payslipId = ctx.payslipId e.employeeId := of_decide_eq_true heq
    exact List.inj_on_of_nodup_map hfresh.employees he' he (hfresh.distinct _ _ ((hid e' l hl).symm.trans heq))

def PaidAreEarnings (components : List ComponentRow) : Prop :=
  ∀ c ∈ components, c.calcMethod = .fixedFromComp ∨ c.calcMethod = .rateXHours → c.lineKind = .earning

def LineKind.side : LineKind → Side
  | earning => .gross
  | deduction => .deductions

theorem Shows.side_iff (hpaid : PaidAreEarnings components) {l : PayslipLineRow} {x : Charge}
    (h : Shows components l x) (kind : LineKind) :
    x.1.side = kind.side ↔ l.lineKind = kind ∧ ¬x.1.side = .lessGross := by
  have hearning := hpaid x.1 h.mem
  have hpercent := h.valid
  rw [h.kind]
  unfold ComponentRow.side
  cases hc : x.1.calcMethod with
  | fixedFromComp => cases kind <;> simp [hearning (Or.inl hc), LineKind.side]
  | rateXHours => cases kind <;> simp [hearning (Or.inr hc), LineKind.side]
  | unpaidLeaveProration => cases kind <;> simp [LineKind.side]
  | percentOfGross => cases kind <;> simp [hpercent hc, LineKind.side]
  | fixedAmount => cases kind <;> cases x.1.lineKind <;> simp [LineKind.side]

theorem sumOfKind_eq (hcodes : (components.map (·.code)).Nodup) (hpaid : PaidAreEarnings components)
    (h : List.Forall₂ (Shows components) lines charges) (kind : LineKind) :
    sumOfKind components kind lines = chargedOn kind.side charges := by
  refine sum_filter_of_shows h fun l x hshows => ?_
  rw [hshows.on_iff hcodes, hshows.side_iff hpaid kind]

theorem shows_codes (h : List.Forall₂ (Shows components) lines charges) :
    lines.map (·.componentCode) = charges.map (·.1.code) := by
  induction h with
  | nil => rfl
  | cons hlx _ ih => rw [List.map_cons, List.map_cons, hlx.code, ih]

/-- The totals of a payslip that a calculation stores agree with its lines: each component has at most one line, of
its own kind, and the sides are those of the methods. Where all that is paid is an earning, the sides are those of
the kinds, but for unpaid leave. -/
theorem payslip_totals_agree (cat : Catalogue) (hcat : ctx.components = cat.components) (hfresh : ctx.Fresh s)
    {answer : RunRow} (hrun : (calculateRun ctx runId).run s = .ok (answer, t)) {key : Uuid × Uuid} {p : PayslipRow}
    (hp : t.payslips.find? key = some p) (hnew : s.payslips.find? key ≠ some p)
    (hwords : SumsInWords cat.components (t.linesOfPayslip p.id)) :
    TotalsAgree cat.components p (t.linesOfPayslip p.id) ∧
      (∀ l ∈ t.linesOfPayslip p.id, ∃ c ∈ cat.components, c.code = l.componentCode ∧
        c.lineKind = l.lineKind) ∧
      ((t.linesOfPayslip p.id).map (·.componentCode)).Nodup ∧
      (PaidAreEarnings cat.components →
        p.grossMinor = sumOfKind cat.components .earning (t.linesOfPayslip p.id) -
            sumOn cat.components .lessGross (t.linesOfPayslip p.id) ∧
          p.deductionsMinor = sumOfKind cat.components .deduction (t.linesOfPayslip p.id)) := by
  obtain rfl | ⟨u, currency, workingDays, hu, hold, hlines, hslips⟩ := run_calculateRun hrun
  · exact absurd hp hnew
  obtain hp | ⟨e, he, d, hd, rfl, hgrossSign, hdeductionsSign⟩ := hslips key p hp
  · exact absurd (hold key p hp) hnew
  have hslip : t.linesOfPayslip (ctx.payslipId e.employeeId) = payslipLines ctx runId e.employeeId currency d :=
    lines_of_slip hfresh hu he hd hlines
  obtain ⟨charges, hcharges, hvalid, hsub⟩ := draftSlip_charges hd
  rw [hcat] at hsub
  have hmem : ∀ x ∈ charges, x.1 ∈ cat.components := fun x hx => hsub.subset (List.mem_map_of_mem hx)
  have hshows := payslipLines_shows ctx runId e.employeeId currency hcharges.1 hmem hvalid
  have hid : (payslipRow (ctx.payslipId e.employeeId) currency d).id = ctx.payslipId e.employeeId := rfl
  rw [hid, hslip] at hwords ⊢
  have hchargesWords := chargesInWords_of_sums cat.codes hshows hwords
  obtain ⟨hgross, hdeductions⟩ := hcharges.2 hchargesWords
  obtain ⟨hgrossWord, hdeductionsWord⟩ := hchargesWords.whole
  rw [← hgross] at hgrossWord
  rw [← hdeductions] at hdeductionsWord
  have hgrossSign : 0 ≤ d.grossMinor := hgrossSign
  have hdeductionsSign : 0 ≤ d.deductionsMinor := hdeductionsSign
  have hnet : InI64 (d.grossMinor - d.deductionsMinor) := by
    obtain ⟨-, hgrossMax⟩ := Finance.inI64_iff.mp hgrossWord
    obtain ⟨-, hdeductionsMax⟩ := Finance.inI64_iff.mp hdeductionsWord
    unfold i64Max at hgrossMax hdeductionsMax
    rw [Finance.inI64_iff, i64Min, i64Max]
    omega
  refine ⟨⟨?_, ?_, wrapI64_of_inI64 hnet⟩, fun l hl => ?_, ?_, fun hpaid => ?_⟩
  · rw [sumOn_eq cat.codes hshows, sumOn_eq cat.codes hshows]
    exact hgross
  · rw [sumOn_eq cat.codes hshows]
    exact hdeductions
  · obtain ⟨i, hi, rfl⟩ := List.mem_iff_getElem.mp hl
    have hix := (List.forall₂_iff_get.mp hshows).2 i hi (by rwa [← hshows.length_eq])
    exact ⟨_, hix.mem, hix.code.symm, hix.kind.symm⟩
  · obtain ⟨own, hperm, hown⟩ := hsub
    have hnodup : (own.map (·.code)).Nodup := cat.codes.sublist (hown.map _)
    have hcodes := (hperm.map ComponentRow.code).nodup_iff.mp hnodup
    rw [List.map_map] at hcodes
    rw [shows_codes hshows]
    exact hcodes
  · rw [sumOfKind_eq cat.codes hpaid hshows, sumOfKind_eq cat.codes hpaid hshows, sumOn_eq cat.codes hshows]
    exact ⟨hgross, hdeductions⟩

theorem sumsInWords_of_le (h : ∀ n ≤ lines.length,
    InI64 (sumOn components .gross (lines.take n) - sumOn components .lessGross (lines.take n)) ∧
      InI64 (sumOn components .deductions (lines.take n))) : SumsInWords components lines := by
  intro n
  rcases Nat.le_total n lines.length with hle | hle
  · exact h n hle
  · have hall := h lines.length le_rfl
    rw [List.take_length] at hall
    rw [List.take_of_length_le hle]
    exact hall

/-- `ensure_default_components`. -/
def defaultCatalogue : Catalogue where
  components :=
    [⟨"salary", "Base salary", .earning, .fixedFromComp, .object [], 10⟩,
      ⟨"unpaid_leave", "Unpaid leave", .deduction, .unpaidLeaveProration, .object [], 20⟩,
      ⟨"tax", "Payroll tax", .deduction, .percentOfGross, .object [("percent_bps", .number (.posInt 1000))], 30⟩,
      ⟨"overtime", "Overtime", .earning, .rateXHours,
        .object [("overtime_rate_minor", .number (.posInt 0))], 40⟩]
  accepted := by
    refine List.forall_mem_cons.mpr ⟨?_, List.forall_mem_cons.mpr ⟨?_, List.forall_mem_cons.mpr ⟨?_,
      List.forall_mem_singleton.mpr ?_⟩⟩⟩
    · exact ⟨⟨"salary", "Base salary", "earning", "fixed_from_comp", none, none, some 10⟩, none, rfl⟩
    · exact ⟨⟨"unpaid_leave", "Unpaid leave", "deduction", "unpaid_leave_proration", none, none, some 20⟩,
        none, rfl⟩
    · exact ⟨⟨"tax", "Payroll tax", "deduction", "percent_of_gross",
        some (.object [("percent_bps", .number (.posInt 1000))]), none, some 30⟩, none, rfl⟩
    · exact ⟨⟨"overtime", "Overtime", "earning", "rate_x_hours",
        some (.object [("overtime_rate_minor", .number (.posInt 0))]), none, some 40⟩, none, rfl⟩
  codes := by decide

/-- The run of a week of five weekdays. -/
def marchRun : RunRow where
  publicId := "payrun_1"
  status := .draft
  periodStart := ⟨2026, 3, 2, by decide⟩
  periodEnd := ⟨2026, 3, 6, by decide⟩
  currency := "USD"
  adjustmentOfRunId := none
  approvalId := none
  journalPublicId := none
  journalEntryId := none
  employeeCount := 0
  grossMinor := 0
  deductionsMinor := 0
  netMinor := 0
  calculatedAt := none
  approvedAt := none
  paidAt := none
  version := 1

def marchDb : Db := ⟨Table.empty.insert 1 marchRun, .empty, [], .empty⟩

/-- One employee, with a day of unpaid leave. -/
def marchCtx : CalculateCtx where
  now := 0
  idemKey := none
  components := defaultCatalogue.components
  employees := [⟨7, some (100000, "USD"), 1000, 0⟩]
  payslipId := fun e => 100 + e
  lineId := fun e n => 1000 + e * 10 + n

def marchSlip : PayslipRow := ⟨107, "USD", 80000, 8000, 72000, .draft, none, 1⟩

def marchLines : List PayslipLineRow :=
  [⟨1070, 107, 1, .earning, "salary", "Base salary", 100000, "USD", 10⟩,
    ⟨1071, 107, 1, .deduction, "unpaid_leave", "Unpaid leave", 20000, "USD", 20⟩,
    ⟨1072, 107, 1, .deduction, "tax", "Payroll tax", 8000, "USD", 30⟩]

theorem run_march : ∃ answer t, (calculateRun marchCtx 1).run marchDb = .ok (answer, t) ∧
    t.payslips.find? (1, 7) = some marchSlip ∧ t.linesOfPayslip 107 = marchLines := by
  obtain ⟨answer, t, hrun, hcheck⟩ := Prog.run_of_check (p := calculateRun marchCtx 1) (s := marchDb)
    (P := fun _ t => decide (t.payslips.find? (1, 7) = some marchSlip ∧ t.linesOfPayslip 107 = marchLines))
    (by decide +kernel)
  exact ⟨answer, t, hrun, of_decide_eq_true hcheck⟩

theorem marchCtx_fresh : marchCtx.Fresh marchDb where
  employees := by decide
  distinct := fun _ _ h => Nat.add_left_cancel h
  unused := nofun

theorem payslip_totals_agree_march : ∃ answer t, (calculateRun marchCtx 1).run marchDb = .ok (answer, t) ∧
    TotalsAgree defaultCatalogue.components marchSlip (t.linesOfPayslip marchSlip.id) := by
  obtain ⟨answer, t, hrun, hslip, hlines⟩ := run_march
  refine ⟨answer, t, hrun, (payslip_totals_agree defaultCatalogue rfl marchCtx_fresh hrun hslip nofun ?_).1⟩
  have hid : marchSlip.id = 107 := rfl
  rw [hid, hlines]
  exact sumsInWords_of_le (by decide)

def bonusCatalogue : Catalogue where
  components := ["a", "b", "c"].map fun code =>
    ⟨code, "Bonus", .earning, .fixedAmount, .object [("fixed_amount_minor", .number (.posInt 9223372036854775807))],
      50⟩
  accepted := by
    refine List.forall_mem_cons.mpr ⟨?_, List.forall_mem_cons.mpr ⟨?_, List.forall_mem_singleton.mpr ?_⟩⟩
    · exact ⟨⟨"a", "Bonus", "earning", "fixed_amount", some (.object [("fixed_amount_minor",
        .number (.posInt 9223372036854775807))]), none, some 50⟩, none, rfl⟩
    · exact ⟨⟨"b", "Bonus", "earning", "fixed_amount", some (.object [("fixed_amount_minor",
        .number (.posInt 9223372036854775807))]), none, some 50⟩, none, rfl⟩
    · exact ⟨⟨"c", "Bonus", "earning", "fixed_amount", some (.object [("fixed_amount_minor",
        .number (.posInt 9223372036854775807))]), none, some 50⟩, none, rfl⟩
  codes := by decide

def Db.sumOfKind (id : Uuid) (kind : LineKind) (s : Db) : Int :=
  (((s.linesOfPayslip id).filter fun l => l.lineKind = kind).map (·.amountMinor)).sum

def bonusCtx : CalculateCtx := { marchCtx with components := bonusCatalogue.components }

/-- What is left of the three in 64 bits. -/
def bonusSlip : PayslipRow := ⟨107, "USD", 9223372036854775805, 0, 9223372036854775805, .draft, none, 1⟩

/-- With the components that an organization starts with, a day of unpaid leave is a deduction of 20000 that the
deductions do not have: it is taken from the gross, which is less than the one earning. Nor is a gross the sum of
its earnings where that leaves 64 bits. -/
theorem payslip_totals_unpaid_leave :
    (∃ answer t p, (calculateRun marchCtx 1).run marchDb = .ok (answer, t) ∧ t.payslips.find? (1, 7) = some p ∧
      p.grossMinor = 80000 ∧ t.sumOfKind p.id .earning = 100000 ∧
      p.deductionsMinor = 8000 ∧ t.sumOfKind p.id .deduction = 28000) ∧
    ∃ answer t p, (calculateRun bonusCtx 1).run marchDb = .ok (answer, t) ∧ t.payslips.find? (1, 7) = some p ∧
      p.grossMinor = 9223372036854775805 ∧ t.sumOfKind p.id .earning = 3 * 9223372036854775807 := by
  constructor
  · obtain ⟨answer, t, hrun, hslip, hlines⟩ := run_march
    have hid : marchSlip.id = 107 := rfl
    unfold Db.sumOfKind
    refine ⟨answer, t, marchSlip, hrun, hslip, rfl, ?_, rfl, ?_⟩
    · rw [hid, hlines]
      decide
    · rw [hid, hlines]
      decide
  · obtain ⟨answer, t, hrun, hcheck⟩ := Prog.run_of_check (p := calculateRun bonusCtx 1) (s := marchDb)
      (P := fun _ t => decide (t.payslips.find? (1, 7) = some bonusSlip ∧
        t.sumOfKind 107 .earning = 3 * 9223372036854775807))
      (by decide +kernel)
    obtain ⟨hslip, hsum⟩ := of_decide_eq_true hcheck
    exact ⟨answer, t, bonusSlip, hrun, hslip, rfl, hsum⟩

end Noxara.Payroll
