import Noxara.PayslipTotals
import Noxara.PublicIdTexts
import Noxara.TransactionRecheck

/-! What the statements of the handlers make of a payroll run, and what its transactions promise each other: who
changes the run holds its lock, and changes an approved run only by paying it. -/
namespace Noxara.Payroll

open Transaction
open Finance (Uuid Timestamp Date Formats AppError)

structure Part where
  run : Option RunRow
  payslips : List ((Uuid × Uuid) × PayslipRow)
  lines : List PayslipLineRow

def part (runId : Uuid) (s : Db) : Part := ⟨s.runs.find? runId, s.payslipsOf runId, s.linesOf runId⟩

def RunStatus.Final (status : RunStatus) : Prop := status = .approved ∨ status = .paid

/-- What approval fixes of a run. -/
structure RunFigures where
  periodStart : Date
  periodEnd : Date
  currency : String
  employeeCount : Int
  grossMinor : Int
  deductionsMinor : Int
  netMinor : Int

def RunRow.figures (r : RunRow) : RunFigures :=
  ⟨r.periodStart, r.periodEnd, r.currency, r.employeeCount, r.grossMinor, r.deductionsMinor, r.netMinor⟩

theorem payrollJournal_congr {runId : Uuid} {r r' : RunRow} (h : r'.figures = r.figures) :
    payrollJournal runId r' = payrollJournal runId r := by
  simp only [RunRow.figures, RunFigures.mk.injEq] at h
  obtain ⟨hstart, hend, hcurrency, -, hgross, hded, hnet⟩ := h
  simp only [payrollJournal, hstart, hend, hcurrency, hgross, hded, hnet]

def PayslipRow.unissued (p : PayslipRow) : PayslipRow := { p with status := .draft, issuedAt := none, version := 0 }

/-- An approved run afterwards: still approved, or paid, with the same figures, and with the same payslips
and lines but for the mark that they were issued. -/
structure Part.Stays (p q : Part) : Prop where
  run : ∀ row, p.run = some row → ∃ row', q.run = some row' ∧ row'.status.Final ∧ row'.figures = row.figures
  payslips : q.payslips.map (fun r => (r.1, r.2.unissued)) = p.payslips.map fun r => (r.1, r.2.unissued)
  lines : q.lines = p.lines

theorem Part.Stays.trans {p q r : Part} (h : p.Stays q) (h' : q.Stays r) : p.Stays r where
  run row hrow := by
    obtain ⟨row', hrow', -, hfigures⟩ := h.run row hrow
    obtain ⟨row'', hrow'', hfinal, hfigures'⟩ := h'.run row' hrow'
    exact ⟨row'', hrow'', hfinal, hfigures'.trans hfigures⟩
  payslips := h'.payslips.trans h.payslips
  lines := h'.lines.trans h.lines

/-- A run that is approved stays so, and one that is paid is left alone. -/
structure Part.Advances (p q : Part) : Prop where
  final : ∀ row, p.run = some row → row.status.Final → p.Stays q
  paid : ∀ row, p.run = some row → row.status = .paid → q = p

theorem Part.Advances.refl (p : Part) : p.Advances p where
  final row hrow hfinal := by
    refine ⟨fun row' hrow' => ⟨row', hrow', ?_, rfl⟩, rfl, rfl⟩
    cases hrow.symm.trans hrow'
    exact hfinal
  paid _ _ _ := rfl

theorem Part.Advances.trans {p q r : Part} (h : p.Advances q) (h' : q.Advances r) : p.Advances r where
  final row hrow hfinal := by
    have hstays := h.final row hrow hfinal
    obtain ⟨row', hrow', hfinal', -⟩ := hstays.run row hrow
    exact hstays.trans (h'.final row' hrow' hfinal')
  paid row hrow hpaid := by
    obtain rfl : q = p := h.paid row hrow hpaid
    exact h'.paid row hrow hpaid

/-- What a transaction that has changed the run has made of it. -/
def Part.Pays (p q : Part) : Prop :=
    ∀ row, p.run = some row → row.status ≠ .paid ∧ (row.status.Final → p.Stays q)

theorem Part.Pays.advances {p q : Part} (h : p.Pays q) : p.Advances q where
  final row hrow := (h row hrow).2
  paid row hrow hpaid := absurd hpaid (h row hrow).1

section
variable {runId : Uuid} {s : Db}

theorem part_modify_run (id : Uuid) (change : RunRow → RunRow) :
    part runId (s.setRuns (·.modify id change)) =
      { part runId s with run := if id = runId then (s.runs.find? id).map change else s.runs.find? runId } := by
  by_cases h : id = runId
  · subst h
    simp [part, Db.setRuns, Table.find?_modify_self, Db.payslipsOf, Db.linesOf]
  · simp [part, Db.setRuns, Table.find?_modify_ne _ _ (Ne.symm h), Db.payslipsOf, Db.linesOf, h]

theorem confined_modify_run (change : RunRow → RunRow) :
    Prog.Confined (part runId) (·.setRuns (·.modify runId change)) := by
  refine ⟨fun p => { p with run := p.run.map change }, fun s => ?_⟩
  rw [part_modify_run, if_pos rfl]
  rfl

theorem part_delete_line (id lineId : Uuid) :
    part runId (s.setLines (·.filter fun l => ¬(l.id = lineId ∧ l.runId = id))) =
      { part runId s with lines := (part runId s).lines.filter fun l => ¬(l.id = lineId ∧ l.runId = id) } := by
  simp only [part, Db.setLines, Db.payslipsOf, Db.linesOf, List.filter_filter, Bool.and_comm]

theorem part_append_line (row : PayslipLineRow) :
    part runId (s.setLines (· ++ [row])) =
      { part runId s with lines := (part runId s).lines ++ [row].filter (·.runId = runId) } := by
  simp [part, Db.setLines, Db.payslipsOf, Db.linesOf]

theorem part_delete_payslip (key : Uuid × Uuid) :
    part runId (s.setPayslips (·.filter fun k _ => decide (k ≠ key))) =
      { part runId s with payslips := (part runId s).payslips.filter (·.1 ≠ key) } := by
  simp [part, Db.setPayslips, Table.filter, Db.payslipsOf, Db.linesOf, List.filter_filter, Bool.and_comm]

theorem part_modify_payslip (key : Uuid × Uuid) (f : PayslipRow → PayslipRow) :
    part runId (s.setPayslips (·.modify key f)) =
      { part runId s with
        payslips := (part runId s).payslips.map fun r => (r.1, if r.1 = key then f r.2 else r.2) } := by
  simp only [part, Db.setPayslips, Table.modify, Table.mapRows, Db.payslipsOf, Db.linesOf, List.filter_map]
  rfl

/-- The rows of a run after an insertion, which does nothing where the key is taken. -/
def insertRow (key : Uuid × Uuid) (row : PayslipRow) (rows : List ((Uuid × Uuid) × PayslipRow)) :
    List ((Uuid × Uuid) × PayslipRow) :=
  if ∃ r ∈ rows, r.1 = key then rows else rows ++ [(key, row)]

theorem part_insert_payslip (key : Uuid × Uuid) (row : PayslipRow) :
    part runId (s.setPayslips (·.insert key row)) =
      { part runId s with
        payslips := if key.1 = runId then insertRow key row (part runId s).payslips
          else (part runId s).payslips } := by
  have hmem : key.1 = runId → ((∃ r ∈ s.payslipsOf runId, r.1 = key) ↔ key ∈ s.payslips.keys) := by
    intro hkey
    simp only [Db.payslipsOf, Table.keys, List.mem_map, List.mem_filter, decide_eq_true_eq]
    constructor
    · rintro ⟨r, ⟨hr, -⟩, rfl⟩
      exact ⟨r, hr, rfl⟩
    · rintro ⟨r, hr, rfl⟩
      exact ⟨r, ⟨hr, hkey⟩, rfl⟩
  by_cases hin : key ∈ s.payslips.keys
  · have hsame : s.setPayslips (·.insert key row) = s := by
      simp only [Db.setPayslips, Table.insert_of_mem hin]
    rw [hsame]
    split_ifs with hkey
    · have htaken := (hmem hkey).mpr hin
      simp only [insertRow, part, htaken, if_true]
    · rfl
  · have hrows := Table.rows_insert (Table.find?_eq_none.mpr hin) row
    simp only [part, Db.setPayslips, Db.payslipsOf, Db.linesOf, hrows, List.filter_append]
    split_ifs with hkey
    · have hfree : ¬∃ r ∈ s.payslipsOf runId, r.1 = key := fun h => hin ((hmem hkey).mp h)
      simp only [Db.payslipsOf] at hfree
      simp only [insertRow, if_neg hfree, hkey, List.filter_cons, List.filter_nil, decide_true, if_true]
    · simp [hkey]

end

section
/-- The statements of the handlers of the run `own` that leave its row. -/
inductive SlipWrite (own : Uuid) : (Db → Db) → Prop
  | nothing : SlipWrite own fun s => s
  | deleteLine (lineId) : SlipWrite own (·.setLines (·.filter fun l => ¬(l.id = lineId ∧ l.runId = own)))
  | insertLine (row) (mine : row.runId = own) : SlipWrite own (·.setLines (· ++ [row]))
  | deletePayslip (e) : SlipWrite own (·.setPayslips (·.filter fun k _ => decide (k ≠ (own, e))))
  | insertPayslip (e row) : SlipWrite own (·.setPayslips (·.insert (own, e) row))
  | issue (e now) : SlipWrite own (·.setPayslips (·.modify (own, e) (issuedPayslip now)))
  | answer (scope key row) : SlipWrite own fun s => { s with idempotency := s.idempotency.insert (scope, key) row }

variable {own runId : Uuid} {f g : Db → Db}

/-- What a write of the handlers of `own` makes of the run `runId`: it leaves the row, of the rest it makes what
depends on the run alone, and it leaves other runs. -/
structure Leaves (own runId : Uuid) (f : Db → Db) : Prop where
  confined : Prog.Confined (part runId) f
  row : ∀ s, (f s).runs.find? runId = s.runs.find? runId
  other : own ≠ runId → Prog.Keeps (part runId) f

theorem Leaves.id : Leaves own runId id := ⟨.id _, fun _ => rfl, fun _ => .id _⟩

theorem Leaves.comp (hf : Leaves own runId f) (hg : Leaves own runId g) : Leaves own runId (f ∘ g) :=
  ⟨hf.confined.comp hg.confined, fun s => (hf.row (g s)).trans (hg.row s), fun h => (hf.other h).comp (hg.other h)⟩

theorem Leaves.of_part {g : Part → Part} (hpart : ∀ s, part runId (f s) = g (part runId s))
    (hrow : ∀ s, (f s).runs = s.runs) (hother : own ≠ runId → ∀ s, g (part runId s) = part runId s) :
    Leaves own runId f :=
  ⟨⟨g, hpart⟩, fun s => by rw [hrow], fun h s => (hpart s).trans (hother h s)⟩

theorem payslip_of_run {s : Db} {r : (Uuid × Uuid) × PayslipRow} (hne : own ≠ runId)
    (hr : r ∈ (part runId s).payslips) (e : Uuid) : r.1 ≠ (own, e) := by
  intro he
  have hrun : r.1.1 = runId := by simpa [part, Db.payslipsOf] using (List.mem_filter.mp hr).2
  rw [he] at hrun
  exact hne hrun

theorem SlipWrite.leaves (h : SlipWrite own f) : Leaves own runId f := by
  cases h with
  | nothing => exact .id
  | deleteLine lineId =>
    refine .of_part (g := fun p => { p with lines := p.lines.filter fun l => ¬(l.id = lineId ∧ l.runId = own) })
      (fun s => part_delete_line own lineId) (fun _ => rfl) fun hne s => ?_
    have hall : ((part runId s).lines.filter fun l => ¬(l.id = lineId ∧ l.runId = own)) = (part runId s).lines := by
      refine List.filter_eq_self.mpr fun l hl => decide_eq_true ?_
      have hrun : l.runId = runId := by simpa [part, Db.linesOf] using (List.mem_filter.mp hl).2
      exact fun h => hne (h.2.symm.trans hrun)
    rw [hall]
  | insertLine row mine =>
    refine .of_part (g := fun p => { p with lines := p.lines ++ [row].filter (·.runId = runId) })
      (fun s => part_append_line row) (fun _ => rfl) fun hne s => ?_
    simp [mine, hne]
  | deletePayslip e =>
    refine .of_part (g := fun p => { p with payslips := p.payslips.filter (·.1 ≠ (own, e)) })
      (fun s => part_delete_payslip (own, e)) (fun _ => rfl) fun hne s => ?_
    have hall : ((part runId s).payslips.filter (·.1 ≠ (own, e))) = (part runId s).payslips :=
      List.filter_eq_self.mpr fun r hr => decide_eq_true (payslip_of_run hne hr e)
    rw [hall]
  | insertPayslip e row =>
    refine .of_part
      (g := fun p => { p with payslips := if own = runId then insertRow (own, e) row p.payslips else p.payslips })
      (fun s => part_insert_payslip (own, e) row) (fun _ => rfl) fun hne s => ?_
    rw [if_neg hne]
  | issue e now =>
    refine .of_part (g := fun p => { p with
        payslips := p.payslips.map fun r => (r.1, if r.1 = (own, e) then issuedPayslip now r.2 else r.2) })
      (fun s => part_modify_payslip (own, e) (issuedPayslip now)) (fun _ => rfl) fun hne s => ?_
    have hall : ((part runId s).payslips.map fun r =>
        (r.1, if r.1 = (own, e) then issuedPayslip now r.2 else r.2)) = (part runId s).payslips := by
      refine (List.map_congr_left fun r hr => ?_).trans (List.map_id _)
      rw [if_neg (payslip_of_run hne hr e)]
      rfl
    rw [hall]
  | answer scope key row => exact .of_part (g := fun p => p) (fun _ => rfl) (fun _ => rfl) fun _ _ => rfl

theorem covered_clearRunPayslips : (clearRunPayslips own).Covered fun _ f => SlipWrite own f := by
  refine .bind (Prog.covered_query (fun _ => .nothing) _) fun _ =>
    .bind (Prog.covered_each (fun lineId => ?_) _) fun _ =>
    .bind (Prog.covered_query (fun _ => .nothing) _) fun _ => Prog.covered_each (fun e => ?_) _
  · exact Prog.covered_execute (fun _ => .nothing) fun _ _ => .deleteLine lineId
  · exact Prog.covered_execute (fun _ => .nothing) fun _ _ => .deletePayslip e

theorem covered_clearCalculated (status : RunStatus) :
    (clearCalculated status own).Covered fun _ f => SlipWrite own f := by
  unfold clearCalculated
  split_ifs
  · exact covered_clearRunPayslips
  · trivial

theorem covered_insertPayslips (ctx : CalculateCtx) (currency : String) (workingDays : Int)
    (es : List EmployeeInputs) (totals : Totals) :
    (insertPayslips ctx own currency workingDays es totals).Covered fun _ f => SlipWrite own f := by
  induction es generalizing totals with
  | nil => trivial
  | cons e es ih =>
    unfold insertPayslips
    cases draftSlip ctx.components currency workingDays e with
    | none => exact ih totals
    | some d =>
      refine .bind (Prog.covered_execute (fun _ => .nothing) fun _ _ => .insertPayslip _ _) fun _ =>
        .bind ?_ fun _ => ih _
      have hlines : ∀ row ∈ payslipLines ctx own e.employeeId currency d, row.runId = own := by
        intro row hrow
        obtain ⟨l, -, rfl⟩ := List.mem_map.mp hrow
        rfl
      generalize payslipLines ctx own e.employeeId currency d = rows at hlines
      induction rows with
      | nil => trivial
      | cons row rows ih' =>
        refine .bind (f := fun _ => Prog.each insertPayslipLine rows) ?_ fun _ =>
          ih' fun r hr => hlines r (List.mem_cons_of_mem _ hr)
        exact Prog.covered_execute (fun _ => .nothing) fun _ _ => .insertLine row (hlines row List.mem_cons_self)

/-- The statements that follow an update of the run. -/
def Settles (own runId : Uuid) (_ : List Lock) (f : Db → Db) : Prop :=
  SlipWrite own f ∧
    ∃ g : Part → Part, (∀ s, part runId (f s) = g (part runId s)) ∧ ∀ a b : Part, a.Pays b → a.Pays (g b)

theorem settles_nothing (ls : List Lock) : Settles own runId ls fun s => s :=
  ⟨.nothing, fun p => p, fun _ => rfl, fun _ _ h => h⟩

theorem covered_putAnswer (scope : String) (key : Option String) (answer : RunRow) :
    (putAnswer scope key answer).Covered (Settles own runId) := by
  cases key with
  | none => trivial
  | some k =>
    have hstored : ∀ ls, Settles own runId ls fun s => answers.keep s ((answers.rows s).insert (scope, k) answer) :=
      fun _ => ⟨.answer scope k answer, fun p => p, fun _ => rfl, fun _ _ h => h⟩
    unfold putAnswer AnswerTable.record AnswerTable.put
    exact Prog.covered_execute settles_nothing fun _ _ => hstored _

/-- Marking a payslip as issued changes no figure. -/
theorem Part.Pays.issue {a b : Part} (h : a.Pays b) (key : Uuid × Uuid) (now : Timestamp) : a.Pays { b with
    payslips := b.payslips.map fun r => (r.1, if r.1 = key then issuedPayslip now r.2 else r.2) } := by
  intro row hrow
  obtain ⟨hopen, hstays⟩ := h row hrow
  refine ⟨hopen, fun hfinal => ⟨(hstays hfinal).run, ?_, (hstays hfinal).lines⟩⟩
  rw [← (hstays hfinal).payslips, List.map_map]
  refine List.map_congr_left fun r _ => ?_
  change (r.1, (if r.1 = key then issuedPayslip now r.2 else r.2).unissued) = _
  split_ifs <;> rfl

theorem covered_issuePayslip (now : Timestamp) (e : Uuid) :
    (issuePayslip now (own, e)).Covered (Settles own runId) := by
  have hissue : ∀ ls, Settles own runId ls (·.setPayslips (·.modify (own, e) (issuedPayslip now))) := fun _ =>
    ⟨.issue e now, _, fun _ => part_modify_payslip _ _, fun _ _ h => h.issue (own, e) now⟩
  exact Prog.covered_execute settles_nothing fun _ _ => hissue _

end

theorem payrollRunImmutability_ok {old new : RunRow} (h : payrollRunImmutability old new = .ok ()) :
    old.status ≠ .paid ∧ (old.status.Final → new.status = .paid ∧ new.figures = old.figures) := by
  unfold payrollRunImmutability at h
  split_ifs at h with hpaid happroved hsame
  · obtain ⟨hnew, hstart, hend, hcurrency, hgross, hded, hnet, hcount, -⟩ := hsame
    exact ⟨hpaid, fun _ => ⟨hnew, by
      simp only [RunRow.figures, hstart, hend, hcurrency, hgross, hded, hnet, hcount]⟩⟩
  · refine ⟨hpaid, ?_⟩
    rintro (hstatus | hstatus)
    · exact absurd hstatus happroved
    · exact absurd hstatus hpaid

theorem updateRunCheck_ok {runId : Uuid} {change : RunRow → RunRow} {v : Db} {row : RunRow}
    (h : updateRunCheck runId change v = .ok row) :
    ∃ old, v.runs.find? runId = some old ∧ payrollRunImmutability old (change old) = .ok () := by
  unfold updateRunCheck at h
  cases hfind : v.runs.find? runId with
  | none => simp [hfind] at h
  | some old =>
    simp only [hfind] at h
    cases himm : payrollRunImmutability old (change old) with
    | error e =>
      rw [himm] at h
      cases h
    | ok _ => exact ⟨old, rfl, himm⟩

/-- A run whose lock one holds stays. -/
def payrollTerms (runId : Uuid) : Terms Db Lock where
  rely ls s t := .run runId ∈ ls → part runId t = part runId s
  when _ _ _ := True
  refl _ _ _ := rfl
  trans h h' hl := (h' hl).trans (h hl)
  anti hls h hl := h (hls _ hl)

abbrev RunPending (runId : Uuid) (x : Trail Db Lock) (s : Db) : Prop :=
  Prog.Pending (.run runId) (part runId) Part.Pays x s

/-- It leaves the run, or holds its lock and pays it if it was approved. -/
def PayrollPromise (runId : Uuid) (x : Trail Db Lock) (s : Db) : Prop :=
  Prog.Keeps (part runId) x.pend ∨ RunPending runId x s

section
variable {own runId : Uuid} {x : Trail Db Lock} {s : Db}

theorem PayrollPromise.advances (h : PayrollPromise runId x s) :
    (part runId s).Advances (part runId (x.pend s)) := by
  rcases h with h | h
  · rw [h s]
    exact .refl _
  · exact h.within.advances

theorem PayrollPromise.rely (h : PayrollPromise runId x s) {ls : List Lock} (hfree : ∀ k ∈ x.locks, k ∉ ls) :
    (payrollTerms runId).rely ls s (x.pend s) := by
  intro hk
  rcases h with h | h
  · exact h s
  · exact absurd hk (hfree _ h.lock)

theorem steady_leaves :
    Prog.Steady (payrollTerms runId) (fun _ f => SlipWrite own f) fun x _ => Leaves own runId x.pend where
  rely _ h := h
  push hw h := hw.leaves.comp h

/-- After an update of the run `own`. -/
def Settled (own runId : Uuid) (x : Trail Db Lock) (s : Db) : Prop :=
  (own ≠ runId ∧ Prog.Keeps (part runId) x.pend) ∨ RunPending runId x s

theorem Settled.promise (h : Settled own runId x s) : PayrollPromise runId x s := h.imp_left And.right

theorem steady_settled : Prog.Steady (payrollTerms runId) (Settles own runId) (Settled own runId) where
  rely hs h := h.imp_right ((Prog.steady_pending (T := payrollTerms runId) fun _ _ _ hk h => h hk).rely hs)
  push {x l w s} hw h := by
    obtain ⟨hslip, hpays⟩ := hw
    rcases h with ⟨hne, h⟩ | h
    · exact .inl ⟨hne, (hslip.leaves.other hne).comp h⟩
    · exact .inr ((Prog.steady_pending (T := payrollTerms runId) fun _ _ _ hk h => h hk).push hpays h)

/-- An update of the run: what was written before left its row, and only a transaction that has written nothing
pays it. -/
theorem safe_updateRun_bind {change : RunRow → RunRow} {f : RunRow → Tx RunRow} (hx : Leaves own runId x.pend)
    (hpay : (∀ r, (change r).status ≠ .paid) ∨ ∀ t, x.pend t = t)
      (hf : ∀ row, (f row).Covered (Settles own runId)) :
    (updateRun own change >>= f).Safe (payrollTerms runId) (fun y _ u => PayrollPromise runId y u) x s := by
  refine Prog.Safe.executeReturning_bind fun u row hu _ hcheck => ?_
  refine (steady_settled.safe (hf row) (?_ : Settled own runId _ u)).mono fun y _ w hy => hy.promise
  by_cases hown : own = runId
  · subst hown
    refine .inr ⟨List.mem_append_left _ (List.mem_singleton.mpr rfl), ?_, ?_⟩
    · exact (confined_modify_run change).comp hx.confined
    · intro old hold
      obtain ⟨old', hold', himm⟩ := updateRunCheck_ok hcheck
      obtain rfl : old' = old := Option.some.inj (hold'.symm.trans ((hx.row u).trans hold))
      obtain ⟨hopen, hfinal⟩ := payrollRunImmutability_ok himm
      refine ⟨hopen, fun hstatus => ?_⟩
      obtain ⟨hpaid, hfigures⟩ := hfinal hstatus
      rcases hpay with hpay | hpay
      · exact absurd hpaid (hpay old')
      · change (part own u).Stays (part own ((x.pend u).setRuns (·.modify own change)))
        rw [hpay, part_modify_run, if_pos rfl, show u.runs.find? own = some old' from hold]
        refine ⟨fun row' hrow' => ?_, rfl, rfl⟩
        cases hold.symm.trans hrow'
        exact ⟨change old', rfl, .inr hpaid, hfigures⟩
  · refine .inl ⟨hown, ?_⟩
    have hkeep : Prog.Keeps (part runId) fun s : Db => s.setRuns (·.modify own change) := by
      intro t
      rw [part_modify_run, if_neg hown]
      rfl
    exact hkeep.comp (hx.other hown)

theorem safe_updateRun {change : RunRow → RunRow} (hx : Leaves own runId x.pend)
    (hpay : ∀ r, (change r).status ≠ .paid) :
    (updateRun own change).Safe (payrollTerms runId) (fun y _ u => PayrollPromise runId y u) x s := by
  rw [← bind_pure (updateRun own change)]
  exact safe_updateRun_bind hx (.inl hpay) fun _ => trivial

theorem safe_replayOr {scope : String} {key : Option String} {body : Tx RunRow} {seen : List Db} {locks : List Lock}
    (h : ∀ seen u, body.Safe (payrollTerms runId) (fun y _ u => PayrollPromise runId y u) ⟨seen, locks, id⟩ u) :
    (replayOr scope key body).Safe (payrollTerms runId) (fun y _ u => PayrollPromise runId y u)
      ⟨seen, locks, id⟩ s := by
  cases key with
  | none => exact h seen s
  | some k =>
    refine .query_bind fun u _ _ => ?_
    split
    · exact Prog.Safe.pure fun w _ => .inl fun _ => rfl
    · exact h _ u

theorem safe_fetchRun_bind {f : RunRow → Tx RunRow}
    (h : ∀ row u, (f row).Safe (payrollTerms runId) (fun y _ u => PayrollPromise runId y u) (x.look u) u) :
    (fetchRun own >>= f).Safe (payrollTerms runId) (fun y _ u => PayrollPromise runId y u) x s :=
  fun u _ _ => .okOr_bind fun row _ => h row u

theorem PayrollOp.safe [Formats] (op : PayrollOp) :
    op.body.Safe (payrollTerms runId) (fun y _ u => PayrollPromise runId y u) .start s := by
  have hdone : ∀ {y : Trail Db Lock} {u : Db} (row : RunRow), y.pend = id →
      (pure row : Tx RunRow).Safe (payrollTerms runId) (fun y _ u => PayrollPromise runId y u) y u :=
    fun row hy => Prog.Safe.pure fun w _ => .inl (by rw [hy]; exact .id _)
  cases op with
  | calculate ctx own =>
    refine safe_replayOr fun _ _ => safe_fetchRun_bind fun run u => .require_bind fun _ => .require_bind fun _ => ?_
    have hstart : Leaves own runId id := .id
    refine .bind ((steady_leaves.safe (covered_clearCalculated _) hstart).mono fun y _ v hy => ?_)
    refine .require_bind fun _ => .require_bind fun _ =>
      .bind ((steady_leaves.safe (covered_insertPayslips ctx _ _ _ _) hy).mono ?_)
    intro z totals w hz
    exact safe_updateRun_bind hz (.inl fun _ => by simp [calculatedRun]) fun updated =>
      .bind (covered_putAnswer _ _ _) fun _ => trivial
  | submit approvalId own =>
    refine safe_fetchRun_bind fun run u => .require_bind fun _ => .require_bind fun _ => ?_
    exact safe_updateRun .id fun _ => by simp [submittedRun]
  | approve now idemKey own =>
    refine safe_replayOr fun _ _ => safe_fetchRun_bind fun run u => ?_
    split_ifs
    · exact hdone run rfl
    · exact .require_bind fun _ => safe_updateRun_bind .id (.inl fun _ => by simp [approvedRun]) fun updated =>
        .bind (covered_putAnswer _ _ _) fun _ => trivial
  | decide now accept own =>
    refine safe_fetchRun_bind fun run u => ?_
    split_ifs
    · exact hdone run rfl
    · exact .require_bind fun _ => safe_updateRun .id fun _ => by simp [approvedRun]
    · exact .require_bind fun _ => safe_updateRun .id fun _ => by simp [returnedRun]
  | pay ctx own =>
    refine safe_replayOr fun _ _ => safe_fetchRun_bind fun run u => ?_
    split_ifs
    · exact hdone run rfl
    · refine .require_bind fun _ => .query_bind fun v _ _ => .ofExcept_bind fun journalPublicId _ =>
        safe_updateRun_bind .id (.inr fun _ => rfl) fun updated =>
        .bind (Prog.covered_query settles_nothing _) fun _ => .bind (Prog.covered_each (fun e => ?_) _) fun _ =>
        .bind (covered_putAnswer _ _ _) fun _ => trivial
      exact covered_issuePayslip _ e

end

/-- In every interleaving a run that is approved stays approved until it is paid, with its figures, its payslips and
their lines, so that paying it asks for the same journal whenever it is tried; once paid it is left alone. -/
theorem approved_run_frozen [Formats] {ι : Type} [DecidableEq ι] {ops : ι → PayrollOp} {db : Db}
    {c d : Config ι Db Lock AppError RunRow} (hc : Reachable (fun i => (ops i).body) db c)
    (hd : Relation.ReflTransGen Step c d) (runId : Uuid) :
    (part runId c.db).Advances (part runId d.db) ∧
      ∀ row row', c.db.runs.find? runId = some row → row.status.Final → d.db.runs.find? runId = some row' →
        payrollJournal runId row' = payrollJournal runId row := by
  let g : Guard Db Lock Part := ⟨.run runId, part runId, fun _ => True⟩
  obtain ⟨W, hW, rfl⟩ := Watch.exists_reached (g := g) hc
  obtain ⟨V, hV, rfl⟩ := Watch.exists_run (g := g) W hd
  have hadvances : (part runId W.config.db).Advances (part runId V.config.db) := by
    refine Watch.Reached.leads (T := fun _ => payrollTerms runId) (Q := fun _ x _ s => PayrollPromise runId x s)
      (fun i => (ops i).safe) (fun _ _ _ _ _ => trivial) (I := fun _ => True) trivial (fun _ _ _ _ _ _ => trivial)
      (fun _ _ _ _ _ _ _ _ hQ hfree => hQ.rely hfree) hW hV
      (R := fun s t => (part runId s).Advances (part runId t)) (fun _ => .refl _) (fun _ _ _ => .trans) ?_
    exact fun _ _ _ _ _ hQ => hQ.advances
  refine ⟨hadvances, fun row row' hrow hfinal hrow' => ?_⟩
  obtain ⟨row'', hrow'', -, hfigures⟩ := (hadvances.final row hrow hfinal).run row hrow
  obtain rfl : row'' = row' := Option.some.inj (hrow''.symm.trans hrow')
  exact payrollJournal_congr hfigures

def calculatedDb : Db where
  runs := Table.empty.insert 1 { marchRun with
    status := .calculated, employeeCount := 1, grossMinor := 80000, deductionsMinor := 8000, netMinor := 72000 }
  payslips := Table.empty.insert (1, 7) marchSlip
  lines := marchLines
  idempotency := .empty

section
variable [Formats]

def recalculatedAndApproved : Fin 2 → PayrollOp :=
  sideBySide (.calculate { marchCtx with payslipId := fun e => 200 + e, lineId := fun e n => 2000 + e * 10 + n } 1)
    (.approve 9 none 1)

end

/-- The approval comes when the calculation has made the payslips anew and not updated the run: the calculation is
refused, and the payslips that were approved are those from before. -/
theorem approved_run_frozen_recalculated :
    letI := Finance.crateFormats
    ∃ c d : Config (Fin 2) Db Lock AppError RunRow,
      (c.db.runs.find? 1).any (fun r => r.status = .approved) = true ∧ d.log.length = 2 ∧
      d.db.linesOf 1 = marchLines ∧ (part 1 c.db).Advances (part 1 d.db) := by
  let := Finance.crateFormats
  obtain ⟨c, d, hc, hd, happroved, hended⟩ := Reachable.of_play_twice
    (fun i => (recalculatedAndApproved i).body) calculatedDb
    (List.replicate 11 (.exec left) ++ Move.through right 2) [.exec left, .finish left]
    (fun c => (c.db.runs.find? 1).any fun r => r.status = .approved)
    (fun d => d.log.length = 2 && d.db.linesOf 1 = marchLines) (by decide +kernel)
  simp only [Bool.and_eq_true, decide_eq_true_eq] at hended
  exact ⟨c, d, happroved, hended.1, hended.2, (approved_run_frozen hc hd 1).1⟩

end Noxara.Payroll
