import Noxara.RecurringInvoices

/-! The dates of a recurring invoice against its first one. A date in a short month is cut off, and from then on the
template keeps to the day it was cut to. -/
namespace Noxara.Recurring

open Transaction
open Finance (Uuid Formats Date DateTime CreateInvoiceRequest canonicalFormats)

theorem passClock_gt {clock next : DateTime} (cadence : Cadence) {fuel : ℕ} (h : turns clock next ≤ fuel) :
    clock < passClock clock cadence fuel next := by
  have hpos : 0 < cadence.months := by cases cadence <;> decide
  induction fuel generalizing next with
  | zero =>
    rw [passClock, Finance.DateTime.lt_def, Finance.DateTime.key, Finance.DateTime.key]
    have hmonth : clock.date.monthIndex < next.date.monthIndex := by
      unfold turns at h
      omega
    have hclock := clock.date.valid
    have hnext := next.date.valid
    have hle := Finance.daysInMonth_le clock.date.year clock.date.month
    have htime := clock.valid
    rw [Date.ordinal_eq, Date.ordinal_eq]
    unfold Finance.nanosPerDay at *
    omega
  | succ fuel ih =>
    rw [passClock]
    split_ifs with hdue
    · refine ih ?_
      simp only [turns, advanceNextRun, Finance.DateTime.addMonths, Date.monthIndex_addMonths] at h ⊢
      omega
    · rw [Finance.DateTime.lt_def]
      rw [Finance.DateTime.le_def] at hdue
      omega

/-- The date of the schedule after `n` cadences. -/
def scheduled (first : DateTime) (cadence : Cadence) (n : ℕ) : DateTime := first.addMonths (cadence.months * n)

/-- The first date of the schedule after a point in time. -/
def OnSchedule (first : DateTime) (cadence : Cadence) (time next : DateTime) : Prop :=
  ∃ n, next = scheduled first cadence n ∧ time < next ∧
    ∀ m, time < scheduled first cadence m → next ≤ scheduled first cadence m

/-- No date of the schedule up to a point in time is cut off and followed by one in a longer month. -/
def Steady (first : DateTime) (cadence : Cadence) (time : DateTime) : Prop :=
  ∀ n, scheduled first cadence n ≤ time →
    first.date.day ≤ Date.monthLength (first.date.monthIndex + (cadence.months * n : ℕ)) ∨
      Date.monthLength (first.date.monthIndex + (cadence.months * n + cadence.months : ℕ)) ≤
        Date.monthLength (first.date.monthIndex + (cadence.months * n : ℕ))

section
variable {first time : DateTime} {cadence : Cadence}

theorem scheduled_zero (first : DateTime) (cadence : Cadence) : scheduled first cadence 0 = first := by
  simp [scheduled]

theorem scheduled_lt {m n : ℕ} (h : m < n) : scheduled first cadence m < scheduled first cadence n := by
  have hpos : 0 < cadence.months := by cases cadence <;> decide
  exact first.addMonths_lt (Nat.mul_lt_mul_of_pos_left h hpos)

theorem scheduled_le {m n : ℕ} (h : m ≤ n) : scheduled first cadence m ≤ scheduled first cadence n := by
  rcases Nat.eq_or_lt_of_le h with rfl | hlt
  · exact Int.le_refl _
  · exact Int.le_of_lt (scheduled_lt hlt)

/-- One advance goes on to the next date of the schedule, unless it goes from a day that was cut off to a longer
month. -/
theorem advance_scheduled (h : Steady first cadence time) {n : ℕ} (hn : scheduled first cadence n ≤ time) :
    advanceNextRun (scheduled first cadence n) cadence = scheduled first cadence (n + 1) := by
  rw [scheduled, advanceNextRun, (Finance.DateTime.addMonths_addMonths_iff ..).mpr (h n hn), scheduled, Nat.mul_succ]

/-- The loop stops at a date of the schedule, all dates before which have passed. -/
theorem passClock_scheduled (h : Steady first cadence time) (fuel n : ℕ)
    (hbefore : ∀ m < n, scheduled first cadence m ≤ time) :
    ∃ k, passClock time cadence fuel (scheduled first cadence n) = scheduled first cadence k ∧
      ∀ m < k, scheduled first cadence m ≤ time := by
  induction fuel generalizing n with
  | zero => exact ⟨n, rfl, hbefore⟩
  | succ fuel ih =>
    rw [passClock]
    split_ifs with hdue
    · rw [advance_scheduled h hdue]
      refine ih (n + 1) fun m hm => ?_
      rcases Nat.lt_succ_iff_lt_or_eq.mp hm with hm | rfl
      · exact hbefore m hm
      · exact hdue
    · exact ⟨n, rfl, hbefore⟩

theorem onSchedule_of_before {n : ℕ} (hbefore : ∀ m < n, scheduled first cadence m ≤ time)
    (hafter : time < scheduled first cadence n) : OnSchedule first cadence time (scheduled first cadence n) := by
  refine ⟨n, rfl, hafter, fun m hm => ?_⟩
  by_cases hlt : m < n
  · have hle := hbefore m hlt
    rw [Finance.DateTime.le_def] at hle
    rw [Finance.DateTime.lt_def] at hm
    omega
  · exact scheduled_le (Nat.le_of_not_lt hlt)

theorem OnSchedule.passed {next : DateTime} (h : OnSchedule first cadence time next) :
    ∃ n, next = scheduled first cadence n ∧ ∀ m < n, scheduled first cadence m ≤ time := by
  obtain ⟨n, rfl, _, hleast⟩ := h
  refine ⟨n, rfl, fun m hm => ?_⟩
  have hlt : scheduled first cadence m < scheduled first cadence n := scheduled_lt hm
  by_cases hle : scheduled first cadence m ≤ time
  · exact hle
  · rw [Finance.DateTime.le_def] at hle
    have hback := hleast m (by
      rw [Finance.DateTime.lt_def]
      omega)
    rw [Finance.DateTime.le_def] at hback
    rw [Finance.DateTime.lt_def] at hlt
    omega

/-- A date of the schedule that has come is moved to the first one after the clock. -/
theorem nextAfter_onSchedule (h : Steady first cadence time) {n : ℕ} (hn : scheduled first cadence n ≤ time) :
    OnSchedule first cadence time (nextAfter time cadence (scheduled first cadence n)) := by
  have hbefore : ∀ m < n + 1, scheduled first cadence m ≤ time := by
    intro m hm
    have hle : scheduled first cadence m ≤ scheduled first cadence n := scheduled_le (Nat.le_of_lt_succ hm)
    rw [Finance.DateTime.le_def] at hle hn ⊢
    omega
  have hgt := passClock_gt cadence (Nat.le_refl (turns time (scheduled first cadence (n + 1))))
  obtain ⟨k, hk, hall⟩ := passClock_scheduled h (turns time (scheduled first cadence (n + 1))) (n + 1) hbefore
  rw [nextAfter, advance_scheduled h hn]
  rw [hk] at hgt ⊢
  exact onSchedule_of_before hall hgt

end

def RecurringRow.handled (op : RunDue) (id : Uuid) (row : RecurringRow) : RecurringRow :=
  match row.template with
  | .error _ => row
  | .ok template =>
    if template.lines = [] then row
    else row.advance (nextAfter (op.clock id) row.cadence row.nextRunAt) (op.invoiceId id)

theorem handled_of_lines (op : RunDue) {id : Uuid} {row : RecurringRow} {template : CreateInvoiceRequest}
    (htemplate : row.template = .ok template)
    (hlines : template.lines ≠ []) :
    row.handled op id = row.advance (nextAfter (op.clock id) row.cadence row.nextRunAt) (op.invoiceId id) := by
  unfold RecurringRow.handled
  rw [htemplate]
  exact if_neg hlines

theorem run_onFinance {α : Type} (p : Finance.Tx α) (s : Db) :
    (onFinance p).run s = (p.run s.finance).map fun r => (r.1, { s with finance := r.2 }) := by
  unfold onFinance
  refine Prog.run_zoom ?_ ?_ ?_ p s <;> intros <;> rfl

/-- What is done to the other tables leaves the templates. -/
theorem run_onFinance_bind_ok {α β : Type} {p : Finance.Tx α} {f : α → Tx β} {s : Db} {r : β × Db} :
    (onFinance p >>= f).run s = .ok r ↔
      ∃ a db, p.run s.finance = .ok (a, db) ∧ (f a).run { s with finance := db } = .ok r := by
  rw [Prog.run_bind, run_onFinance]
  cases p.run s.finance with
  | error e => simp [Except.map, Except.bind]
  | ok x =>
    constructor
    · exact fun h => ⟨x.1, x.2, rfl, h⟩
    · rintro ⟨a, db, hx, h⟩
      cases hx
      exact h

section
variable [Formats] {op : RunDue}

theorem insertDraftLines_ok {id : Uuid} {lines : List (Finance.InvoiceLineInput × Finance.LineTotals)} {position : ℕ}
    {s t : Db} {u : Unit} (h : (insertDraftLines op id position lines).run s = .ok (u, t)) :
    t.recurring = s.recurring := by
  induction lines generalizing position s with
  | nil =>
    cases h
    rfl
  | cons line lines ih =>
    obtain ⟨_, _, _, hrest⟩ := run_onFinance_bind_ok.mp h
    have hsame := ih hrest
    exact hsame

theorem createDraft_ok {id : Uuid} {row : RecurringRow} {template : CreateInvoiceRequest}
    {computed : List Finance.LineTotals} {doc : Finance.DocumentTotals} {s t : Db} {a : Option String}
    (h : (createDraft op id row template computed doc).run s = .ok (a, t)) :
    t.recurring = s.recurring.modify id
      (RecurringRow.advance (nextAfter (op.clock id) row.cadence row.nextRunAt) (op.invoiceId id)) := by
  obtain ⟨_, _, _, hlines⟩ := run_onFinance_bind_ok.mp h
  obtain ⟨_, u, hdone, hrest⟩ := Prog.run_bind_ok.mp hlines
  have hsame := insertDraftLines_ok hdone
  simp only [updateRecurring, insertEvent, Prog.run_execute_bind_ok, true_and] at hrest
  cases hrest
  exact congrArg (Table.modify · id _) hsame

theorem runTemplate_ok {id : Uuid} {row : RecurringRow} {s t : Db} {a : Option String}
    (hrow : s.recurring.find? id = some row) (h : (runTemplate op id row).run s = .ok (a, t)) :
    t.recurring.find? id = some (row.handled op id) ∧
      ∀ j, j ≠ id → t.recurring.find? j = s.recurring.find? j := by
  obtain ⟨template, _, htemplate, h⟩ := run_onFinance_bind_ok.mp h
  rw [Finance.run_lift_ok, Finance.mapError_ok] at htemplate
  obtain ⟨currency, _, _, h⟩ := run_onFinance_bind_ok.mp h
  unfold RecurringRow.handled
  rw [htemplate.1]
  dsimp only
  split_ifs at h ⊢ with hlines
  · cases h
    exact ⟨hrow, fun _ _ => rfl⟩
  · obtain ⟨⟨computed, doc⟩, _, _, h⟩ := run_onFinance_bind_ok.mp h
    have hdone := createDraft_ok h
    rw [hdone]
    refine ⟨?_, fun j hj => Table.find?_modify_ne _ _ hj⟩
    rw [Table.find?_modify_self]
    exact congrArg (Option.map _) hrow

theorem runTemplates_ok {due : List (Uuid × RecurringRow)} (hkeys : (due.map Prod.fst).Nodup) {s t : Db}
    {created : List String} (hdue : ∀ x ∈ due, s.recurring.find? x.1 = some x.2)
    (h : (runTemplates op due).run s = .ok (created, t)) :
    (∀ x ∈ due, t.recurring.find? x.1 = some (x.2.handled op x.1)) ∧
      ∀ j, j ∉ due.map Prod.fst → t.recurring.find? j = s.recurring.find? j := by
  induction due generalizing s created with
  | nil =>
    cases h
    simp
  | cons x due ih =>
    obtain ⟨id, row⟩ := x
    obtain ⟨a, u, hone, hrest⟩ := Prog.run_bind_ok.mp h
    obtain ⟨more, v, hmore, hlast⟩ := Prog.run_bind_ok.mp hrest
    cases hlast
    obtain ⟨hnot, hkeys⟩ := List.nodup_cons.mp hkeys
    obtain ⟨hself, hothers⟩ := runTemplate_ok (hdue (id, row) (List.mem_cons_self ..)) hone
    have hstill : ∀ x ∈ due, u.recurring.find? x.1 = some x.2 := by
      intro x hx
      have hne : x.1 ≠ id := by
        intro he
        exact hnot (List.mem_map.mpr ⟨x, hx, he⟩)
      rw [hothers x.1 hne]
      exact hdue x (List.mem_cons_of_mem _ hx)
    obtain ⟨hhandled, hkept⟩ := ih hkeys hstill hmore
    constructor
    · intro x hx
      rcases List.mem_cons.mp hx with rfl | hx
      · rw [hkept _ hnot]
        exact hself
      · exact hhandled x hx
    · intro j hj
      rw [List.map_cons, List.mem_cons, not_or] at hj
      rw [hkept j hj.2, hothers j hj.1]

theorem runDue_ok {s t : Db} {resp : RunDueResponse} (h : (runDue op).run s = .ok (resp, t)) {id : Uuid}
    {row : RecurringRow} (hrow : s.recurring.find? id = some row) : t.recurring.find? id =
      some (if row.active ∧ row.nextRunAt ≤ op.now then row.handled op id else row) := by
  obtain ⟨_, _, _, h⟩ := run_onFinance_bind_ok.mp h
  obtain ⟨_, db, _, h⟩ := run_onFinance_bind_ok.mp h
  rw [selectDue, Prog.run_queryForUpdate_bind] at h
  obtain ⟨created, u, hrun, hlast⟩ := Prog.run_bind_ok.mp h
  cases hlast
  have hmem : ∀ x, x ∈ s.due op.now ↔ s.recurring.find? x.1 = some x.2 ∧ x.2.active ∧
      x.2.nextRunAt ≤ op.now := by
    intro x
    simp [Db.due, Table.find?_eq_some]
  have hkeys : ((s.due op.now).map Prod.fst).Nodup := by
    have hsub := (List.filter_sublist (p := fun r : Uuid × RecurringRow =>
      decide (r.2.active ∧ r.2.nextRunAt ≤ op.now)) (l := s.recurring.rows)).map Prod.fst
    exact ((List.mergeSort_perm _ _).map Prod.fst).nodup_iff.mpr (hsub.nodup s.recurring.nodup)
  obtain ⟨hhandled, hkept⟩ :=
    runTemplates_ok (s := { s with finance := db }) hkeys (fun x hx => ((hmem x).mp hx).1) hrun
  split_ifs with hdue
  · exact hhandled (id, row) ((hmem (id, row)).mpr ⟨hrow, hdue⟩)
  · rw [hkept id]
    · exact hrow
    · intro hin
      obtain ⟨x, hx, rfl⟩ := List.mem_map.mp hin
      obtain ⟨hfind, hactive⟩ := (hmem x).mp hx
      rw [hrow] at hfind
      rw [← Option.some.inj hfind] at hactive
      exact hdue hactive

end

/-- Each execution starts after those before it have handled the template. -/
def InOrder (id : Uuid) (steps : List (Db × RunDue)) : Prop := steps.Pairwise fun x y => x.2.clock id ≤ y.2.now

instance (id : Uuid) (steps : List (Db × RunDue)) : Decidable (InOrder id steps) :=
  inferInstanceAs (Decidable (steps.Pairwise fun x y => x.2.clock id ≤ y.2.now))

/-- The row is still the template of `first`, moved on to the first date of its schedule that no execution of `steps`
has passed. -/
structure Follows (id : Uuid) (first row : RecurringRow) (steps : List (Db × RunDue)) : Prop where
  active : row.active = first.active
  cadence : row.cadence = first.cadence
  template : row.template = first.template
  next : ∃ n, row.nextRunAt = scheduled first.nextRunAt first.cadence n ∧
    ∀ m < n, ∃ x ∈ steps, scheduled first.nextRunAt first.cadence m ≤ x.2.clock id

theorem Follows.step {id : Uuid} {first row : RecurringRow} {template : CreateInvoiceRequest}
    {steps : List (Db × RunDue)} (h : Follows id first row steps) (hactive : first.active = true)
    (htemplate : first.template = .ok template) (hlines : template.lines ≠ []) {x : Db × RunDue}
    (horder : ∀ y ∈ steps, y.2.clock id ≤ x.2.now)
    (hsteady : Steady first.nextRunAt first.cadence (x.2.clock id)) :
    ∃ τ, x.2.now ≤ τ ∧ τ ≤ x.2.clock id ∧
      OnSchedule first.nextRunAt first.cadence τ
        (if row.active ∧ row.nextRunAt ≤ x.2.now then row.handled x.2 id else row).nextRunAt ∧
      Follows id first (if row.active ∧ row.nextRunAt ≤ x.2.now then row.handled x.2 id else row)
        (steps ++ [x]) := by
  obtain ⟨n, hn, hpassed⟩ := h.next
  have hclock := x.2.clock_le id
  rw [Finance.DateTime.le_def] at hclock
  by_cases hdue : row.nextRunAt ≤ x.2.now
  · rw [if_pos ⟨h.active.trans hactive, hdue⟩, handled_of_lines x.2 (h.template.trans htemplate) hlines]
    have hcome : scheduled first.nextRunAt first.cadence n ≤ x.2.clock id := by
      rw [hn, Finance.DateTime.le_def] at hdue
      rw [Finance.DateTime.le_def]
      omega
    have hon : OnSchedule first.nextRunAt first.cadence (x.2.clock id)
        (nextAfter (x.2.clock id) row.cadence row.nextRunAt) := by
      rw [hn, h.cadence]
      exact nextAfter_onSchedule hsteady hcome
    obtain ⟨k, hk, hbefore⟩ := hon.passed
    exact ⟨x.2.clock id, x.2.clock_le id, Int.le_refl _, hon, h.active, h.cadence, h.template, k, hk,
      fun m hm => ⟨x, by simp, hbefore m hm⟩⟩
  · rw [if_neg fun hc => hdue hc.2]
    refine ⟨x.2.now, Int.le_refl _, x.2.clock_le id, ?_, h.active, h.cadence, h.template, n, hn, fun m hm => ?_⟩
    · rw [hn] at hdue ⊢
      refine onSchedule_of_before (fun m hm => ?_) ?_
      · obtain ⟨y, hy, hle⟩ := hpassed m hm
        have hbefore := horder y hy
        rw [Finance.DateTime.le_def] at hle hbefore ⊢
        omega
      · rw [Finance.DateTime.le_def] at hdue
        rw [Finance.DateTime.lt_def]
        omega
    · obtain ⟨y, hy, hle⟩ := hpassed m hm
      exact ⟨y, List.mem_append_left _ hy, hle⟩

section
variable [Formats] {s t : Db} {steps : List (Db × RunDue)} {id : Uuid} {first : RecurringRow}
  {template : CreateInvoiceRequest}

theorem runs_follows (hruns : Runs runDue s steps t) (hfirst : s.recurring.find? id = some first)
    (hactive : first.active = true) (htemplate : first.template = .ok template) (hlines : template.lines ≠ [])
    (horder : InOrder id steps)
    (hsteady : ∀ x ∈ steps, Steady first.nextRunAt first.cadence (x.2.clock id)) :
    ∃ row, t.recurring.find? id = some row ∧ Follows id first row steps ∧
      ∀ x, steps.getLast? = some x → ∃ τ, x.2.now ≤ τ ∧ τ ≤ x.2.clock id ∧
        OnSchedule first.nextRunAt first.cadence τ row.nextRunAt := by
  induction hruns with
  | nil =>
    refine ⟨first, hfirst, ⟨rfl, rfl, rfl, 0, (scheduled_zero _ _).symm,
      fun m hm => absurd hm (Nat.not_lt_zero m)⟩, ?_⟩
    intro x hx
    cases hx
  | @step t u steps o a prior run ih =>
    have hsplit := List.pairwise_append.mp horder
    obtain ⟨row, hrow, hfollows, _⟩ := ih hsplit.1 fun x hx => hsteady x (List.mem_append_left _ hx)
    obtain ⟨τ, hnow, hclock, hon, hnext⟩ := hfollows.step hactive htemplate hlines (x := (t, o))
      (fun y hy => hsplit.2.2 y hy (t, o) (List.mem_singleton_self _))
      (hsteady (t, o) (List.mem_append_right _ (List.mem_singleton_self _)))
    refine ⟨_, runDue_ok run hrow, hnext, fun x hx => ?_⟩
    rw [List.getLast?_concat] at hx
    cases hx
    exact ⟨τ, hnow, hclock, hon⟩

/-- After every execution an active template with lines is at the first date of its schedule after that execution,
if no date of the schedule up to then is cut off and followed by one in a longer month. -/
theorem recurring_on_schedule (hruns : Runs runDue s steps t) (hfirst : s.recurring.find? id = some first)
    (hactive : first.active = true) (htemplate : first.template = .ok template) (hlines : template.lines ≠ [])
    (horder : InOrder id steps) (hsteady : ∀ x ∈ steps, Steady first.nextRunAt first.cadence (x.2.clock id))
    {x : Db × RunDue} (hlast : steps.getLast? = some x) :
    ∃ row τ, t.recurring.find? id = some row ∧ x.2.now ≤ τ ∧ τ ≤ x.2.clock id ∧
      OnSchedule first.nextRunAt first.cadence τ row.nextRunAt := by
  obtain ⟨row, hrow, _, hon⟩ := runs_follows hruns hfirst hactive htemplate hlines horder hsteady
  obtain ⟨τ, hnow, hclock, hschedule⟩ := hon x hlast
  exact ⟨row, τ, hrow, hnow, hclock, hschedule⟩

end

def tenOClock (date : Date) : DateTime := ⟨date, 36000000000000, by decide⟩

/-- A monthly template of one line, whose first date is given. -/
def templateRow (first : Date) : RecurringRow where
  publicId := "rci_1"
  customerId := 2
  ownerUserId := 3
  cadence := .monthly
  nextRunAt := tenOClock first
  active := true
  template := .ok { customerId := "cus_2", currency := "USD", lines := [⟨"Retainer", 1, 10000, 0, 0, none, none⟩] }
  lastInvoiceId := none

def oneTemplate (first : Date) : Db where
  finance := .empty
  recurring := Table.empty.insert 1 (templateRow first)
  outbox := []

/-- Execution number `n`, at eleven in the morning of a day. -/
def executionAt (n : ℕ) (date : Date) : RunDue where
  authorize := .ok ()
  now := ⟨date, 39600000000000, by decide⟩
  clock _ := ⟨date, 39600000000000, by decide⟩
  clock_le _ := Int.le_refl _
  invoiceId _ := 100 * n
  lineId _ k := 100 * n + k

def january31 : Date := ⟨2026, 1, 31, by decide⟩

def februaryFirst : Date := ⟨2026, 2, 1, by decide⟩

def marchFirst : Date := ⟨2026, 3, 1, by decide⟩

/-- From January 31 the template goes to February 28 and then to March 28, which is no date of its schedule. -/
theorem recurring_drifts :
    letI := canonicalFormats
    ∃ (steps : List (Db × RunDue)) (t : Db), Runs runDue (oneTemplate january31) steps t ∧
      steps.map (fun x => x.2.now.date) = [februaryFirst, marchFirst] ∧ InOrder 1 steps ∧
      ∃ row, t.recurring.find? 1 = some row ∧ row.nextRunAt = tenOClock ⟨2026, 3, 28, by decide⟩ ∧
        ∀ τ, ¬OnSchedule (tenOClock january31) .monthly τ row.nextRunAt := by
  let := canonicalFormats
  have hplay := Runs.of_play runDue [executionAt 1 februaryFirst, executionAt 2 marchFirst] (oneTemplate january31)
    (fun steps t => Decidable.decide (steps.map (fun x => x.2.now.date) = [februaryFirst, marchFirst]) &&
      Decidable.decide (InOrder 1 steps) &&
      (t.recurring.find? 1).any fun row => row.nextRunAt = tenOClock ⟨2026, 3, 28, by decide⟩)
    (by decide +kernel)
  obtain ⟨steps, t, hruns, hP⟩ := hplay
  simp only [Bool.and_eq_true, decide_eq_true_eq, Option.any_eq_true] at hP
  obtain ⟨⟨hdates, horder⟩, row, hrow, hnext⟩ := hP
  refine ⟨steps, t, hruns, hdates, horder, row, hrow, hnext, ?_⟩
  rintro τ ⟨n, hn, -⟩
  rw [hnext] at hn
  have hmonth := congrArg (fun d : DateTime => d.date.monthIndex) hn
  have hday := congrArg (fun d : DateTime => d.date.day) hn
  simp only [scheduled, DateTime.addMonths, Date.monthIndex_addMonths, Date.day_addMonths, Cadence.months, one_mul]
    at hmonth hday
  have hn2 : n = 2 := by
    have hleft : (tenOClock ⟨2026, 3, 28, by decide⟩).date.monthIndex = 24314 := by decide
    have hright : (tenOClock january31).date.monthIndex = 24312 := by decide
    rw [hleft, hright] at hmonth
    omega
  subst hn2
  exact absurd hday (by decide)

/-- From January 15 the same executions keep the schedule. -/
theorem recurring_on_schedule_middle :
    letI := canonicalFormats
    ∃ (steps : List (Db × RunDue)) (t : Db), Runs runDue (oneTemplate ⟨2026, 1, 15, by decide⟩) steps t ∧
      steps.map (fun x => x.2.now.date) = [februaryFirst, marchFirst] ∧
      ∃ row τ, t.recurring.find? 1 = some row ∧
        OnSchedule (tenOClock ⟨2026, 1, 15, by decide⟩) .monthly τ row.nextRunAt := by
  let := canonicalFormats
  have hplay := Runs.of_play runDue [executionAt 1 februaryFirst, executionAt 2 marchFirst]
    (oneTemplate ⟨2026, 1, 15, by decide⟩)
    (fun steps _ => Decidable.decide (steps.map (fun x => x.2.now.date) = [februaryFirst, marchFirst]) &&
      Decidable.decide (InOrder 1 steps))
    (by decide +kernel)
  obtain ⟨steps, t, hruns, hP⟩ := hplay
  simp only [Bool.and_eq_true, decide_eq_true_eq] at hP
  obtain ⟨hdates, horder⟩ := hP
  have hlast : steps.getLast?.isSome = true := by
    rw [List.getLast?_isSome]
    rintro rfl
    cases hdates
  obtain ⟨x, hx⟩ := Option.isSome_iff_exists.mp hlast
  have hsteady : ∀ time, Steady (tenOClock ⟨2026, 1, 15, by decide⟩) .monthly time := by
    intro time n _
    left
    have hlong : ∀ m : Int, 28 ≤ Date.monthLength m := by
      intro m
      unfold Date.monthLength Finance.daysInMonth
      split_ifs <;> omega
    have hfifteen : (tenOClock ⟨2026, 1, 15, by decide⟩).date.day = 15 := rfl
    rw [hfifteen]
    exact le_trans (by decide) (hlong _)
  have hfirst : (oneTemplate ⟨2026, 1, 15, by decide⟩).recurring.find? 1 =
      some (templateRow ⟨2026, 1, 15, by decide⟩) := Table.find?_insert_self rfl _
  obtain ⟨row, τ, hrow, _, _, hon⟩ := recurring_on_schedule hruns hfirst rfl rfl (by simp) horder
    (fun x _ => hsteady (x.2.clock 1)) hx
  exact ⟨steps, t, hruns, hdates, row, τ, hrow, hon⟩

end Noxara.Recurring
