import Noxara.IntervalCovers
import Noxara.LeaveDurations
import Noxara.LeaveLedgers
import Noxara.PayrollHandlers

/-! Unpaid leave on payslips: what the query of one pay period adds up, and what one period after another deducts. -/
namespace Noxara.Payroll
open Finance (Uuid Timestamp Date i32Max i64Min i64Max naiveDateMax saturateI64)
open Intervals
open Leave (LeaveCategory RequestStatus)

/-- A row of `people_leave_request`: its table checks the order of its dates, and `create_leave_request` refuses
a duration that is not positive. -/
structure LeaveRequestRow where
  employeeId : Uuid
  leaveTypeId : Uuid
  status : RequestStatus
  startDate : Date
  endDate : Date
  unitsMilli : Int
  deletedAt : Option Timestamp
  ordered : startDate ≤ endDate
  positive : 0 < unitsMilli

/-- The leave requests of an organization, and the category of each of its leave types. -/
structure LeaveTables where
  requests : List LeaveRequestRow
  category : Uuid → Option LeaveCategory

/-- The first conditions of the query, which the period has no part in. -/
def LeaveTables.Deductible (t : LeaveTables) (employeeId : Uuid) (r : LeaveRequestRow) : Prop :=
  r.employeeId = employeeId ∧ r.deletedAt = none ∧ r.status = .approved ∧ t.category r.leaveTypeId = some .unpaid

instance (t : LeaveTables) (employeeId : Uuid) (r : LeaveRequestRow) : Decidable (t.Deductible employeeId r) :=
  inferInstanceAs (Decidable (_ ∧ _))

def unpaidLeaveMilli (t : LeaveTables) (employeeId : Uuid) (periodStart periodEnd : Date) : Int :=
  let rows := t.requests.filter fun r =>
    t.Deductible employeeId r ∧ r.startDate ≤ periodEnd ∧ periodStart ≤ r.endDate
  max 0 (min i32Max (rows.map (·.unitsMilli)).sum)

structure PayPeriod where
  start : Date
  stop : Date
  ordered : start ≤ stop

def PayPeriod.weekdays (p : PayPeriod) : ℕ := Date.countWeekdays p.start p.stop

/-- `calculate_run` refuses a period without weekdays, and panics on one that ends with the calendar. -/
def PayPeriod.Calculated (p : PayPeriod) : Prop := p.stop < naiveDateMax ∧ p.weekdays ≠ 0

/-- One after another, without a day in common. -/
def ConsecutivePeriods (periods : List PayPeriod) : Prop := periods.Pairwise fun p q => p.stop < q.start

def CoversRequest (periods : List PayPeriod) (r : LeaveRequestRow) : Prop :=
  ∀ d, r.startDate ≤ d → d ≤ r.endDate → ∃ p ∈ periods, p.start ≤ d ∧ d ≤ p.stop

section
variable (t : LeaveTables) (employeeId : Uuid)

/-- The approved unpaid requests of an employee. -/
def LeaveTables.deductible : List LeaveRequestRow := t.requests.filter fun r => t.Deductible employeeId r

/-- The units of the requests with a day in the period, however long. -/
def LeaveTables.booked (p : PayPeriod) : Int :=
  (((t.deductible employeeId).filter fun r => r.startDate ≤ p.stop ∧ p.start ≤ r.endDate).map (·.unitsMilli)).sum

theorem unpaidLeaveMilli_eq (p : PayPeriod) :
    unpaidLeaveMilli t employeeId p.start p.stop = max 0 (min i32Max (t.booked employeeId p)) := by
  unfold unpaidLeaveMilli LeaveTables.booked LeaveTables.deductible
  rw [List.filter_filter]
  simp only [Bool.decide_and, Bool.and_comm]

/-- The unpaid leave of an employee is deducted once over the periods, no period deducts more than its weekdays,
and so none that is calculated deducts more than its salary. -/
structure DeductedOnce (salary : PayPeriod → Int) (periods : List PayPeriod) : Prop where
  total : (periods.map fun p => unpaidLeaveMilli t employeeId p.start p.stop).sum =
    ((t.deductible employeeId).map (·.unitsMilli)).sum
  weekdays : ∀ p ∈ periods, unpaidLeaveMilli t employeeId p.start p.stop ≤ 1000 * p.weekdays
  salary : ∀ p ∈ periods, p.Calculated → ∀ comp, comp.calcMethod = .unpaidLeaveProration →
    ∀ otHoursMilli,
    computeLineAmount comp (salary p) (unpaidLeaveMilli t employeeId p.start p.stop) p.weekdays otHoursMilli ≤
      salary p

/-- How many of the periods begin after the first day of the request and not after its last. -/
def furtherPeriods (periods : List PayPeriod) (r : LeaveRequestRow) : ℕ :=
  periods.countP fun p => r.startDate < p.start ∧ p.start ≤ r.endDate

/-- The units that further periods count again are as many as those that do not fit a period's word (where all
fit, no period begins within a request); the requests with a day in a period book no more than its weekdays, unless
these fill the word; and a salary is not negative, or the requests take all the weekdays of the period. -/
structure BooksOnce (salary : PayPeriod → Int) (periods : List PayPeriod) : Prop where
  once : ((t.deductible employeeId).map fun r => r.unitsMilli * furtherPeriods periods r).sum =
    (periods.map fun p => max 0 (t.booked employeeId p - i32Max)).sum
  weekdays : ∀ p ∈ periods, t.booked employeeId p ≤ 1000 * p.weekdays ∨ i32Max ≤ 1000 * (p.weekdays : Int)
  salary : ∀ p ∈ periods, p.Calculated → 0 ≤ salary p ∨
    1000 * (p.weekdays : Int) ≤ i32Max ∧ 1000 * (p.weekdays : Int) ≤ t.booked employeeId p ∧
      i64Min ≤ salary p * (1000 * p.weekdays)

end

def LeaveRequestRow.interval (r : LeaveRequestRow) : Stretch ℤ :=
    ⟨r.startDate.ordinal, r.endDate.ordinal, r.ordered⟩

def PayPeriod.interval (p : PayPeriod) : Stretch ℤ := ⟨p.start.ordinal, p.stop.ordinal, p.ordered⟩

variable {t : LeaveTables} {employeeId : Uuid} {periods : List PayPeriod} {salary : PayPeriod → Int}

theorem booked_eq (p : PayPeriod) :
    t.booked employeeId p =
      weightAt LeaveRequestRow.interval (·.unitsMilli) (t.deductible employeeId) p.interval := rfl

theorem furtherPeriods_eq (periods : List PayPeriod) (r : LeaveRequestRow) :
    furtherPeriods periods r = furtherCells (periods.map (·.interval)) r.interval := by
  unfold furtherPeriods furtherCells
  rw [List.countP_map]
  rfl

theorem booked_nonneg (p : PayPeriod) : 0 ≤ t.booked employeeId p := by
  rw [booked_eq]
  exact weightAt_nonneg (fun r _ => r.positive.le) _

theorem sum_booked (hconsecutive : ConsecutivePeriods periods)
    (hcovers : ∀ r ∈ t.deductible employeeId, CoversRequest periods r) :
    (periods.map (t.booked employeeId)).sum = ((t.deductible employeeId).map (·.unitsMilli)).sum +
      ((t.deductible employeeId).map fun r => r.unitsMilli * furtherPeriods periods r).sum := by
  have hcells : Consecutive (periods.map (·.interval)) := List.pairwise_map.mpr hconsecutive
  have hcover : ∀ r ∈ t.deductible employeeId, ∃ c ∈ periods.map (·.interval),
      c.Contains r.interval.start := by
    intro r hr
    obtain ⟨p, hp, hd⟩ := hcovers r hr r.startDate (Int.le_refl _) r.ordered
    exact ⟨p.interval, List.mem_map_of_mem hp, hd⟩
  have hsum : ((periods.map (·.interval)).map
      (weightAt LeaveRequestRow.interval (fun r => r.unitsMilli) (t.deductible employeeId))).sum = _ :=
    sum_weightAt hcells hcover
  rw [List.map_map] at hsum
  simp only [furtherPeriods_eq]
  exact hsum

/-- What the payslips deduct is what the periods book, less what does not fit a word. -/
theorem sum_unpaidLeaveMilli (periods : List PayPeriod) :
    (periods.map fun p => unpaidLeaveMilli t employeeId p.start p.stop).sum =
      (periods.map (t.booked employeeId)).sum -
        (periods.map fun p => max 0 (t.booked employeeId p - i32Max)).sum := by
  induction periods with
  | nil => rfl
  | cons p periods ih =>
    have hp := unpaidLeaveMilli_eq t employeeId p
    have hnonneg : 0 ≤ t.booked employeeId p := booked_nonneg p
    have hmax : 0 ≤ i32Max := by decide
    rw [List.map_cons, List.map_cons, List.map_cons, List.sum_cons, List.sum_cons, List.sum_cons, ih, hp]
    omega

theorem unpaidLeaveMilli_of_nonneg (p : PayPeriod) :
    unpaidLeaveMilli t employeeId p.start p.stop = min i32Max (t.booked employeeId p) := by
  have hnonneg : 0 ≤ t.booked employeeId p := booked_nonneg p
  have hmax : 0 ≤ i32Max := by decide
  rw [unpaidLeaveMilli_eq]
  omega

def prorated (salary unpaidMilli workingDays : Int) : Int :=
  (saturatingMul salary unpaidMilli).tdiv (workingDays * 1000)

theorem computeLineAmount_proration {comp : ComponentRow} (h : comp.calcMethod = .unpaidLeaveProration)
    {workingDays : Int} (hdays : 0 < workingDays) (salary unpaidMilli otHoursMilli : Int) :
    computeLineAmount comp salary unpaidMilli workingDays otHoursMilli = prorated salary unpaidMilli workingDays := by
  unfold computeLineAmount prorated
  simp only [h]
  rw [if_pos (by omega)]

/-- Leave of no more than the weekdays deducts no more than the salary, unless that is negative: such a salary is
deducted whole or not enough. -/
theorem prorated_le_iff {unpaid days : Int} (s : Int) (hdays : 0 < days) (hunpaid : 0 ≤ unpaid)
    (hfits : unpaid ≤ 1000 * days) :
    prorated s unpaid days ≤ s ↔ 0 ≤ s ∨ 1000 * days ≤ unpaid ∧ i64Min ≤ s * (1000 * days) := by
  have hdenom : 0 < days * 1000 := by omega
  have hmin : i64Min < 0 := by decide
  have hmax : 0 < i64Max := by decide
  have hcomm : 1000 * days = days * 1000 := mul_comm 1000 days
  rw [hcomm] at hfits ⊢
  unfold prorated saturatingMul saturateI64
  rcases le_or_gt 0 s with hs | hs
  · have hprod : 0 ≤ s * unpaid := mul_nonneg hs hunpaid
    have hle : s * unpaid ≤ s * (days * 1000) := mul_le_mul_of_nonneg_left hfits hs
    have hclamp : 0 ≤ max i64Min (min i64Max (s * unpaid)) := by omega
    rw [Int.tdiv_eq_ediv_of_nonneg hclamp]
    exact iff_of_true (Int.ediv_le_of_le_mul hdenom (by omega)) (Or.inl hs)
  · have hprod : s * unpaid ≤ 0 := mul_nonpos_of_nonpos_of_nonneg hs.le hunpaid
    have hclamp : max i64Min (min i64Max (s * unpaid)) = -(-max i64Min (s * unpaid)) := by omega
    have hneg : 0 ≤ -max i64Min (s * unpaid) := by omega
    have hwhole : s * unpaid ≤ s * (days * 1000) ↔ days * 1000 ≤ unpaid := mul_le_mul_left_of_neg hs
    have hquot : -s ≤ -max i64Min (s * unpaid) / (days * 1000) ↔ -s * (days * 1000) ≤ -max i64Min (s * unpaid) :=
      Int.le_ediv_iff_mul_le hdenom
    rw [hclamp, Int.neg_tdiv, Int.tdiv_eq_ediv_of_nonneg hneg, ← hwhole]
    have hnegmul : -s * (days * 1000) = -(s * (days * 1000)) := neg_mul s _
    constructor
    · intro hle
      have hbound := hquot.mp (by omega)
      exact Or.inr (by omega)
    · rintro (hle | ⟨hfull, hfits⟩)
      · exact absurd hle (not_le.mpr hs)
      · have hbound := hquot.mpr (by omega)
        omega

theorem weekdays_covered_iff {p : PayPeriod} : unpaidLeaveMilli t employeeId p.start p.stop ≤ 1000 * p.weekdays ↔
    t.booked employeeId p ≤ 1000 * p.weekdays ∨ i32Max ≤ 1000 * (p.weekdays : Int) := by
  rw [unpaidLeaveMilli_of_nonneg, min_le_iff, or_comm]

theorem salary_covered_iff {p : PayPeriod} (hfits : unpaidLeaveMilli t employeeId p.start p.stop ≤ 1000 * p.weekdays)
    (hdays : p.weekdays ≠ 0) :
    (∀ comp, comp.calcMethod = .unpaidLeaveProration → ∀ otHoursMilli, computeLineAmount comp (salary p)
        (unpaidLeaveMilli t employeeId p.start p.stop) p.weekdays otHoursMilli ≤ salary p) ↔
      0 ≤ salary p ∨
        1000 * (p.weekdays : Int) ≤ i32Max ∧ 1000 * (p.weekdays : Int) ≤ t.booked employeeId p ∧
          i64Min ≤ salary p * (1000 * p.weekdays) := by
  have hpos : 0 < (p.weekdays : Int) := by omega
  have hnonneg : 0 ≤ unpaidLeaveMilli t employeeId p.start p.stop := le_max_left ..
  rw [← and_assoc, ← le_min_iff, ← unpaidLeaveMilli_of_nonneg, ← prorated_le_iff (salary p) hpos hnonneg hfits]
  constructor
  · intro h
    have hamount := h ⟨"", "", .deduction, .unpaidLeaveProration, .null, 0⟩ rfl 0
    rwa [computeLineAmount_proration rfl hpos] at hamount
  · intro h comp hcomp otHoursMilli
    rwa [computeLineAmount_proration hcomp hpos]

/-- The payslips of consecutive periods deduct the unpaid leave of an employee once exactly where the requests are
booked once. -/
theorem unpaid_leave_deducted_iff (hconsecutive : ConsecutivePeriods periods)
    (hcovers : ∀ r ∈ t.deductible employeeId, CoversRequest periods r) (salary : PayPeriod → Int) :
    DeductedOnce t employeeId salary periods ↔ BooksOnce t employeeId salary periods := by
  have hsum := sum_booked hconsecutive hcovers
  have hcut : (periods.map fun p => unpaidLeaveMilli t employeeId p.start p.stop).sum = _ :=
    sum_unpaidLeaveMilli periods
  constructor
  · intro h
    have htotal := h.total
    exact ⟨by omega, fun p hp => weekdays_covered_iff.mp (h.weekdays p hp), fun p hp hcalculated =>
      (salary_covered_iff (h.weekdays p hp) hcalculated.2).mp (h.salary p hp hcalculated)⟩
  · intro h
    have honce := h.once
    have hweekdays : ∀ p ∈ periods, unpaidLeaveMilli t employeeId p.start p.stop ≤ 1000 * p.weekdays :=
        fun p hp =>
      weekdays_covered_iff.mpr (h.weekdays p hp)
    exact ⟨by omega, hweekdays, fun p hp hcalculated =>
      (salary_covered_iff (hweekdays p hp) hcalculated.2).mpr (h.salary p hp hcalculated)⟩

/-- Where the units of every period fit its word, the leave is deducted once exactly where no period begins within
a request. -/
theorem unpaid_leave_total_iff (hconsecutive : ConsecutivePeriods periods)
    (hcovers : ∀ r ∈ t.deductible employeeId, CoversRequest periods r)
    (hfits : ∀ p ∈ periods, t.booked employeeId p ≤ i32Max) :
    (periods.map fun p => unpaidLeaveMilli t employeeId p.start p.stop).sum =
        ((t.deductible employeeId).map (·.unitsMilli)).sum ↔
      ∀ r ∈ t.deductible employeeId, ∀ p ∈ periods, ¬(r.startDate < p.start ∧ p.start ≤ r.endDate) := by
  have hsum := sum_booked hconsecutive hcovers
  have hcut : (periods.map fun p => max 0 (t.booked employeeId p - i32Max)).sum = 0 := by
    refine List.sum_eq_zero fun x hx => ?_
    obtain ⟨p, hp, rfl⟩ := List.mem_map.mp hx
    have hle := hfits p hp
    omega
  have hagain : countedAgain LeaveRequestRow.interval (fun r => r.unitsMilli) (periods.map (·.interval))
      (t.deductible employeeId) = 0 ↔ _ :=
    countedAgain_eq_zero_iff fun r _ => r.positive
  unfold countedAgain at hagain
  simp only [← furtherPeriods_eq, List.forall_mem_map] at hagain
  rw [sum_unpaidLeaveMilli, hcut, hsum, sub_zero, add_eq_left]
  exact hagain

def LeaveRequestRow.weekdays (r : LeaveRequestRow) : List Date :=
  (Date.through r.startDate r.endDate).filter fun d => d.numDaysFromMonday < 5

theorem LeaveRequestRow.mem_weekdays {r : LeaveRequestRow} {d : Date} :
    d ∈ r.weekdays ↔ (r.startDate ≤ d ∧ d ≤ r.endDate) ∧ d.numDaysFromMonday < 5 := by
  unfold LeaveRequestRow.weekdays
  rw [List.mem_filter, Date.mem_through, decide_eq_true_iff]

theorem LeaveRequestRow.length_weekdays (r : LeaveRequestRow) :
    r.weekdays.length = Date.countWeekdays r.startDate r.endDate := by
  rw [Date.countWeekdays_eq r.ordered, List.countP_eq_length_filter]
  rfl

theorem nodup_weekdays {rows : List LeaveRequestRow}
    (hapart : rows.Pairwise fun r s => r.endDate < s.startDate ∨ s.endDate < r.startDate) :
    (rows.flatMap (·.weekdays)).Nodup := by
  refine List.nodup_flatMap.mpr ⟨fun r _ => (Date.through_nodup _ _).filter _, hapart.imp fun {r s} hrs => ?_⟩
  intro d hdr hds
  obtain ⟨⟨hrstart, hrstop⟩, -⟩ := LeaveRequestRow.mem_weekdays.mp hdr
  obtain ⟨⟨hsstart, hsstop⟩, -⟩ := LeaveRequestRow.mem_weekdays.mp hds
  rcases hrs with hlt | hlt
  · exact absurd (Int.le_trans hsstart hrstop) (Date.not_le.mpr hlt)
  · exact absurd (Int.le_trans hrstart hsstop) (Date.not_le.mpr hlt)

theorem sum_units_le {rows : List LeaveRequestRow}
    (h : ∀ r ∈ rows, r.unitsMilli ≤ 1000 * Date.countWeekdays r.startDate r.endDate) :
    (rows.map (·.unitsMilli)).sum ≤ 1000 * ((rows.flatMap (·.weekdays)).length : ℤ) := by
  induction rows with
  | nil => rfl
  | cons r rows ih =>
    obtain ⟨hr, hrest⟩ := List.forall_mem_cons.mp h
    have hrest := ih hrest
    rw [List.flatMap_cons, List.length_append, r.length_weekdays, List.map_cons, List.sum_cons]
    omega

/-- Requests of which no two share a day, each within the period or apart from it, book no more than the weekdays
of the period. -/
theorem booked_le_of_apart {p : PayPeriod}
    (hunits : ∀ r ∈ t.deductible employeeId, r.unitsMilli ≤ 1000 * Date.countWeekdays r.startDate r.endDate)
    (hwithin : ∀ r ∈ t.deductible employeeId, r.startDate ≤ p.stop → p.start ≤ r.endDate →
      p.start ≤ r.startDate ∧ r.endDate ≤ p.stop)
    (hapart : (t.deductible employeeId).Pairwise fun r s => r.endDate < s.startDate ∨ s.endDate < r.startDate) :
    t.booked employeeId p ≤ 1000 * p.weekdays := by
  unfold LeaveTables.booked
  have hsub : ((t.deductible employeeId).filter fun r => r.startDate ≤ p.stop ∧ p.start ≤ r.endDate).Sublist _ :=
    List.filter_sublist
  have hsum := sum_units_le fun r hr => hunits r (hsub.subset hr)
  have hnodup := nodup_weekdays (hapart.sublist hsub)
  -- The weekdays of the requests are different weekdays of the period.
  have hsubset : ((t.deductible employeeId).filter fun r => r.startDate ≤ p.stop ∧ p.start ≤ r.endDate).flatMap
      (·.weekdays) ⊆ (Date.through p.start p.stop).filter fun d => d.numDaysFromMonday < 5 := by
    intro d hd
    obtain ⟨r, hr, hd⟩ := List.mem_flatMap.mp hd
    obtain ⟨hr, hmeets⟩ := List.mem_filter.mp hr
    obtain ⟨hstop, hstart⟩ : r.startDate ≤ p.stop ∧ p.start ≤ r.endDate := of_decide_eq_true hmeets
    obtain ⟨hfirst, hlast⟩ := hwithin r hr hstop hstart
    obtain ⟨⟨hafter, hbefore⟩, hweekday⟩ := LeaveRequestRow.mem_weekdays.mp hd
    exact List.mem_filter.mpr ⟨Date.mem_through.mpr ⟨Int.le_trans hfirst hafter, Int.le_trans hbefore hlast⟩,
      decide_eq_true hweekday⟩
  have hlength := (List.subperm_of_subset hnodup hsubset).length_le
  rw [← List.countP_eq_length_filter, ← Date.countWeekdays_eq p.ordered] at hlength
  unfold PayPeriod.weekdays
  omega

/-- The units of each request are what the service counts for its dates, weekends left out. -/
def LeaveTables.Counted (t : LeaveTables) (employeeId : Uuid) : Prop :=
  ∀ r ∈ t.deductible employeeId, ∃ build startPeriod endPeriod fullHolidays halfHolidays,
    Leave.Returns build naiveDateMax
      ⟨r.startDate, r.endDate, startPeriod, endPeriod, true, fullHolidays, halfHolidays⟩ (some r.unitsMilli)

theorem ConsecutivePeriods.eq_of_day (h : ConsecutivePeriods periods) {p q : PayPeriod} {d : Date} (hp : p ∈ periods)
    (hq : q ∈ periods) (hdp : p.start ≤ d ∧ d ≤ p.stop) (hdq : q.start ≤ d ∧ d ≤ q.stop) : p = q := by
  have hpairs := List.Pairwise.forall_of_forall_of_flip (R := fun p q => p = q ∨ p.stop < q.start ∨
    q.stop < p.start)
    (fun _ _ => .inl rfl) (h.imp fun hlt => .inr (.inl hlt)) (h.imp fun hlt => .inr (.inr hlt))
  rcases hpairs hp hq with heq | hlt | hlt
  · exact heq
  · exact absurd (Int.le_trans hdq.1 hdp.2) (Date.not_le.mpr hlt)
  · exact absurd (Int.le_trans hdp.1 hdq.2) (Date.not_le.mpr hlt)

/-- Unpaid leave as the service counts it, each request within one of the periods and no two with a day in common,
is deducted once, and takes no more than the weekdays and the salary of any period. -/
theorem counted_leave_deducted_once (hconsecutive : ConsecutivePeriods periods) (hcounted : t.Counted employeeId)
    (hplaced : ∀ r ∈ t.deductible employeeId, ∃ p ∈ periods, p.start ≤ r.startDate ∧ r.endDate ≤ p.stop)
    (hapart : (t.deductible employeeId).Pairwise fun r s => r.endDate < s.startDate ∨ s.endDate < r.startDate)
    (hword : ∀ p ∈ periods, 1000 * (p.weekdays : Int) ≤ i32Max) (hsalary : ∀ p ∈ periods, 0 ≤ salary p) :
    DeductedOnce t employeeId salary periods := by
  have hunits : ∀ r ∈ t.deductible employeeId,
      r.unitsMilli ≤ 1000 * Date.countWeekdays r.startDate r.endDate := by
    intro r hr
    obtain ⟨_, _, _, _, _, hreturns⟩ := hcounted r hr
    exact hreturns.le_weekdays r.ordered rfl
  have hwithin : ∀ r ∈ t.deductible employeeId, ∀ p ∈ periods, r.startDate ≤ p.stop →
    p.start ≤ r.endDate →
      p.start ≤ r.startDate ∧ r.endDate ≤ p.stop := by
    intro r hr p hp hstop hstart
    obtain ⟨q, hq, hfirst, hlast⟩ := hplaced r hr
    -- The later of the two starts is a day of the period and of the one that the request lies in.
    obtain rfl : p = q := by
      rcases Date.le_or_lt p.start r.startDate with hle | hlt
      · exact hconsecutive.eq_of_day hp hq ⟨hle, hstop⟩ ⟨hfirst, Int.le_trans r.ordered hlast⟩
      · exact hconsecutive.eq_of_day hp hq ⟨Int.le_refl _, p.ordered⟩
          ⟨Int.le_trans hfirst (Int.le_of_lt hlt), Int.le_trans hstart hlast⟩
    exact ⟨hfirst, hlast⟩
  have hcovers : ∀ r ∈ t.deductible employeeId, CoversRequest periods r := by
    intro r hr d hstart hstop
    obtain ⟨p, hp, hfirst, hlast⟩ := hplaced r hr
    exact ⟨p, hp, Int.le_trans hfirst hstart, Int.le_trans hstop hlast⟩
  have hbooked : ∀ p ∈ periods, t.booked employeeId p ≤ 1000 * p.weekdays := fun p hp =>
    booked_le_of_apart hunits (fun r hr => hwithin r hr p hp) hapart
  have hweekdays : ∀ p ∈ periods, unpaidLeaveMilli t employeeId p.start p.stop ≤ 1000 * p.weekdays := fun p hp =>
    weekdays_covered_iff.mpr (.inl (hbooked p hp))
  refine ⟨?_, hweekdays, fun p hp hcalculated =>
    (salary_covered_iff (hweekdays p hp) hcalculated.2).mpr (.inl (hsalary p hp))⟩
  refine (unpaid_leave_total_iff hconsecutive hcovers fun p hp => (hbooked p hp).trans (hword p hp)).mpr ?_
  rintro r hr p hp ⟨hlt, hle⟩
  have hfirst := (hwithin r hr p hp (Int.le_trans (Int.le_of_lt hlt) p.ordered) hle).1
  exact absurd hlt (Date.not_lt.mpr hfirst)

/-- From Monday, 30 March, to Friday, 3 April. -/
def marchLeave : LeaveRequestRow where
  employeeId := 1
  leaveTypeId := 2
  status := .approved
  startDate := ⟨2026, 3, 30, by decide⟩
  endDate := ⟨2026, 4, 3, by decide⟩
  unitsMilli := 5000
  deletedAt := none
  ordered := by decide
  positive := by decide

def marchTables : LeaveTables := ⟨[marchLeave], fun id => if id = 2 then some .unpaid else none⟩

/-- The last two weekdays of March, and the first three of April. -/
def endOfMarch : List PayPeriod :=
  [⟨⟨2026, 3, 30, by decide⟩, ⟨2026, 3, 31, by decide⟩, by decide⟩,
    ⟨⟨2026, 4, 1, by decide⟩, ⟨2026, 4, 3, by decide⟩, by decide⟩]

theorem marchTables_deductible : marchTables.deductible 1 = [marchLeave] := rfl

theorem endOfMarch_consecutive : ConsecutivePeriods endOfMarch := by
  unfold ConsecutivePeriods endOfMarch
  decide

theorem endOfMarch_covers : ∀ r ∈ marchTables.deductible 1, CoversRequest endOfMarch r := by
  rw [marchTables_deductible, List.forall_mem_singleton]
  intro d hstart hstop
  rcases Date.le_or_lt d ⟨2026, 3, 31, by decide⟩ with hle | hlt
  · exact ⟨_, List.mem_cons_self, hstart, hle⟩
  · exact ⟨_, List.mem_cons_of_mem _ List.mem_cons_self, Date.succ_le_of_lt hlt, hstop⟩

/-- The leave of a period of `n + 1` weekdays. -/
def partOfLeave (p : PayPeriod) (n : ℕ) : LeaveRequestRow where
  employeeId := 1
  leaveTypeId := 2
  status := .approved
  startDate := p.start
  endDate := p.stop
  unitsMilli := 1000 * ((n + 1 : ℕ) : Int)
  deletedAt := none
  ordered := p.ordered
  positive := by omega

/-- A request for each period. -/
def splitTables : LeaveTables := { marchTables with requests := List.zipWith partOfLeave endOfMarch [1, 2] }

theorem counted_leave_deducted_once_split : DeductedOnce splitTables 1 (fun _ => 100000) endOfMarch := by
  have hrows : splitTables.deductible 1 = List.zipWith partOfLeave endOfMarch [1, 2] := rfl
  refine counted_leave_deducted_once endOfMarch_consecutive ?_ ?_ ?_ (by decide) (by decide)
  · unfold LeaveTables.Counted
    rw [hrows]
    refine List.forall_mem_cons.mpr ⟨⟨.debug, .full, .full, [], [], 4, by decide⟩, ?_⟩
    exact List.forall_mem_singleton.mpr ⟨.debug, .full, .full, [], [], 4, by decide⟩
  · rw [hrows]
    decide
  · rw [hrows]
    decide

theorem unpaid_leave_deducted_iff_march :
    DeductedOnce marchTables 1 (fun _ => 100000) endOfMarch ↔ BooksOnce marchTables 1 (fun _ => 100000) endOfMarch :=
  unpaid_leave_deducted_iff endOfMarch_consecutive endOfMarch_covers _

/-- Five days of leave over the end of March: March deducts all five of its two weekdays, which is two and a half
salaries, and April deducts them again. -/
theorem unpaid_leave_deducted_twice :
    ConsecutivePeriods endOfMarch ∧ (∀ r ∈ marchTables.deductible 1, CoversRequest endOfMarch r) ∧
      Leave.Returns .debug naiveDateMax
        ⟨marchLeave.startDate, marchLeave.endDate, .full, .full, true, [], []⟩ (some marchLeave.unitsMilli) ∧
      (endOfMarch.map fun p => unpaidLeaveMilli marchTables 1 p.start p.stop) = [5000, 5000] ∧
      (endOfMarch.map fun p => computeLineAmount ⟨"unpaid_leave", "Unpaid leave", .deduction, .unpaidLeaveProration,
        .null, 20⟩ 100000 5000 p.weekdays 0) = [250000, 166666] ∧
      ¬DeductedOnce marchTables 1 (fun _ => 100000) endOfMarch := by
  have hunits : (endOfMarch.map fun p => unpaidLeaveMilli marchTables 1 p.start p.stop) = [5000, 5000] := by decide
  refine ⟨endOfMarch_consecutive, endOfMarch_covers, ⟨7, by decide⟩, hunits, by decide +kernel, fun h => ?_⟩
  have htotal := h.total
  rw [hunits, marchTables_deductible] at htotal
  revert htotal
  decide

end Noxara.Payroll
