import Mathlib.Algebra.BigOperators.Ring.List
import Mathlib.Algebra.Order.BigOperators.Group.List
import Mathlib.Tactic.Ring
import Noxara.AdjacentPairs

/-! The hours that payroll takes from the attendance of an employee, and the time between check-ins and
check-outs. -/
namespace Noxara.Attendance

open Neighbours (pairs bridge pairs_cons_cons pairs_append mem_bridge fst_le_snd filter_append_filter)

inductive EntryKind
  | checkIn | checkOut | breakStart | breakEnd | reversal | adjustment
  deriving DecidableEq

/-- Microseconds of a day. -/
def dayLength : Int := 86400000000

/-- A fact of an employee: the instant in microseconds, and its day, which is always stored beside it. -/
structure AttRow where
  entryKind : EntryKind
  recordedAt : Int
  localDate : Int
  dated : localDate = recordedAt / dayLength

/-- Of the facts in the order of their instants those of a period. -/
def period (rows : List AttRow) (periodStart periodEnd : Int) : List AttRow :=
  rows.filter fun r => periodStart ≤ r.localDate ∧ r.localDate ≤ periodEnd

/-- The milliseconds so far, and the check-in that is open. -/
structure Clock where
  totalMs : Int
  openIn : Option Int

/-- `num_milliseconds` cuts toward zero. -/
def numMilliseconds (micros : Int) : Int := micros.tdiv 1000

def Clock.step (c : Clock) (row : AttRow) : Clock :=
  match row.entryKind with
  | .checkIn => { c with openIn := some row.recordedAt }
  | .checkOut =>
    match c.openIn with
    | none => c
    | some start =>
      let delta := numMilliseconds (row.recordedAt - start)
      ⟨if 0 < delta then c.totalMs + delta else c.totalMs, none⟩
  | _ => c

/-- The facts lie within the range of instants, so that their sum is a word. -/
def sumAttendanceHoursMilli (rows : List AttRow) (periodStart periodEnd : Int) : Int :=
  let c := (period rows periodStart periodEnd).foldl Clock.step ⟨0, none⟩
  c.totalMs.tdiv 3600000 * 1000

def AttRow.OnClock (r : AttRow) : Prop := r.entryKind = .checkIn ∨ r.entryKind = .checkOut

instance (r : AttRow) : Decidable r.OnClock := inferInstanceAs (Decidable (_ ∨ _))

/-- From a check-in to the check-out that is the next of both. -/
def intervals (rows : List AttRow) : List (AttRow × AttRow) :=
  (pairs (rows.filter (·.OnClock))).filter fun p => p.1.entryKind = .checkIn ∧ p.2.entryKind = .checkOut

def length (p : AttRow × AttRow) : Int := p.2.recordedAt - p.1.recordedAt

/-- The time between check-ins and check-outs, in microseconds. -/
def worked (rows : List AttRow) : Int := ((intervals rows).map length).sum

def wholeMs (rows : List AttRow) : Int := ((intervals rows).map fun p => numMilliseconds (length p)).sum

/-- An interval begins up to the cut, and ends after it. -/
def Spans (cut : Int) (p : AttRow × AttRow) : Prop := p.1.localDate ≤ cut ∧ cut < p.2.localDate

instance (cut : Int) (p : AttRow × AttRow) : Decidable (Spans cut p) := inferInstanceAs (Decidable (_ ∧ _))

theorem numMilliseconds_nonneg {x : Int} (h : 0 ≤ x) : 0 ≤ numMilliseconds x := Int.tdiv_nonneg h (by decide)

theorem foldl_onClock (rows : List AttRow) (c : Clock) :
    rows.foldl Clock.step c = (rows.filter (·.OnClock)).foldl Clock.step c := by
  induction rows generalizing c with
  | nil => rfl
  | cons r rows ih =>
    by_cases hr : r.OnClock
    · rw [List.filter_cons_of_pos (by simpa using hr), List.foldl_cons, List.foldl_cons, ih]
    · have hskip : c.step r = c := by
        unfold AttRow.OnClock at hr
        unfold Clock.step
        cases hkind : r.entryKind <;> simp [hkind] at hr ⊢
      rw [List.filter_cons_of_neg (by simpa using hr), List.foldl_cons, hskip, ih]

def openAfter (r : AttRow) : Option Int := if r.entryKind = .checkIn then some r.recordedAt else none

/-- After a fact the fold adds up the intervals from that fact on. -/
theorem foldl_after {rows : List AttRow} {r : AttRow} (hclock : ∀ q ∈ rows, q.OnClock)
    (hsorted : (r :: rows).Pairwise (·.recordedAt ≤ ·.recordedAt)) (total : Int) :
    (rows.foldl Clock.step ⟨total, openAfter r⟩).totalMs = total +
      (((pairs (r :: rows)).filter fun p => p.1.entryKind = .checkIn ∧ p.2.entryKind = .checkOut).map fun p =>
        numMilliseconds (length p)).sum := by
  induction rows generalizing r total with
  | nil => simp
  | cons q rows ih =>
    obtain ⟨hq, hrows⟩ := List.forall_mem_cons.mp hclock
    obtain ⟨hr, hsorted'⟩ := List.pairwise_cons.mp hsorted
    rw [List.foldl_cons, pairs_cons_cons]
    rcases hq with hin | hout
    · have hstep : Clock.step ⟨total, openAfter r⟩ q = ⟨total, openAfter q⟩ := by
        simp [Clock.step, hin, openAfter]
      rw [hstep, ih hrows hsorted', List.filter_cons_of_neg (by simp [hin])]
    · have hclosed : openAfter q = none := by simp [openAfter, hout]
      by_cases hopen : r.entryKind = .checkIn
      · have hdelta := numMilliseconds_nonneg (Int.sub_nonneg.mpr (hr q List.mem_cons_self))
        have hstep : Clock.step ⟨total, openAfter r⟩ q =
            ⟨total + numMilliseconds (length (r, q)), openAfter q⟩ := by
          simp only [Clock.step, hout, openAfter, hopen, if_true, reduceCtorEq, if_false, length]
          split_ifs with hpos
          · rfl
          · rw [Int.le_antisymm (Int.not_lt.mp hpos) hdelta, Int.add_zero]
        rw [hstep, ih hrows hsorted', List.filter_cons_of_pos (by simp [hopen, hout]), List.map_cons, List.sum_cons]
        ring
      · have hstep : Clock.step ⟨total, openAfter r⟩ q = ⟨total, openAfter q⟩ := by
          simp [Clock.step, hout, openAfter, hopen]
        rw [hstep, ih hrows hsorted', List.filter_cons_of_neg (by simp [hopen])]

theorem totalMs_eq {rows : List AttRow} (hsorted : rows.Pairwise (·.recordedAt ≤ ·.recordedAt)) :
    (rows.foldl Clock.step ⟨0, none⟩).totalMs = wholeMs rows := by
  rw [foldl_onClock, wholeMs, intervals]
  have hclock : ∀ q ∈ rows.filter (·.OnClock), q.OnClock := fun q hq => of_decide_eq_true (List.mem_filter.mp hq).2
  have hsorted := hsorted.filter (·.OnClock)
  cases hrows : rows.filter (·.OnClock) with
  | nil => rfl
  | cons q rest =>
    rw [hrows] at hclock hsorted
    obtain ⟨hq, hrest⟩ := List.forall_mem_cons.mp hclock
    have hfirst : Clock.step ⟨0, none⟩ q = ⟨0, openAfter q⟩ := by
      rcases hq with hin | hout
      · simp [Clock.step, hin, openAfter]
      · simp [Clock.step, hout, openAfter]
    rw [List.foldl_cons, hfirst, foldl_after hrest hsorted, Int.zero_add]

theorem length_nonneg {rows : List AttRow} (hsorted : rows.Pairwise (·.recordedAt ≤ ·.recordedAt))
    {p : AttRow × AttRow}
    (hp : p ∈ intervals rows) : 0 ≤ length p :=
  Int.sub_nonneg.mpr (fst_le_snd (hsorted.filter _) (List.mem_filter.mp hp).1)

theorem wholeMs_nonneg {rows : List AttRow} (hsorted : rows.Pairwise (·.recordedAt ≤ ·.recordedAt)) :
    0 ≤ wholeMs rows := by
  refine List.sum_nonneg fun x hx => ?_
  obtain ⟨p, hp, rfl⟩ := List.mem_map.mp hx
  exact numMilliseconds_nonneg (length_nonneg hsorted hp)

/-- The milliseconds that are counted do not exceed the time. -/
theorem wholeMs_le_worked {rows : List AttRow} (hsorted : rows.Pairwise (·.recordedAt ≤ ·.recordedAt)) :
    1000 * wholeMs rows ≤ worked rows := by
  rw [wholeMs, worked, ← List.sum_map_mul_left]
  refine List.sum_le_sum fun p hp => ?_
  have hlength := length_nonneg hsorted hp
  rw [numMilliseconds, Int.tdiv_eq_ediv_of_nonneg hlength]
  omega

theorem sumAttendanceHoursMilli_eq {rows : List AttRow} (hsorted : rows.Pairwise (·.recordedAt ≤ ·.recordedAt))
    (periodStart periodEnd : Int) :
    sumAttendanceHoursMilli rows periodStart periodEnd =
      wholeMs (period rows periodStart periodEnd) / 3600000 * 1000 := by
  have hperiod : (period rows periodStart periodEnd).Pairwise (·.recordedAt ≤ ·.recordedAt) := hsorted.filter _
  rw [sumAttendanceHoursMilli, totalMs_eq hperiod, Int.tdiv_eq_ediv_of_nonneg (wholeMs_nonneg hperiod)]

theorem dates_sorted {rows : List AttRow} (hsorted : rows.Pairwise (·.recordedAt ≤ ·.recordedAt)) :
    rows.Pairwise (·.localDate ≤ ·.localDate) :=
  hsorted.imp fun {a b} h => by
    rw [a.dated, b.dated]
    exact Int.ediv_le_ediv (by decide) h

theorem period_cut {rows : List AttRow} (hsorted : rows.Pairwise (·.recordedAt ≤ ·.recordedAt))
    {first cut last : Int}
    (hfirst : first ≤ cut) (hlast : cut < last) :
    period rows first last = period rows first cut ++ period rows (cut + 1) last := by
  have hsplit := filter_append_filter (f := AttRow.localDate) cut
    ((dates_sorted hsorted).filter fun r => first ≤ r.localDate ∧ r.localDate ≤ last)
  rw [period, ← hsplit, List.filter_filter, List.filter_filter]
  congr 1
  · refine List.filter_congr fun r _ => ?_
    simp only [← Bool.decide_and, decide_eq_decide]
    omega
  · refine List.filter_congr fun r _ => ?_
    simp only [← Bool.decide_and, decide_eq_decide]
    omega

theorem wholeMs_append {a b : List AttRow} {cut : Int} (ha : ∀ r ∈ a, r.localDate ≤ cut)
    (hb : ∀ r ∈ b, cut < r.localDate) (hspan : ∀ p ∈ intervals (a ++ b), ¬Spans cut p) :
    wholeMs (a ++ b) = wholeMs a + wholeMs b := by
  have hcut : intervals (a ++ b) = intervals a ++ intervals b := by
    unfold intervals at *
    rw [List.filter_append, pairs_append, List.filter_append, List.filter_append] at hspan ⊢
    have hbridge : (bridge (a.filter (·.OnClock)) (b.filter (·.OnClock))).filter
        (fun p => p.1.entryKind = .checkIn ∧ p.2.entryKind = .checkOut) = [] := by
      rw [List.eq_nil_iff_forall_not_mem]
      rintro ⟨x, y⟩ hp
      obtain ⟨hx, hy⟩ := mem_bridge (List.mem_filter.mp hp).1
      exact hspan _ (List.mem_append_left _ (List.mem_append_right _ hp))
        ⟨ha x (List.mem_filter.mp hx).1, hb y (List.mem_filter.mp hy).1⟩
    rw [hbridge, List.append_nil]
  rw [wholeMs, hcut, List.map_append, List.sum_append]
  rfl

/-- Microseconds of a thousandth of an hour. -/
def milliHour : Int := 3600000

/-- What of the worked time, in microseconds, is not in whole milliseconds of an interval or whole hours of the sum. -/
def leftover (rows : List AttRow) : Int := worked rows - 1000 * wholeMs rows + 1000 * (wholeMs rows % 3600000)

/-- The hours are the worked time but for less than one of their thousandths, and add up over a cut that no interval
spans. -/
structure Exact (rows : List AttRow) (first last : Int) : Prop where
  low : 0 ≤ worked (period rows first last) - milliHour * sumAttendanceHoursMilli rows first last
  high : worked (period rows first last) - milliHour * sumAttendanceHoursMilli rows first last < milliHour
  additive : ∀ cut, first ≤ cut → cut < last → (∀ p ∈ intervals (period rows first last), ¬Spans cut p) →
    sumAttendanceHoursMilli rows first last =
      sumAttendanceHoursMilli rows first cut + sumAttendanceHoursMilli rows (cut + 1) last

/-- Less than a thousandth of an hour is left over, and at no such cut are the parts beyond whole hours an hour. -/
structure Round (rows : List AttRow) (first last : Int) : Prop where
  rest : leftover (period rows first last) < milliHour
  parts : ∀ cut, first ≤ cut → cut < last → (∀ p ∈ intervals (period rows first last), ¬Spans cut p) →
    wholeMs (period rows first cut) % 3600000 + wholeMs (period rows (cut + 1) last) % 3600000 < 3600000

theorem attendance_hours_iff {rows : List AttRow} (hsorted : rows.Pairwise (·.recordedAt ≤ ·.recordedAt))
    (first last : Int) : Exact rows first last ↔ Round rows first last := by
  have hperiod (a b : Int) : (period rows a b).Pairwise (·.recordedAt ≤ ·.recordedAt) := hsorted.filter _
  have hworked := wholeMs_le_worked (hperiod first last)
  have hcut {cut : Int} (hfirst : first ≤ cut) (hlast : cut < last)
      (hspan : ∀ p ∈ intervals (period rows first last), ¬Spans cut p) : wholeMs (period rows first last) =
        wholeMs (period rows first cut) + wholeMs (period rows (cut + 1) last) := by
    rw [period_cut hsorted hfirst hlast] at hspan ⊢
    refine wholeMs_append (fun r hr => ?_) (fun r hr => ?_) hspan
    · exact (of_decide_eq_true (List.mem_filter.mp hr).2).2
    · exact (of_decide_eq_true (List.mem_filter.mp hr).2).1
  have hvalue := sumAttendanceHoursMilli_eq hsorted
  constructor
  · rintro ⟨-, hhigh, hadditive⟩
    refine ⟨?_, fun cut hfirst hlast hspan => ?_⟩
    · rw [hvalue] at hhigh
      unfold leftover milliHour at *
      omega
    · have hsum := hadditive cut hfirst hlast hspan
      rw [hvalue, hvalue, hvalue, hcut hfirst hlast hspan] at hsum
      omega
  · rintro ⟨hrest, hparts⟩
    refine ⟨?_, ?_, fun cut hfirst hlast hspan => ?_⟩
    · rw [hvalue]
      unfold milliHour
      omega
    · rw [hvalue]
      unfold leftover milliHour at *
      omega
    · have hless := hparts cut hfirst hlast hspan
      rw [hvalue, hvalue, hvalue, hcut hfirst hlast hspan]
      omega

def fact (entryKind : EntryKind) (recordedAt : Int) : AttRow := ⟨entryKind, recordedAt, _, rfl⟩

/-- Two hours on one day and one on the next. -/
theorem attendance_hours_iff_three :
    Exact [fact .checkIn 0, fact .checkOut 7200000000, fact .checkIn 86400000000, fact .checkOut 90000000000] 0 1 := by
  refine (attendance_hours_iff (by decide +kernel) 0 1).mpr ⟨by decide +kernel, fun cut hfirst hlast _ => ?_⟩
  obtain rfl : cut = 0 := by omega
  decide +kernel

/-- Of 59 minutes nothing is paid; and two days of 90 minutes, two hours when apart, are three together. -/
theorem attendance_hours_lost :
    sumAttendanceHoursMilli [fact .checkIn 0, fact .checkOut 3540000000] 0 0 = 0 ∧
      ¬Exact [fact .checkIn 0, fact .checkOut 3540000000] 0 0 ∧
      ¬Exact [fact .checkIn 0, fact .checkOut 5400000000, fact .checkIn 86400000000, fact .checkOut 91800000000]
      0 1 := by
  refine ⟨by decide +kernel, fun h => ?_, fun h => ?_⟩
  · have hhigh := h.high
    revert hhigh
    decide +kernel
  · have hsum := h.additive 0 (by decide) (by decide) (by decide +kernel)
    revert hsum
    decide +kernel

end Noxara.Attendance
