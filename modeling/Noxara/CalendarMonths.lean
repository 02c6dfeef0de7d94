import Noxara.CalendarDate
import Mathlib.Algebra.Ring.Int.Defs
import Mathlib.Data.Nat.Cast.Basic

/-! Month addition. The last day of a shorter month takes the place of a later day, so adding twice may differ from
adding once. -/
namespace Noxara.Finance

namespace Date

/-- Months since January of the year 0. -/
def monthIndex (d : Date) : Int := d.year * 12 + (d.month - 1)

def monthLength (m : Int) : ℕ := daysInMonth (m / 12) ((m % 12).toNat + 1)

def ofMonth (m : Int) (day : ℕ) (h : 1 ≤ day) : Date where
  year := m / 12
  month := (m % 12).toNat + 1
  day := min day (monthLength m)
  valid := by
    have hpos := daysInMonth_pos (m / 12) ((m % 12).toNat + 1)
    unfold monthLength
    omega

/-- `NaiveDate::checked_add_months`. -/
def addMonths (d : Date) (n : ℕ) : Date := ofMonth (d.monthIndex + n) d.day d.valid.2.2.1

theorem monthLength_le (m : Int) : monthLength m ≤ 31 := daysInMonth_le _ _

theorem monthIndex_ofMonth (m : Int) (day : ℕ) (h : 1 ≤ day) : (ofMonth m day h).monthIndex = m := by
  simp only [monthIndex, ofMonth]
  omega

@[simp] theorem monthIndex_addMonths (d : Date) (n : ℕ) : (d.addMonths n).monthIndex = d.monthIndex + n :=
  monthIndex_ofMonth _ _ _

@[simp] theorem day_addMonths (d : Date) (n : ℕ) :
    (d.addMonths n).day = min d.day (monthLength (d.monthIndex + n)) := rfl

theorem day_le_monthLength (d : Date) : d.day ≤ monthLength d.monthIndex := by
  have hvalid := d.valid
  have hyear : d.monthIndex / 12 = d.year := by
    unfold monthIndex
    omega
  have hmonth : (d.monthIndex % 12).toNat + 1 = d.month := by
    unfold monthIndex
    omega
  rw [monthLength, hyear, hmonth]
  exact hvalid.2.2.2

theorem ordinal_eq (d : Date) : d.ordinal = d.monthIndex * 31 + (d.day - 1) := by
  have hvalid := d.valid
  unfold ordinal monthIndex
  omega

theorem ext_month {a b : Date} (hmonth : a.monthIndex = b.monthIndex) (hday : a.day = b.day) : a = b := by
  refine ordinal_injective ?_
  rw [ordinal_eq, ordinal_eq, hmonth, hday]

@[simp] theorem addMonths_zero (d : Date) : d.addMonths 0 = d := by
  have hday := d.day_le_monthLength
  refine ext_month (by simp) ?_
  rw [day_addMonths]
  simp only [Nat.cast_zero, Int.add_zero]
  omega

/-- A later month is later, whatever becomes of the day. -/
theorem addMonths_lt (d : Date) {m n : ℕ} (h : m < n) : d.addMonths m < d.addMonths n := by
  change (d.addMonths m).ordinal < (d.addMonths n).ordinal
  rw [ordinal_eq, ordinal_eq, monthIndex_addMonths, monthIndex_addMonths]
  have hm := (d.addMonths m).valid
  have hn := (d.addMonths n).valid
  have hle := daysInMonth_le (d.addMonths m).year (d.addMonths m).month
  omega

/-- Adding twice is adding once unless the day was cut off on the way to a longer month. -/
theorem addMonths_addMonths_iff (d : Date) (m n : ℕ) : (d.addMonths m).addMonths n = d.addMonths (m + n) ↔
    d.day ≤ monthLength (d.monthIndex + m) ∨
      monthLength (d.monthIndex + (m + n : ℕ)) ≤ monthLength (d.monthIndex + m) := by
  have hday : ((d.addMonths m).addMonths n).day =
      min (min d.day (monthLength (d.monthIndex + m))) (monthLength (d.monthIndex + (m + n : ℕ))) := by
    rw [day_addMonths, day_addMonths, monthIndex_addMonths, Int.add_assoc, Nat.cast_add]
  constructor
  · intro heq
    have := congrArg Date.day heq
    rw [hday, day_addMonths] at this
    omega
  · intro hor
    refine ext_month ?_ ?_
    · simp only [monthIndex_addMonths, Nat.cast_add]
      omega
    · rw [hday, day_addMonths]
      omega

theorem lt_trans {a b c : Date} (h : a < b) (h' : b < c) : a < c := Int.lt_trans h h'

/-- `NaiveDate::pred_opt`. -/
def pred (d : Date) : Date :=
  if h : 1 < d.day then
    ⟨d.year, d.month, d.day - 1, d.valid.1, d.valid.2.1, by omega, le_trans (Nat.sub_le _ _) d.valid.2.2.2⟩
  else ofMonth (d.monthIndex - 1) 31 (by decide)

theorem pred_lt (d : Date) : d.pred < d := by
  change d.pred.ordinal < d.ordinal
  have hvalid := d.valid
  unfold pred
  split_ifs with h
  · simp only [ordinal]
    omega
  · have hle := monthLength_le (d.monthIndex - 1)
    rw [ordinal_eq, ordinal_eq, monthIndex_ofMonth]
    simp only [ofMonth]
    omega

/-- No date lies between a date and the day before it. -/
theorem le_pred {c d : Date} (h : c < d) : c ≤ d.pred := by
  change c.ordinal < d.ordinal at h
  change c.ordinal ≤ d.pred.ordinal
  have hc := c.valid
  have hd := d.valid
  have hlen := c.day_le_monthLength
  have hlong := daysInMonth_le c.year c.month
  rw [ordinal_eq, ordinal_eq] at h
  unfold pred
  split_ifs with hday
  · have heq : (⟨d.year, d.month, d.day - 1, d.valid.1, d.valid.2.1, by omega,
        le_trans (Nat.sub_le _ _) d.valid.2.2.2⟩ : Date).ordinal = d.ordinal - 1 := by
      simp only [ordinal]
      omega
    rw [heq, ordinal_eq, ordinal_eq]
    omega
  · have hmonth : c.monthIndex ≤ d.monthIndex - 1 := by omega
    rw [ordinal_eq, ordinal_eq, monthIndex_ofMonth]
    simp only [ofMonth]
    have hle := monthLength_le (d.monthIndex - 1)
    rcases Int.lt_or_eq_of_le hmonth with hlt | heq
    · have hpos : 1 ≤ monthLength (d.monthIndex - 1) := daysInMonth_pos _ _
      omega
    · rw [heq] at hlen
      omega

end Date

def nanosPerDay : ℕ := 86400000000000

/-- `DateTime<Utc>`. -/
structure DateTime where
  date : Date
  time : ℕ
  valid : time < nanosPerDay
  deriving DecidableEq

namespace DateTime

/-- A number that orders points in time. -/
def key (t : DateTime) : Int := t.date.ordinal * nanosPerDay + t.time

instance : LE DateTime := ⟨fun a b => a.key ≤ b.key⟩

instance : LT DateTime := ⟨fun a b => a.key < b.key⟩

instance (a b : DateTime) : Decidable (a ≤ b) := inferInstanceAs (Decidable (a.key ≤ b.key))

instance (a b : DateTime) : Decidable (a < b) := inferInstanceAs (Decidable (a.key < b.key))

theorem le_def (a b : DateTime) : a ≤ b ↔ a.key ≤ b.key := Iff.rfl

theorem lt_def (a b : DateTime) : a < b ↔ a.key < b.key := Iff.rfl

/-- Microseconds on the scale of the days of the calendar. -/
def timestamp (t : DateTime) : Int := t.date.dayNumber * 86400000000 + t.time / 1000

def addMonths (t : DateTime) (n : ℕ) : DateTime := ⟨t.date.addMonths n, t.time, t.valid⟩

@[simp] theorem addMonths_zero (t : DateTime) : t.addMonths 0 = t := by
  simp [addMonths]

theorem addMonths_lt (t : DateTime) {m n : ℕ} (h : m < n) : t.addMonths m < t.addMonths n := by
  have hdate : (t.date.addMonths m).ordinal < (t.date.addMonths n).ordinal := t.date.addMonths_lt h
  simp only [lt_def, key, addMonths, nanosPerDay]
  omega

theorem addMonths_addMonths_iff (t : DateTime) (m n : ℕ) : (t.addMonths m).addMonths n = t.addMonths (m + n) ↔
    t.date.day ≤ Date.monthLength (t.date.monthIndex + m) ∨
      Date.monthLength (t.date.monthIndex + (m + n : ℕ)) ≤ Date.monthLength (t.date.monthIndex + m) := by
  rw [← Date.addMonths_addMonths_iff]
  simp [addMonths]

end DateTime

end Noxara.Finance
