import Mathlib.Algebra.GroupWithZero.Nat
import Mathlib.Tactic.Common

/-! Calendar dates, their order, the month and the day of the week a date falls in. -/
namespace Noxara.Finance

def daysInMonth (year : Int) (month : Nat) : Nat :=
  if month = 2 then
    if (year % 4 = 0 ∧ year % 100 ≠ 0) ∨ year % 400 = 0 then 29 else 28
  else if month = 4 ∨ month = 6 ∨ month = 9 ∨ month = 11 then 30
  else 31

theorem daysInMonth_le (year : Int) (month : Nat) : daysInMonth year month ≤ 31 := by
  unfold daysInMonth
  split_ifs <;> omega

theorem daysInMonth_pos (year : Int) (month : Nat) : 1 ≤ daysInMonth year month := by
  unfold daysInMonth
  split_ifs <;> omega

structure Date where
  year : Int
  month : Nat
  day : Nat
  valid : 1 ≤ month ∧ month ≤ 12 ∧ 1 ≤ day ∧ day ≤ daysInMonth year month
  deriving DecidableEq

namespace Date

/-- A number that orders dates: twelve months of 31 places. -/
def ordinal (d : Date) : Int := d.year * 372 + (d.month - 1) * 31 + (d.day - 1)

instance : LE Date := ⟨fun a b => a.ordinal ≤ b.ordinal⟩

instance : LT Date := ⟨fun a b => a.ordinal < b.ordinal⟩

instance (a b : Date) : Decidable (a ≤ b) := inferInstanceAs (Decidable (a.ordinal ≤ b.ordinal))

instance (a b : Date) : Decidable (a < b) := inferInstanceAs (Decidable (a.ordinal < b.ordinal))

theorem le_def (a b : Date) : a ≤ b ↔ a.ordinal ≤ b.ordinal := Iff.rfl

def firstOfMonth (d : Date) : Date :=
  ⟨d.year, d.month, 1, d.valid.1, d.valid.2.1, Nat.le_refl _, daysInMonth_pos _ _⟩

/-- The day before the first of the next month. -/
def lastOfMonth (d : Date) : Date :=
  ⟨d.year, d.month, daysInMonth d.year d.month, d.valid.1, d.valid.2.1, daysInMonth_pos _ _, Nat.le_refl _⟩

theorem ordinal_injective {a b : Date} (h : a.ordinal = b.ordinal) : a = b := by
  obtain ⟨y, m, d, ha⟩ := a
  obtain ⟨y', m', d', hb⟩ := b
  have hd := daysInMonth_le y m
  have hd' := daysInMonth_le y' m'
  simp only [ordinal] at h
  have hy : y = y' := by omega
  subst hy
  have hm : m = m' := by omega
  subst hm
  have hdd : d = d' := by omega
  subst hdd
  rfl

end Date

/-- `NaiveDate::MAX`. -/
def naiveDateMax : Date := ⟨262142, 12, 31, by decide⟩

/-- Decimal digits padded with zeros to `width` places, the sign counted. -/
def zeroPad (width : Nat) (x : Int) : String :=
  let digits := toString x.natAbs
  if x < 0 then "-" ++ String.ofList (List.replicate (width - 1 - digits.length) '0') ++ digits
  else String.ofList (List.replicate (width - digits.length) '0') ++ digits

example : zeroPad 6 42 = "000042" := by decide

namespace Date

/-- The day after. -/
def succ (d : Date) : Date :=
  if h : d.day < daysInMonth d.year d.month then
    ⟨d.year, d.month, d.day + 1, d.valid.1, d.valid.2.1, Nat.le_add_left _ _, h⟩
  else if h : d.month < 12 then
    ⟨d.year, d.month + 1, 1, Nat.le_add_left _ _, h, Nat.le_refl _, daysInMonth_pos _ _⟩
  else ⟨d.year + 1, 1, 1, by decide, by decide, Nat.le_refl _, daysInMonth_pos _ _⟩

def addDays (d : Date) : Nat → Date
  | 0 => d
  | n + 1 => (d.addDays n).succ

theorem lt_succ (d : Date) : d < d.succ := by
  have hv := d.valid
  have hm := daysInMonth_le d.year d.month
  change d.ordinal < d.succ.ordinal
  unfold succ
  split_ifs <;> simp only [ordinal] <;> omega

/-- Days since the end of the year before year 1, which was a Sunday. -/
def dayNumber (d : Date) : Int :=
  let y := d.year - 1
  y * 365 + y / 4 - y / 100 + y / 400 +
    ((List.range (d.month - 1)).map fun m => daysInMonth d.year (m + 1)).sum + d.day

/-- `0` is Monday. -/
def numDaysFromMonday (d : Date) : Nat := ((d.dayNumber - 1) % 7).toNat

/-- `YYYY-MM-DD`. -/
def display (d : Date) : String := s!"{zeroPad 4 d.year}-{zeroPad 2 d.month}-{zeroPad 2 d.day}"

/-- How many of the days from `start` to `stop` are not on a weekend, where a day follows `stop`. -/
def countWeekdays (start stop : Date) : Nat :=
  (List.range (stop.dayNumber - start.dayNumber + 1).toNat).countP fun n =>
    (start.addDays n).numDaysFromMonday < 5

example : countWeekdays ⟨2026, 2, 1, by decide⟩ ⟨2026, 2, 28, by decide⟩ = 20 := by decide +kernel

end Date

end Noxara.Finance
