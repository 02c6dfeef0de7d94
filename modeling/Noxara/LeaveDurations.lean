import Noxara.CalendarRanges
import Noxara.LeaveBalances

/-! The duration of a leave: a loop over the days from its start to its end, and what splitting a leave does
to it. -/
namespace Noxara.Leave
open Words
open Finance (Date naiveDateMax)

inductive Period
  | full | am | pm
  deriving DecidableEq

/-- The arguments of `leave_units_milli`. -/
structure LeaveRange where
  start : Date
  stop : Date
  startPeriod : Period
  endPeriod : Period
  excludeWeekends : Bool
  fullHolidays : List Date
  halfHolidays : List Date

def singleDayUnits : Period → Period → Int
  | .am, .am | .pm, .pm => 500
  | .am, .pm | .full, _ | _, .full => 1000
  | .pm, .am => 1000

def firstDayUnits : Period → Int
  | .am | .full => 1000
  | .pm => 500

def lastDayUnits : Period → Int
  | .pm | .full => 1000
  | .am => 500

namespace LeaveRange

def dayUnits (r : LeaveRange) (d : Date) : Int :=
  let units :=
    if r.start = r.stop then singleDayUnits r.startPeriod r.endPeriod
    else if d = r.start then firstDayUnits r.startPeriod
    else if d = r.stop then lastDayUnits r.endPeriod
    else 1000
  -- Half a day or a day less half a day does not saturate.
  if d ∈ r.halfHolidays then max (units - 500) 0 else units

/-- The day is passed over. -/
def Skips (r : LeaveRange) (d : Date) : Prop :=
  r.excludeWeekends = true ∧ 5 ≤ d.numDaysFromMonday ∨ d ∈ r.fullHolidays

instance (r : LeaveRange) (d : Date) : Decidable (r.Skips d) := inferInstanceAs (Decidable (_ ∨ _))

end LeaveRange

/-- `NaiveDate::succ_opt` where `last` is the last date. -/
def succOpt (last d : Date) : Option Date := if d < last then some d.succ else none

/-- The loop with `fuel` turns at most: `none` where they are used up, and `some none` for a panic. -/
def countDays (b : Build) (last : Date) (r : LeaveRange) : ℕ → Date → Int → Option (Option Int)
  | 0, _, _ => none
  | fuel + 1, d, total =>
    if d ≤ r.stop then
      if r.Skips d then countDays b last r fuel ((succOpt last d).getD d) total
      else
        match b.arith i32 (total + r.dayUnits d) with
        | none => some none
        | some total =>
          match succOpt last d with
          | some next => countDays b last r fuel next total
          | none => some (some total)
    else some (some total)

def leaveUnitsMilli (b : Build) (last : Date) (r : LeaveRange) (fuel : ℕ) : Option (Option Int) :=
  if r.stop < r.start then some (some 0) else countDays b last r fuel r.start 0

example : leaveUnitsMilli .debug naiveDateMax
    ⟨⟨2026, 3, 2, by decide⟩, ⟨2026, 3, 4, by decide⟩, .pm, .am, true, [], []⟩ 4 = some (some 2000) := by
      decide

/-- The function comes back with this, a panic or a duration. -/
def Returns (b : Build) (last : Date) (r : LeaveRange) (v : Option Int) : Prop :=
  ∃ fuel, leaveUnitsMilli b last r fuel = some v

variable {b : Build} {last : Date} {r : LeaveRange} {d m : Date} {total : Int}

theorem countDays_succ {fuel : ℕ} {v : Option Int} (h : countDays b last r fuel d total = some v) :
    countDays b last r (fuel + 1) d total = some v := by
  induction fuel generalizing d total with
  | zero => cases h
  | succ fuel ih =>
    rw [countDays] at h ⊢
    split_ifs at h ⊢ with hle hskip
    · exact ih h
    · split at h
      · exact h
      · split at h
        · exact ih h
        · exact h
    · exact h

theorem countDays_mono {fuel more : ℕ} {v : Option Int} (hle : fuel ≤ more)
    (h : countDays b last r fuel d total = some v) : countDays b last r more d total = some v := by
  induction hle with
  | refl => exact h
  | step _ ih => exact countDays_succ ih

/-- The function comes back with one result at most. -/
theorem Returns.unique {v v' : Option Int} (h : Returns b last r v) (h' : Returns b last r v') : v = v' := by
  obtain ⟨fuel, h⟩ := h
  obtain ⟨fuel', h'⟩ := h'
  unfold leaveUnitsMilli at h h'
  split_ifs at h h'
  · exact Option.some.inj (h.symm.trans h')
  · have hmax := countDays_mono (Nat.le_max_left fuel fuel') h
    exact Option.some.inj (hmax.symm.trans (countDays_mono (Nat.le_max_right fuel fuel') h'))

namespace LeaveRange

/-- The days of the range that are not passed over. -/
def countedDays (r : LeaveRange) : List Date := (Date.through r.start r.stop).filter fun d => ¬r.Skips d

/-- What the days of the range come to, without a word's bounds. -/
def units (r : LeaveRange) : Int := (r.countedDays.map r.dayUnits).sum

theorem dayUnits_bounds (r : LeaveRange) (d : Date) : 0 ≤ r.dayUnits d ∧ r.dayUnits d ≤ 1000 := by
  have hsingle : ∀ p q, 500 ≤ singleDayUnits p q ∧ singleDayUnits p q ≤ 1000 := by
    intro p q
    cases p <;> cases q <;> decide
  have hfirst : ∀ p, 500 ≤ firstDayUnits p ∧ firstDayUnits p ≤ 1000 := by
    intro p
    cases p <;> decide
  have hlast : ∀ p, 500 ≤ lastDayUnits p ∧ lastDayUnits p ≤ 1000 := by
    intro p
    cases p <;> decide
  have := hsingle r.startPeriod r.endPeriod
  have := hfirst r.startPeriod
  have := hlast r.endPeriod
  unfold dayUnits
  dsimp only
  split_ifs <;> omega

theorem sum_dayUnits_nonneg (r : LeaveRange) (days : List Date) : 0 ≤ (days.map r.dayUnits).sum :=
  List.sum_nonneg fun x hx => by
    obtain ⟨d, -, rfl⟩ := List.mem_map.mp hx
    exact (r.dayUnits_bounds d).1

theorem units_bounds (r : LeaveRange) : 0 ≤ r.units ∧ r.units ≤ 1000 * r.countedDays.length := by
  refine ⟨r.sum_dayUnits_nonneg _, ?_⟩
  have hbound := List.sum_le_card_nsmul (r.countedDays.map r.dayUnits) 1000 fun x hx => by
    obtain ⟨d, -, rfl⟩ := List.mem_map.mp hx
    exact (r.dayUnits_bounds d).2
  rw [List.length_map, nsmul_eq_mul, mul_comm] at hbound
  exact hbound

end LeaveRange

/-- The loop ends, unless its last day is the last date there is and is passed over. -/
theorem countDays_returns (hlast : r.stop ≤ last) (hskip : r.Skips r.stop → r.stop < last) (htotal : 0 ≤ total)
    (hfits : total + (((Date.through d r.stop).filter fun x => ¬r.Skips x).map r.dayUnits).sum ≤ 2147483647) :
    ∃ fuel, countDays b last r fuel d total =
      some (some (total + (((Date.through d r.stop).filter fun x => ¬r.Skips x).map r.dayUnits).sum)) := by
  induction d using Date.induction_past r.stop generalizing total with
  | past d hlt =>
    refine ⟨1, ?_⟩
    rw [countDays, if_neg (Date.not_le.mpr hlt), Date.through_of_lt hlt]
    simp
  | day d hle ih =>
    rw [Date.through_of_le hle] at hfits ⊢
    by_cases hskips : r.Skips d
    · have hnext : d < last := by
        rcases Int.lt_or_eq_of_le hle with hlt | heq
        · exact Int.lt_of_lt_of_le hlt hlast
        · rw [Date.ordinal_injective heq] at hskips ⊢
          exact hskip hskips
      rw [List.filter_cons_of_neg (by simpa using hskips)] at hfits ⊢
      obtain ⟨fuel, hfuel⟩ := ih htotal hfits
      refine ⟨fuel + 1, ?_⟩
      rw [countDays, if_pos hle, if_pos hskips, succOpt, if_pos hnext, Option.getD_some, hfuel]
    · rw [List.filter_cons_of_pos (by simpa using hskips), List.map_cons, List.sum_cons, ← add_assoc] at hfits ⊢
      have hrest := r.sum_dayUnits_nonneg ((Date.through d.succ r.stop).filter fun x => ¬r.Skips x)
      have hday := r.dayUnits_bounds d
      have hword : i32.Has (total + r.dayUnits d) := has_i32.mpr (by omega)
      rcases Date.le_or_lt last d with hend | hnext
      · have hpast : r.stop < d.succ := Int.lt_of_le_of_lt (Int.le_trans hlast hend) (Date.lt_succ d)
        refine ⟨1, ?_⟩
        rw [countDays, if_pos hle, if_neg hskips, Build.arith_of_has hword]
        dsimp only
        rw [succOpt, if_neg (Date.not_lt.mpr hend), Date.through_of_lt hpast]
        simp
      · obtain ⟨fuel, hfuel⟩ := ih (by omega : 0 ≤ total + r.dayUnits d) hfits
        refine ⟨fuel + 1, ?_⟩
        rw [countDays, if_pos hle, if_neg hskips, Build.arith_of_has hword]
        dsimp only
        rw [succOpt, if_pos hnext]
        exact hfuel

/-- On the last date there is the loop steps to the day that it is on, and so never passes it over. -/
theorem countDays_never_ends (hstop : r.stop = last) (hskips : r.Skips last) (hd : d ≤ last) (fuel : ℕ) (v : Int) :
    countDays b last r fuel d total ≠ some (some v) := by
  induction fuel generalizing d total with
  | zero => nofun
  | succ fuel ih =>
    have hnext : ∀ x, succOpt last d = some x → x ≤ last := by
      unfold succOpt
      split_ifs with hlt <;> intro x hx <;> cases hx
      exact Date.succ_le_of_lt hlt
    rw [countDays, if_pos (hstop ▸ hd)]
    split_ifs with hskip
    · cases hsucc : succOpt last d with
      | none => exact ih hd
      | some next => exact ih (hnext next hsucc)
    · cases b.arith i32 (total + r.dayUnits d) with
      | none => nofun
      | some total =>
        cases hsucc : succOpt last d with
        | some next => exact ih (hnext next hsucc)
        | none =>
          -- Only the last date has no day after it, and that is passed over.
          unfold succOpt at hsucc
          split_ifs at hsucc with hlt
          have heq : d = last := Date.ordinal_injective (Int.le_antisymm hd (Int.not_lt.mp hlt))
          exact absurd (heq ▸ hskips) hskip

/-- The function comes back with the duration exactly where it need not pass over the last date there is. -/
theorem returns_units_iff (hle : r.start ≤ r.stop) (hlast : r.stop ≤ last) (hfits : r.units ≤ 2147483647) :
    Returns b last r (some r.units) ↔ (r.Skips r.stop → r.stop < last) := by
  have hloop : ∀ fuel, leaveUnitsMilli b last r fuel = countDays b last r fuel r.start 0 := fun fuel => by
    rw [leaveUnitsMilli, if_neg (Date.not_lt.mpr hle)]
  constructor
  · rintro ⟨fuel, hreturns⟩ hskips
    by_contra hnot
    have hstop : r.stop = last := Date.ordinal_injective (Int.le_antisymm hlast (Int.not_lt.mp hnot))
    rw [hloop] at hreturns
    exact countDays_never_ends hstop (hstop ▸ hskips) (hstop ▸ hle) fuel r.units hreturns
  · intro hskip
    obtain ⟨fuel, hreturns⟩ := countDays_returns (b := b) (d := r.start) hlast hskip le_rfl (by rwa [zero_add])
    rw [zero_add] at hreturns
    exact ⟨fuel, (hloop fuel).trans hreturns⟩

/-- What a build wraps makes the duration no longer than its days. -/
theorem countDays_le {fuel : ℕ} {v : Int} (htotal : i32.Has total)
    (h : countDays b last r fuel d total = some (some v)) :
    v ≤ total + (((Date.through d r.stop).filter fun x => ¬r.Skips x).map r.dayUnits).sum := by
  induction fuel generalizing d total with
  | zero => cases h
  | succ fuel ih =>
    have hrest := r.sum_dayUnits_nonneg ((Date.through d.succ r.stop).filter fun x => ¬r.Skips x)
    rw [countDays] at h
    split_ifs at h with hle hskips
    · unfold succOpt at h
      split_ifs at h with hlt
      · rw [Date.through_of_le hle, List.filter_cons_of_neg (by simpa using hskips)]
        exact ih htotal h
      · exact ih htotal h
    · cases hsum : b.arith i32 (total + r.dayUnits d) with
      | none =>
        rw [hsum] at h
        cases h
      | some next =>
        have hday := r.dayUnits_bounds d
        have hlow := has_i32.mp htotal
        have hnext : next = i32.wrap (total + r.dayUnits d) := Build.arith_some hsum
        have hword : i32.Has next := hnext ▸ Word.has_wrap _ _
        have hwrap : i32.wrap (total + r.dayUnits d) ≤ total + r.dayUnits d :=
          Word.wrap_le (show (-2147483648 : Int) ≤ total + r.dayUnits d by omega)
        rw [Date.through_of_le hle, List.filter_cons_of_pos (by simpa using hskips), List.map_cons, List.sum_cons]
        rw [hsum] at h
        dsimp only at h
        split at h
        · next hsucc =>
          unfold succOpt at hsucc
          split_ifs at hsucc
          cases hsucc
          have hv := ih hword h
          omega
        · cases h
          omega
    · cases h
      have hnone := r.sum_dayUnits_nonneg ((Date.through d r.stop).filter fun x => ¬r.Skips x)
      omega

theorem Returns.le_units {v : Int} (h : Returns b last r (some v)) : v ≤ r.units := by
  obtain ⟨fuel, h⟩ := h
  unfold leaveUnitsMilli at h
  split_ifs at h
  · cases h
    exact r.units_bounds.1
  · have hle := countDays_le (has_i32.mpr (by omega)) h
    rw [zero_add] at hle
    exact hle

theorem Returns.le_weekdays {v : Int} (h : Returns b last r (some v)) (hle : r.start ≤ r.stop)
    (hweekends : r.excludeWeekends = true) : v ≤ 1000 * Date.countWeekdays r.start r.stop := by
  have hdays : r.countedDays.length ≤ Date.countWeekdays r.start r.stop := by
    rw [Date.countWeekdays_eq hle, LeaveRange.countedDays, ← List.countP_eq_length_filter]
    refine List.countP_mono_left fun d _ hd => decide_eq_true ?_
    have hcounted : ¬r.Skips d := of_decide_eq_true hd
    by_contra hweekend
    exact hcounted (Or.inl ⟨hweekends, Nat.not_lt.mp hweekend⟩)
  have hunits := r.units_bounds.2
  have hv := h.le_units
  omega

namespace LeaveRange

/-- The leave up to the end of a day. -/
def upTo (r : LeaveRange) (m : Date) : LeaveRange := { r with stop := m, endPeriod := .full }

/-- The leave from the beginning of a day. -/
def startingOn (r : LeaveRange) (d : Date) : LeaveRange := { r with start := d, startPeriod := .full }

/-- A first day that counts from noon on is counted whole where it is a leave of its own. -/
def firstDayWhole (r : LeaveRange) (m : Date) : Int :=
  if m = r.start ∧ r.startPeriod = .pm ∧ ¬r.Skips r.start then 500 else 0

/-- And so is a last day that counts until noon. -/
def lastDayWhole (r : LeaveRange) (d : Date) : Int :=
  if d = r.stop ∧ r.endPeriod = .am ∧ ¬r.Skips r.stop then 500 else 0

theorem dayUnits_first (h : r.start ≠ r.stop) (d : Date) (hd : d = r.start) : r.dayUnits d =
    if d ∈ r.halfHolidays then max (firstDayUnits r.startPeriod - 500) 0 else firstDayUnits r.startPeriod := by
  unfold dayUnits
  rw [if_neg h, if_pos hd]

theorem dayUnits_last (h : r.start ≠ r.stop) (d : Date) (hd : d = r.stop) : r.dayUnits d =
    if d ∈ r.halfHolidays then max (lastDayUnits r.endPeriod - 500) 0 else lastDayUnits r.endPeriod := by
  have hne : d ≠ r.start := hd ▸ h.symm
  unfold dayUnits
  rw [if_neg h, if_neg hne, if_pos hd]

theorem sum_self (r : LeaveRange) (d : Date) :
    (((Date.through d d).filter fun x => ¬r.Skips x).map r.dayUnits).sum = if r.Skips d then 0 else r.dayUnits d := by
  rw [Date.through_self]
  by_cases hskips : r.Skips d <;> simp [hskips]

theorem units_upTo (hstart : r.start ≤ m) (hstop : m < r.stop) :
    (r.upTo m).units =
      (((Date.through r.start m).filter fun d => ¬r.Skips d).map r.dayUnits).sum + r.firstDayWhole m ∧
      (r.firstDayWhole m = 0 ∨ (r.upTo m).units ≤ 1000) := by
  have hsingle : r.start ≠ r.stop := by
    intro h
    exact absurd (Int.lt_of_le_of_lt hstart hstop) (h ▸ Int.lt_irrefl _)
  rcases Int.lt_or_eq_of_le hstart with hlt | heq
  · have hne : m ≠ r.start := by
      rintro rfl
      exact Int.lt_irrefl _ hlt
    have hwhole : r.firstDayWhole m = 0 := if_neg fun h => hne h.1
    refine ⟨?_, Or.inl hwhole⟩
    rw [hwhole, add_zero]
    unfold units countedDays
    refine congrArg List.sum (List.map_congr_left fun d hd => ?_)
    have hle := (Date.le_of_mem_through (List.mem_of_mem_filter hd)).2
    have hstop' : d ≠ r.stop := by
      rintro rfl
      exact absurd hstop (Date.not_lt.mpr hle)
    -- The last day of the first part is a whole day, as it is in the middle of the range.
    unfold dayUnits upTo lastDayUnits
    simp only [if_neg hne.symm, if_neg hsingle, if_neg hstop', ite_self]
  · obtain rfl : r.start = m := Date.ordinal_injective heq
    rw [sum_self, dayUnits_first hsingle _ rfl]
    have hunits : (r.upTo r.start).units = if r.Skips r.start then 0 else (r.upTo r.start).dayUnits r.start :=
      (r.upTo r.start).sum_self r.start
    rw [hunits]
    unfold firstDayWhole dayUnits upTo
    dsimp only
    by_cases hskips : r.Skips r.start
    · simp [hskips]
    · by_cases hhalf : r.start ∈ r.halfHolidays <;> cases hperiod : r.startPeriod <;>
        simp [hskips, hhalf, singleDayUnits, firstDayUnits]

theorem units_startingOn (hstart : r.start < d) (hstop : d ≤ r.stop) :
    (r.startingOn d).units =
      (((Date.through d r.stop).filter fun x => ¬r.Skips x).map r.dayUnits).sum + r.lastDayWhole d ∧
      (r.lastDayWhole d = 0 ∨ (r.startingOn d).units ≤ 1000) := by
  have hsingle : r.start ≠ r.stop := by
    intro h
    exact absurd (Int.lt_of_lt_of_le hstart hstop) (h ▸ Int.lt_irrefl _)
  rcases Int.lt_or_eq_of_le hstop with hlt | heq
  · have hne : d ≠ r.stop := by
      rintro rfl
      exact Int.lt_irrefl _ hlt
    have hwhole : r.lastDayWhole d = 0 := if_neg fun h => hne h.1
    refine ⟨?_, Or.inl hwhole⟩
    rw [hwhole, add_zero]
    unfold units countedDays
    refine congrArg List.sum (List.map_congr_left fun x hx => ?_)
    have hle : d ≤ x := (Date.le_of_mem_through (List.mem_of_mem_filter hx)).1
    have hstart' : x ≠ r.start := by
      rintro rfl
      exact absurd hstart (Date.not_lt.mpr hle)
    -- The first day of the second part is a whole day, as it is in the middle of the range.
    unfold dayUnits startingOn firstDayUnits
    simp only [if_neg hne, if_neg hsingle, if_neg hstart']
    by_cases hfirst : x = d
    · have hstop' : x ≠ r.stop := hfirst ▸ hne
      rw [if_pos hfirst, if_neg hstop']
    · rw [if_neg hfirst]
  · obtain rfl : d = r.stop := Date.ordinal_injective heq
    rw [sum_self, dayUnits_last hsingle _ rfl]
    have hunits : (r.startingOn r.stop).units =
        if r.Skips r.stop then 0 else (r.startingOn r.stop).dayUnits r.stop := (r.startingOn r.stop).sum_self r.stop
    rw [hunits]
    unfold lastDayWhole dayUnits startingOn
    dsimp only
    by_cases hskips : r.Skips r.stop
    · simp [hskips]
    · by_cases hhalf : r.stop ∈ r.halfHolidays <;> cases hperiod : r.endPeriod <;>
        simp [hskips, hhalf, singleDayUnits, lastDayUnits]

end LeaveRange

/-- A leave is bounded, and its two parts come to as much, where a first or a last day that counts by half and is
a part of its own counts whole. -/
theorem leave_units_split (hstart : r.start ≤ m) (hstop : m < r.stop) (hlast : r.stop ≤ last)
    (hskip : r.Skips r.stop → r.stop < last) (hfits : r.units ≤ 2147483647) :
    ∃ total first second, (∀ v, Returns b last r v ↔ v = some total) ∧
      (∀ v, Returns b last (r.upTo m) v ↔ v = some first) ∧
      (∀ v, Returns b last (r.startingOn m.succ) v ↔ v = some second) ∧
      0 ≤ total ∧ total ≤ 1000 * r.countedDays.length ∧
      first + second = total + r.firstDayWhole m + r.lastDayWhole m.succ := by
  have hbefore : r.start < m.succ := Int.lt_of_le_of_lt hstart (Date.lt_succ m)
  have hafter : m.succ ≤ r.stop := Date.succ_le_of_lt hstop
  obtain ⟨hfirst, hfirstFits⟩ := LeaveRange.units_upTo hstart hstop
  obtain ⟨hsecond, hsecondFits⟩ := LeaveRange.units_startingOn hbefore hafter
  have htotal : r.units = (((Date.through r.start m).filter fun d => ¬r.Skips d).map r.dayUnits).sum +
      (((Date.through m.succ r.stop).filter fun d => ¬r.Skips d).map r.dayUnits).sum := by
    rw [LeaveRange.units, LeaveRange.countedDays, Date.through_append hstart (Int.le_of_lt hstop), List.filter_append,
      List.map_append, List.sum_append]
  have hfirstPart := r.sum_dayUnits_nonneg ((Date.through r.start m).filter fun d => ¬r.Skips d)
  have hsecondPart := r.sum_dayUnits_nonneg ((Date.through m.succ r.stop).filter fun d => ¬r.Skips d)
  have hreturns : Returns b last r (some r.units) :=
    (returns_units_iff (Int.le_trans hstart (Int.le_of_lt hstop)) hlast hfits).mpr hskip
  have hreturnsFirst : Returns b last (r.upTo m) (some (r.upTo m).units) :=
    (returns_units_iff (r := r.upTo m) hstart (Int.le_trans (Int.le_of_lt hstop) hlast) (by omega)).mpr
      fun _ => Int.lt_of_lt_of_le hstop hlast
  have hreturnsSecond : Returns b last (r.startingOn m.succ) (some (r.startingOn m.succ).units) :=
    (returns_units_iff (r := r.startingOn m.succ) hafter hlast (by omega)).mpr hskip
  refine ⟨r.units, (r.upTo m).units, (r.startingOn m.succ).units, fun v => ⟨fun h => h.unique hreturns, ?_⟩,
    fun v => ⟨fun h => h.unique hreturnsFirst, ?_⟩, fun v => ⟨fun h => h.unique hreturnsSecond, ?_⟩,
    r.units_bounds.1, r.units_bounds.2, by omega⟩
  · rintro rfl
    exact hreturns
  · rintro rfl
    exact hreturnsFirst
  · rintro rfl
    exact hreturnsSecond

theorem march_second_valid : 1 ≤ 3 ∧ 3 ≤ 12 ∧ 1 ≤ 2 ∧ 2 ≤ Finance.daysInMonth 2026 3 := by decide

/-- From a Monday noon to a Wednesday noon. -/
def halfMonday : LeaveRange where
  start := ⟨2026, 3, 2, march_second_valid⟩
  stop := ⟨2026, 3, 4, by decide⟩
  startPeriod := .pm
  endPeriod := .am
  excludeWeekends := true
  fullHolidays := []
  halfHolidays := []

theorem leave_units_split_monday :
    ∃ total first second, (∀ v, Returns .debug naiveDateMax halfMonday v ↔ v = some total) ∧
      (∀ v, Returns .debug naiveDateMax (halfMonday.upTo ⟨2026, 3, 2, by decide⟩) v ↔ v = some first) ∧
      (∀ v, Returns .debug naiveDateMax (halfMonday.startingOn ⟨2026, 3, 3, by decide⟩) v ↔ v = some second) ∧
      0 ≤ total ∧ total ≤ 1000 * halfMonday.countedDays.length ∧ first + second = total + 500 + 0 := by
  have hlast : halfMonday.stop < naiveDateMax := by decide
  exact leave_units_split (r := halfMonday) (m := ⟨2026, 3, 2, by decide⟩) (by decide) (by decide)
    (Int.le_of_lt hlast) (fun _ => hlast) (by decide)

/-- Two days; the Monday afternoon alone is a whole day, and the rest is a day and a half. -/
theorem leave_units_not_additive :
    Returns .debug naiveDateMax halfMonday (some 2000) ∧
      Returns .debug naiveDateMax (halfMonday.upTo ⟨2026, 3, 2, by decide⟩) (some 1000) ∧
      Returns .debug naiveDateMax (halfMonday.startingOn ⟨2026, 3, 3, by decide⟩) (some 1500) :=
  ⟨⟨4, by decide⟩, ⟨2, by decide⟩, ⟨3, by decide⟩⟩

end Noxara.Leave
