import Noxara.CalendarMonths

/-! The dates of a range, one after another. -/
namespace Noxara.Finance.Date

/-- No date lies between a date and the day after. -/
theorem succ_le_of_lt {d x : Date} (h : d < x) : d.succ ≤ x := by
  have hd := d.valid
  have hx := x.valid
  have hmonth := daysInMonth_le x.year x.month
  change d.ordinal < x.ordinal at h
  change d.succ.ordinal ≤ x.ordinal
  by_cases hsame : d.year = x.year ∧ d.month = x.month
  · obtain ⟨hyear, hmonth⟩ := hsame
    rw [← hyear, ← hmonth] at hx
    unfold succ
    split_ifs <;> simp only [ordinal] at h ⊢ <;> omega
  · unfold succ
    split_ifs <;> simp only [ordinal] at h ⊢ <;> omega

theorem le_or_lt (a b : Date) : a ≤ b ∨ b < a := by
  rw [le_def]
  change _ ∨ b.ordinal < a.ordinal
  omega

theorem not_le {a b : Date} : ¬a ≤ b ↔ b < a := Int.not_le

theorem not_lt {a b : Date} : ¬a < b ↔ b ≤ a := Int.not_lt

theorem induction_past (stop : Date) {P : Date → Prop} (past : ∀ d, stop < d → P d)
    (day : ∀ d, d ≤ stop → P d.succ → P d) (d : Date) : P d := by
  induction hn : (stop.ordinal + 1 - d.ordinal).toNat using Nat.strongRecOn generalizing d with
  | _ n ih =>
    rcases le_or_lt d stop with hle | hlt
    · refine day d hle (ih _ ?_ d.succ rfl)
      have hsucc : d.ordinal < d.succ.ordinal := lt_succ d
      have hle : d.ordinal ≤ stop.ordinal := hle
      omega
    · exact past d hlt

/-- At most `n` dates from `start` to `stop`. -/
def within : ℕ → Date → Date → List Date
  | 0, _, _ => []
  | n + 1, start, stop => if start ≤ stop then start :: within n start.succ stop else []

/-- The dates from `start` to `stop`. -/
def through (start stop : Date) : List Date := within (stop.ordinal + 1 - start.ordinal).toNat start stop

variable {start stop m d : Date}

/-- More than enough makes no difference. -/
theorem within_eq {n k : ℕ} (hn : stop.ordinal + 1 - start.ordinal ≤ n)
    (hk : stop.ordinal + 1 - start.ordinal ≤ k) :
    within n start stop = within k start stop := by
  induction n generalizing start k with
  | zero =>
    have hpast : ¬start ≤ stop := fun hle => by
      have hle : start.ordinal ≤ stop.ordinal := hle
      omega
    cases k with
    | zero => rfl
    | succ k => rw [within, within, if_neg hpast]
  | succ n ih =>
    have hsucc : start.ordinal < start.succ.ordinal := lt_succ start
    cases k with
    | zero =>
      have hpast : ¬start ≤ stop := fun hle => by
        have hle : start.ordinal ≤ stop.ordinal := hle
        omega
      rw [within, within, if_neg hpast]
    | succ k =>
      rw [within, within, ih (k := k) (by omega) (by omega)]

theorem through_of_lt (h : stop < start) : through start stop = [] := by
  have h : stop.ordinal < start.ordinal := h
  unfold through
  rw [Int.toNat_of_nonpos (by omega), within]

theorem through_of_le (h : start ≤ stop) : through start stop = start :: through start.succ stop := by
  have hsucc : start.ordinal < start.succ.ordinal := lt_succ start
  have hle : start.ordinal ≤ stop.ordinal := h
  unfold through
  obtain ⟨n, hn⟩ : ∃ n, (stop.ordinal + 1 - start.ordinal).toNat = n + 1 :=
    ⟨(stop.ordinal - start.ordinal).toNat, by omega⟩
  rw [hn, within, if_pos h, within_eq (by omega) (Int.self_le_toNat _)]

theorem through_self (d : Date) : through d d = [d] := by
  rw [through_of_le (Int.le_refl _), through_of_lt (lt_succ d)]

theorem le_of_mem_through (h : d ∈ through start stop) : start ≤ d ∧ d ≤ stop := by
  induction start using induction_past stop with
  | past start hlt =>
    rw [through_of_lt hlt] at h
    cases h
  | day start hle ih =>
    rw [through_of_le hle] at h
    rcases List.mem_cons.mp h with rfl | h
    · exact ⟨Int.le_refl _, hle⟩
    · exact ⟨Int.le_trans (Int.le_of_lt (lt_succ start)) (ih h).1, (ih h).2⟩

theorem mem_through : d ∈ through start stop ↔ start ≤ d ∧ d ≤ stop := by
  refine ⟨le_of_mem_through, fun h => ?_⟩
  induction start using induction_past stop with
  | past start hlt => exact absurd (Int.le_trans h.1 h.2) (not_le.mpr hlt)
  | day start hle ih =>
    rw [through_of_le hle]
    rcases Int.lt_or_eq_of_le h.1 with hlt | heq
    · exact List.mem_cons_of_mem _ (ih ⟨succ_le_of_lt hlt, h.2⟩)
    · rw [ordinal_injective heq]
      exact List.mem_cons_self

theorem through_nodup (start stop : Date) : (through start stop).Nodup := by
  induction start using induction_past stop with
  | past start hlt =>
    rw [through_of_lt hlt]
    exact List.nodup_nil
  | day start hle ih =>
    rw [through_of_le hle]
    refine List.nodup_cons.mpr ⟨fun hmem => ?_, ih⟩
    exact absurd (lt_succ start) (not_lt.mpr (mem_through.mp hmem).1)

/-- A range is split after any of its dates. -/
theorem through_append (hstart : start ≤ m) (hstop : m ≤ stop) :
    through start stop = through start m ++ through m.succ stop := by
  have hsplit : start ≤ m.succ → through start stop = through start m ++ through m.succ stop := by
    induction start using induction_past m with
    | past start hlt =>
      intro hle
      rw [through_of_lt hlt, List.nil_append, ordinal_injective (Int.le_antisymm hle (succ_le_of_lt hlt))]
    | day start hle ih =>
      intro _
      rw [through_of_le (Int.le_trans hle hstop), through_of_le hle, List.cons_append]
      rcases Int.lt_or_eq_of_le hle with hlt | heq
      · rw [ih (succ_le_of_lt hlt) (Int.le_trans (succ_le_of_lt hlt) (Int.le_of_lt (lt_succ m)))]
      · rw [ordinal_injective heq, through_of_lt (lt_succ m), List.nil_append]
  exact hsplit (Int.le_trans hstart (Int.le_of_lt (lt_succ m)))

def subDays (d : Date) : ℕ → Date
  | 0 => d
  | n + 1 => (d.subDays n).pred

/-- The date a signed number of days later. -/
def shift (d : Date) : Int → Date
  | .ofNat n => d.addDays n
  | .negSucc n => d.subDays (n + 1)

example : shift ⟨2024, 3, 1, by decide⟩ (-1) = ⟨2024, 2, 29, by decide⟩ := by decide

theorem dayNumber_succ (d : Date) : d.succ.dayNumber = d.dayNumber + 1 := by
  obtain ⟨year, month, day, hvalid⟩ := d
  unfold succ
  split_ifs with hday hmonth <;> dsimp only at hvalid hday <;> unfold dayNumber <;> dsimp only
  · omega
  · obtain ⟨m, rfl⟩ : ∃ m, month = m + 1 := ⟨month - 1, by omega⟩
    simp only [Nat.add_sub_cancel, List.range_succ, List.map_append, List.map_cons, List.map_nil, List.sum_append,
      List.sum_cons, List.sum_nil]
    omega
  · have hlast : ¬month < 12 := hmonth
    obtain rfl : month = 12 := by omega
    simp [List.range_succ, daysInMonth] at hvalid hday ⊢
    split_ifs <;> omega

theorem addDays_succ (d : Date) (n : ℕ) : d.addDays (n + 1) = d.succ.addDays n := by
  induction n with
  | zero => rfl
  | succ n ih => rw [addDays, ih, addDays]

theorem through_eq_map (h : start ≤ stop.succ) :
    0 ≤ stop.dayNumber - start.dayNumber + 1 ∧
      through start stop = (List.range (stop.dayNumber - start.dayNumber + 1).toNat).map start.addDays := by
  induction start using induction_past stop with
  | past start hlt =>
    obtain rfl : start = stop.succ := ordinal_injective (Int.le_antisymm h (succ_le_of_lt hlt))
    have hnumber := dayNumber_succ stop
    rw [through_of_lt hlt, Int.toNat_of_nonpos (by omega)]
    exact ⟨by omega, rfl⟩
  | day start hle ih =>
    obtain ⟨hnumber, hrest⟩ := ih (succ_le_of_lt (Int.lt_of_le_of_lt hle (lt_succ stop)))
    rw [dayNumber_succ] at hnumber hrest
    have hcount : (stop.dayNumber - start.dayNumber + 1).toNat =
        (stop.dayNumber - (start.dayNumber + 1) + 1).toNat + 1 := by omega
    refine ⟨by omega, ?_⟩
    rw [through_of_le hle, hrest, hcount, List.range_succ_eq_map, List.map_cons, List.map_map]
    refine congrArg (start :: ·) (List.map_congr_left fun n _ => ?_)
    exact (addDays_succ start n).symm

theorem countWeekdays_eq (h : start ≤ stop) :
    countWeekdays start stop = (through start stop).countP fun d => d.numDaysFromMonday < 5 := by
  rw [(through_eq_map (Int.le_trans h (Int.le_of_lt (lt_succ stop)))).2, List.countP_map]
  rfl

end Noxara.Finance.Date
