import Mathlib.Order.Bounds.Basic
import Noxara.AuthzConditions

/-! What a time window is meant to be, one interval for each listed day of the week, and the instants on which the
condition agrees with it. -/
namespace Noxara.Authz

/-- Nanoseconds. -/
def second : Int := 1000000000

def day : Int := 86400 * second

def NaiveTime.nanos (t : NaiveTime) : Int := t.secs * second + t.frac

/-- A time of day as a text gives it: without a fraction, or the leap second of a minute. -/
structure NaiveTime.Whole (t : NaiveTime) : Prop where
  secs : t.secs < 86400
  frac : t.frac = 0 ∨ (t.frac : Int) = second

/-- 1 = Monday to 7 = Sunday, of the days since the epoch. -/
def weekdayOf (d : Int) : Nat := ((d + 3) % 7).toNat + 1

def windowStart (startT : NaiveTime) (d : Int) : Int := d * day + startT.nanos

/-- It ends at the end that comes next; where start and end are equal it is empty. -/
def windowStop (startT endT : NaiveTime) (d : Int) : Int :=
  (if startT.le endT then d else d + 1) * day + endT.nanos

/-- The instant lies in the window of a listed day. -/
def InWindow (startT endT : NaiveTime) (weekdays : List Nat) (now : Int) : Prop :=
  ∃ d, weekdayOf d ∈ weekdays ∧ windowStart startT d ≤ now ∧ now < windowStop startT endT d

theorem NaiveTime.le_iff {s e : NaiveTime} :
    s.le e = true ↔ s.secs < e.secs ∨ (s.secs = e.secs ∧ s.frac ≤ e.frac) := by
  simp [NaiveTime.le]

/-- The leap second of a minute and the next minute begin at one time. -/
theorem NaiveTime.Whole.le_iff_nanos {s e : NaiveTime} (hs : s.Whole) (he : e.Whole) (hne : s.nanos ≠ e.nanos) :
    s.le e = true ↔ s.nanos ≤ e.nanos := by
  obtain ⟨_, hs⟩ := hs
  obtain ⟨_, he⟩ := he
  rw [NaiveTime.le_iff]
  simp only [NaiveTime.nanos, second] at *
  omega

theorem NaiveTime.Whole.bounds {t : NaiveTime} (ht : t.Whole) : 0 ≤ t.nanos ∧ t.nanos ≤ day := by
  obtain ⟨hsecs, hfrac⟩ := ht
  simp only [NaiveTime.nanos, day, second] at *
  omega

/-- Of the instants after the begin that have the time of the end, it is the first. -/
theorem windowStop_least {s e : NaiveTime} (hs : s.Whole) (he : e.Whole) (hne : ¬day ∣ s.nanos - e.nanos) (d : Int) :
    IsLeast {x | windowStart s d < x ∧ ∃ d', x = d' * day + e.nanos} (windowStop s e d) := by
  have hdiffer : s.nanos ≠ e.nanos := fun heq => hne (by rw [heq, Int.sub_self]; exact Int.dvd_zero _)
  have hle := hs.le_iff_nanos he hdiffer
  have hs := hs.bounds
  have he := he.bounds
  unfold windowStart windowStop
  simp only [day, second] at *
  by_cases h : s.le e = true
  · have hlt := hle.mp h
    rw [if_pos h]
    refine ⟨⟨by omega, d, rfl⟩, ?_⟩
    rintro x ⟨hx, d', rfl⟩
    omega
  · have hlt := mt hle.mpr h
    rw [if_neg h]
    refine ⟨⟨by omega, d + 1, rfl⟩, ?_⟩
    rintro x ⟨hx, d', rfl⟩
    omega

section
variable {s e : NaiveTime} (now : Int)

/-- The condition looks at whole seconds only, as the ends of a window are. -/
theorem le_timeOfDay (hs : s.Whole) : s.le (timeOfDay (now / second)) = true ↔ s.nanos ≤ now % day := by
  obtain ⟨_, hs⟩ := hs
  have hclock : ((now / second % 86400).toNat : Int) = now % day / second := by
    unfold day second
    omega
  rw [NaiveTime.le_iff]
  simp only [NaiveTime.nanos, timeOfDay, second, day] at *
  omega

theorem weekdayNum_second : weekdayNum (now / second) = weekdayOf (now / day) := by
  unfold weekdayNum weekdayOf day second
  have hdays : now / 1000000000 / 86400 = now / (86400 * 1000000000) := by omega
  rw [hdays]

theorem matchTimeWindow_iff [TimeFormats] {start stop : String} (hstart : parseHms start = some s)
    (hstop : parseHms stop = some e) (hs : s.Whole) (he : e.Whole) {weekdays : List Nat} (hne : weekdays ≠ []) :
    matchTimeWindow (some (now / second)) start stop weekdays = true ↔ weekdayOf (now / day) ∈ weekdays ∧
      if s.le e then s.nanos ≤ now % day ∧ now % day < e.nanos else s.nanos ≤ now % day ∨
        now % day < e.nanos := by
  unfold matchTimeWindow
  rw [hstart, hstop]
  dsimp only
  rw [weekdayNum_second]
  by_cases hday : weekdayOf (now / day) ∈ weekdays
  · rw [if_neg (fun h => h.2 hday)]
    have hstartIff := le_timeOfDay now hs
    have hstopIff := le_timeOfDay now he
    split_ifs <;> simp only [Bool.and_eq_true, Bool.or_eq_true, Bool.not_eq_true', hstartIff, hday, true_and,
      ← Bool.not_eq_true, hstopIff, not_le]
  · rw [if_pos ⟨hne, hday⟩]
    exact iff_of_false Bool.false_ne_true fun h => hday h.1

theorem inWindow_of_le (hs : s.Whole) (he : e.Whole) (hle : s.le e = true) {weekdays : List Nat} :
    InWindow s e weekdays now ↔ weekdayOf (now / day) ∈ weekdays ∧ s.nanos ≤ now % day ∧
      now % day < e.nanos := by
  have hs := hs.bounds
  have he := he.bounds
  unfold InWindow windowStart windowStop
  simp only [if_pos hle]
  constructor
  · rintro ⟨d, hd, hstart, hstop⟩
    have hday : now / day = d := by
      unfold day second at *
      omega
    rw [hday]
    refine ⟨hd, ?_⟩
    unfold day second at *
    omega
  · rintro ⟨hd, hstart, hstop⟩
    refine ⟨now / day, hd, ?_⟩
    unfold day second at *
    omega

/-- One that does lies on its day and the next. -/
theorem inWindow_of_not_le (hs : s.Whole) (he : e.Whole) (hle : ¬s.le e = true) {weekdays : List Nat} :
    InWindow s e weekdays now ↔ (weekdayOf (now / day) ∈ weekdays ∧ s.nanos ≤ now % day) ∨
      (weekdayOf (now / day - 1) ∈ weekdays ∧ now % day < e.nanos) := by
  have hs := hs.bounds
  have he := he.bounds
  unfold InWindow windowStart windowStop
  simp only [if_neg hle]
  constructor
  · rintro ⟨d, hd, hstart, hstop⟩
    have hdays : (now / day = d ∧ s.nanos ≤ now % day) ∨ (now / day - 1 = d ∧ now % day < e.nanos) := by
      unfold day second at *
      omega
    rcases hdays with ⟨hday, hrest⟩ | ⟨hday, hrest⟩ <;> rw [hday]
    · exact .inl ⟨hd, hrest⟩
    · exact .inr ⟨hd, hrest⟩
  · rintro (⟨hd, hstart⟩ | ⟨hd, hstop⟩)
    · refine ⟨now / day, hd, ?_⟩
      unfold day second at *
      omega
    · refine ⟨now / day - 1, hd, ?_⟩
      unfold day second at *
      omega

/-- The condition holds at the instants of the windows of the listed days if and only if the window does not cross
midnight, the instant does not come before the time of the end, or the day of the instant and the day before are
both listed or both not. -/
theorem time_window_iff [TimeFormats] {start stop : String} (hstart : parseHms start = some s)
    (hstop : parseHms stop = some e) (hs : s.Whole) (he : e.Whole) {weekdays : List Nat} (hne : weekdays ≠ []) :
    (matchTimeWindow (some (now / second)) start stop weekdays = true ↔ InWindow s e weekdays now) ↔
      s.le e = true ∨ e.nanos ≤ now % day ∨
        (weekdayOf (now / day) ∈ weekdays ↔ weekdayOf (now / day - 1) ∈ weekdays) := by
  rw [matchTimeWindow_iff now hstart hstop hs he hne]
  by_cases hle : s.le e = true
  · rw [if_pos hle, inWindow_of_le now hs he hle]
    exact iff_of_true Iff.rfl (.inl hle)
  · rw [if_neg hle, inWindow_of_not_le now hs he hle]
    -- before the end the window of the day before is still open
    have hends : s.nanos ≤ now % day → e.nanos ≤ now % day := by
      intro hstart
      by_cases heq : s.nanos = e.nanos
      · rwa [← heq]
      · exact (not_le.mp (mt (hs.le_iff_nanos he heq).mpr hle)).le.trans hstart
    by_cases hend : e.nanos ≤ now % day
    · simp [hend, not_lt.mpr hend]
    · have hstart' : ¬s.nanos ≤ now % day := fun h => hend (hends h)
      simp [hend, hle, hstart', not_le.mp hend]

end

/-- Friday from ten in the evening to six in the morning, on Friday at eleven in the evening. -/
theorem time_window_iff_friday :
    letI := canonicalTimeFormats
    matchTimeWindow (some (165600 * second / second)) "22:00" "06:00" [5] = true ↔
      InWindow ⟨79200, 0⟩ ⟨21600, 0⟩ [5] (165600 * second) := by
  let := canonicalTimeFormats
  have hstart : parseHms "22:00" = some ⟨79200, 0⟩ := by decide +kernel
  have hstop : parseHms "06:00" = some ⟨21600, 0⟩ := by decide +kernel
  exact (time_window_iff (165600 * second) hstart hstop ⟨by decide, .inl rfl⟩ ⟨by decide, .inl rfl⟩
    (by decide)).mpr
    (.inr (.inl (by decide)))

/-- The window of Friday night: Saturday at one is in it and is refused, Friday at one is not and is let in. -/
theorem time_window_crosses :
    letI := canonicalTimeFormats
    (matchTimeWindow (some (176400 * second / second)) "22:00" "06:00" [5] = false ∧
      InWindow ⟨79200, 0⟩ ⟨21600, 0⟩ [5] (176400 * second)) ∧
    matchTimeWindow (some (90000 * second / second)) "22:00" "06:00" [5] = true ∧
      ¬InWindow ⟨79200, 0⟩ ⟨21600, 0⟩ [5] (90000 * second) := by
  let := canonicalTimeFormats
  refine ⟨⟨by decide +kernel, 1, by decide, by decide, by decide⟩, by decide +kernel, ?_⟩
  rw [inWindow_of_not_le _ ⟨by decide, .inl rfl⟩ ⟨by decide, .inl rfl⟩ (by decide)]
  decide

end Noxara.Authz
