import Noxara.HalfUpRounding
import Noxara.MachineWords
import Noxara.MoneyArithmetic

/-! Half-up rounding on 128-bit words: which fractions are rounded without leaving them. -/
namespace Noxara.Finance
open Words Rounding

/-- `Money::round_half_up`, with every operation on a word of its type; `none` is a panic. -/
def Money.roundHalfUpIn (build : Build) (numerator denominator : Int) : Option (Except MoneyError Int) :=
  if denominator = 0 then some (.error .overflow)
  else do
    let neg := xor (numerator < 0) (denominator < 0)
    -- `unsigned_abs` holds for every word, and a quotient or remainder is no larger.
    let n : Int := numerator.natAbs
    let d : Int := denominator.natAbs
    let q := n / d
    let r := n % d
    let twice ← build.arith u128 (r * 2)
    let rounded ← (if twice ≥ d then build.arith u128 (q + 1) else some q)
    let magnitude ← build.cast i128 rounded
    let signed ← (if neg then build.arith i128 (-magnitude) else some magnitude)
    some (checked signed)

def Money.scaleHalfUpIn (build : Build) (m : Money) (factorNum factorDen : Int) :
    Option (Except MoneyError Money) :=
  if factorDen = 0 then some (.error .overflow)
  else if ¬i128.Has (m.amountMinor * factorNum) then some (.error .overflow)
  else do
    let amountMinor ← Money.roundHalfUpIn build (m.amountMinor * factorNum) factorDen
    some (amountMinor.map fun a => ⟨a, m.currency⟩)

/-- The numerator whose magnitude no signed word holds, over a denominator that keeps it. -/
def AtTop (numerator denominator : Int) : Prop := numerator = i128.low ∧ denominator.natAbs = 1

instance (n d : Int) : Decidable (AtTop n d) := inferInstanceAs (Decidable (_ ∧ _))

variable {build : Build} {n d v : Int}

def magnitudeOf (n d : Int) : ℕ :=
  let q := n.natAbs / d.natAbs
  if n.natAbs % d.natAbs * 2 ≥ d.natAbs then q + 1 else q

theorem roundAway_magnitude (n : Int) (hd : d ≠ 0) :
    roundAway ((n : ℚ) / d) = if xor (n < 0) (d < 0) then -(magnitudeOf n d : Int) else magnitudeOf n d := by
  have hpos : 0 < d.natAbs := Int.natAbs_pos.mpr hd
  rw [roundAway_div, roundAway_natCast_div _ hpos]
  unfold magnitudeOf
  split_ifs <;> rfl

/-- The unbounded model rounds to the nearest integer, ties away from zero. -/
theorem Money.roundHalfUp_eq (n : Int) (hd : d ≠ 0) :
    Money.roundHalfUp n d = checked (roundAway ((n : ℚ) / d)) := by
  rw [roundAway_magnitude n hd]
  unfold Money.roundHalfUp magnitudeOf
  rw [if_neg hd]
  dsimp only
  split_ifs <;> rfl

theorem magnitudeOf_le_top (hn : i128.Has n) (hd : d ≠ 0) : magnitudeOf n d ≤ 2 ^ 127 := by
  rw [has_i128] at hn
  have hpos : 0 < d.natAbs := Int.natAbs_pos.mpr hd
  have hmod := Nat.mod_lt n.natAbs hpos
  have hdiv := Nat.div_add_mod n.natAbs d.natAbs
  have hle : n.natAbs ≤ 2 ^ 127 := by omega
  unfold magnitudeOf
  dsimp only
  split_ifs with hhalf
  · -- A denominator of one leaves no remainder, and a larger one halves the quotient.
    have htwo : 2 ≤ d.natAbs := by omega
    have hq : n.natAbs / d.natAbs * 2 ≤ n.natAbs := by
      calc n.natAbs / d.natAbs * 2 ≤ n.natAbs / d.natAbs * d.natAbs := Nat.mul_le_mul_left _ htwo
        _ ≤ n.natAbs := Nat.div_mul_le_self _ _
    omega
  · exact (Nat.div_le_self _ _).trans hle

theorem magnitudeOf_eq_top (hn : i128.Has n) (hd : d ≠ 0) : magnitudeOf n d = 2 ^ 127 ↔ AtTop n d := by
  rw [has_i128] at hn
  have hpos : 0 < d.natAbs := Int.natAbs_pos.mpr hd
  have hmod := Nat.mod_lt n.natAbs hpos
  have hle : n.natAbs ≤ 2 ^ 127 := by omega
  have hlow : i128.low = -2 ^ 127 := rfl
  unfold magnitudeOf AtTop
  rw [hlow]
  dsimp only
  constructor
  · intro h
    by_cases hone : d.natAbs = 1
    · rw [hone, Nat.mod_one, Nat.div_one] at h
      simp only [ge_iff_le, Nat.not_le.mpr Nat.one_pos, zero_mul, if_false] at h
      omega
    · have htwo : 2 ≤ d.natAbs := by omega
      have hq : n.natAbs / d.natAbs * 2 ≤ n.natAbs :=
        (Nat.mul_le_mul_left _ htwo).trans (Nat.div_mul_le_self _ _)
      split_ifs at h <;> omega
  · rintro ⟨rfl, hone⟩
    rw [hone, Nat.mod_one, Nat.div_one]
    norm_num

/-- Away from the top, every build agrees with the unbounded model. -/
theorem Money.roundHalfUpIn_eq (hn : i128.Has n) (hd : i128.Has d) (h : ¬AtTop n d) :
    Money.roundHalfUpIn build n d = some (Money.roundHalfUp n d) := by
  by_cases hzero : d = 0
  · unfold Money.roundHalfUpIn Money.roundHalfUp
    rw [if_pos hzero, if_pos hzero]
  have hle := magnitudeOf_le_top hn hzero
  have hlt : magnitudeOf n d < 2 ^ 127 := lt_of_le_of_ne hle fun heq => h ((magnitudeOf_eq_top hn hzero).mp heq)
  have hpos : 0 < d.natAbs := Int.natAbs_pos.mpr hzero
  have hrem := Nat.mod_lt n.natAbs hpos
  have htwice : build.arith u128 ((n.natAbs : Int) % d.natAbs * 2) = some ((n.natAbs : Int) % d.natAbs * 2) := by
    rw [has_i128] at hd
    exact Build.arith_of_has (has_u128.mpr (by omega))
  have hrounded : (if (n.natAbs : Int) % d.natAbs * 2 ≥ d.natAbs then
      build.arith u128 ((n.natAbs : Int) / d.natAbs + 1) else some ((n.natAbs : Int) / d.natAbs)) =
      some (magnitudeOf n d : Int) := by
    have hquot : 0 ≤ (n.natAbs : Int) / d.natAbs := Int.natCast_nonneg (n.natAbs / d.natAbs)
    unfold magnitudeOf at hlt ⊢
    dsimp only at hlt ⊢
    rw [← Int.natCast_mod]
    split_ifs at hlt ⊢
    · exact Build.arith_of_has (has_u128.mpr (by omega))
    · omega
    · omega
    · rfl
  have hsign : build.arith i128 (-(magnitudeOf n d : Int)) = some (-(magnitudeOf n d : Int)) :=
    Build.arith_of_has (has_i128.mpr (by omega))
  have hcast : build.cast i128 (magnitudeOf n d) = some (magnitudeOf n d : Int) :=
    Build.cast_of_has (has_i128.mpr (by omega))
  rw [Money.roundHalfUp_eq n hzero, roundAway_magnitude n hzero]
  unfold Money.roundHalfUpIn
  rw [if_neg hzero]
  simp only [htwice, hrounded, hcast, hsign, Option.bind_eq_bind, Option.bind_some]
  split_ifs <;> rfl

theorem Money.roundHalfUpIn_top (h : AtTop n d) : Money.roundHalfUpIn .strict n d = none := by
  obtain ⟨rfl, hd⟩ := h
  rcases Int.natAbs_eq_iff.mp hd with rfl | rfl <;> decide

/-- An amount and a factor multiply far below the top. -/
theorem Money.scaleHalfUpIn_eq {m : Money} {factorNum factorDen : Int} (hm : InI64 m.amountMinor)
    (hnum : InI64 factorNum) (hden : InI64 factorDen) :
    Money.scaleHalfUpIn build m factorNum factorDen = some (m.scaleHalfUp factorNum factorDen) := by
  have hproduct : |m.amountMinor * factorNum| ≤ 2 ^ 63 * 2 ^ 63 := by
    rw [abs_mul]
    rw [inI64_iff, i64Min, i64Max] at hm hnum
    exact mul_le_mul (abs_le.mpr (by omega)) (abs_le.mpr (by omega)) (abs_nonneg _) (by norm_num)
  have hrange := abs_le.mp hproduct
  have hhas : i128.Has (m.amountMinor * factorNum) := has_i128.mpr (by omega)
  have hdenominator : i128.Has factorDen := by
    rw [inI64_iff, i64Min, i64Max] at hden
    exact has_i128.mpr (by omega)
  have htop : ¬AtTop (m.amountMinor * factorNum) factorDen := by
    rintro ⟨hlow, -⟩
    have : i128.low = -2 ^ 127 := rfl
    omega
  unfold Money.scaleHalfUpIn Money.scaleHalfUp
  split_ifs with hzero
  · rfl
  · rw [Money.roundHalfUpIn_eq hhas hdenominator htop]
    cases Money.roundHalfUp (m.amountMinor * factorNum) factorDen <;> rfl

/-- Nothing panics or wraps, only a quotient that does not fit is refused, and another is rounded to
the nearest integer, away from zero on a tie. -/
structure Money.RoundsExactly (n d : Int) : Prop where
  kept : ∃ result, ∀ build, Money.roundHalfUpIn build n d = some result
  overflow : ∀ build, Money.roundHalfUpIn build n d = some (.error .overflow) ↔
    d = 0 ∨ ∃ m, IsNearestAway ((n : ℚ) / d) m ∧ ¬InI64 m
  nearest : ∀ build, Money.roundHalfUpIn build n d ≠ some (.error .overflow) →
    ∃ v, Money.roundHalfUpIn build n d = some (.ok v) ∧ IsNearestAway ((n : ℚ) / d) v
  odd : i128.Has (-n) → ∀ build v w, Money.roundHalfUpIn build n d = some (.ok v) →
    Money.roundHalfUpIn build (-n) d = some (.ok w) → w = -v

theorem Money.roundsExactly (hn : i128.Has n) (hd : i128.Has d) (h : ¬AtTop n d) : Money.RoundsExactly n d where
  kept := ⟨_, fun _ => Money.roundHalfUpIn_eq hn hd h⟩
  overflow build := by
    rw [Money.roundHalfUpIn_eq hn hd h]
    by_cases hzero : d = 0
    · simp [hzero, Money.roundHalfUp]
    rw [Money.roundHalfUp_eq n hzero, checked]
    split_ifs with hfits
    · simp only [Option.some.injEq, reduceCtorEq, hzero, false_or, false_iff]
      rintro ⟨m, hm, hout⟩
      rw [hm.eq_roundAway] at hout
      exact hout hfits
    · simp only [hzero, false_or, true_iff]
      exact ⟨_, isNearestAway_roundAway _, hfits⟩
  nearest build := by
    rw [Money.roundHalfUpIn_eq hn hd h]
    by_cases hzero : d = 0
    · simp [hzero, Money.roundHalfUp]
    rw [Money.roundHalfUp_eq n hzero, checked]
    split_ifs with hfits
    · exact fun _ => ⟨_, rfl, isNearestAway_roundAway _⟩
    · exact fun hne => absurd rfl hne
  odd hneg build v w hv hw := by
    by_cases hzero : d = 0
    · simp [hzero, Money.roundHalfUpIn] at hv
    have htop : ¬AtTop (-n) d := by
      rintro ⟨hlow, hone⟩
      have hvalue : i128.low = -2 ^ 127 := rfl
      rw [has_i128] at hn
      omega
    rw [Money.roundHalfUpIn_eq hn hd h, Money.roundHalfUp_eq n hzero, Option.some.injEq, checked_ok] at hv
    rw [Money.roundHalfUpIn_eq hneg hd htop, Money.roundHalfUp_eq (-n) hzero, Option.some.injEq, checked_ok] at hw
    obtain ⟨-, rfl⟩ := hv
    obtain ⟨-, rfl⟩ := hw
    rw [Int.cast_neg, neg_div, roundAway_neg]

theorem rounds_exactly_iff (n d : Int) (hn : i128.Has n) (hd : i128.Has d) :
    Money.RoundsExactly n d ↔ ¬(n = i128.low ∧ d.natAbs = 1) := by
  constructor
  · intro h htop
    obtain ⟨result, hresult⟩ := h.kept
    have hstrict := hresult .strict
    rw [Money.roundHalfUpIn_top htop] at hstrict
    cases hstrict
  · exact Money.roundsExactly hn hd

theorem rounds_exactly_half : Money.RoundsExactly (-5) 2 :=
  (rounds_exactly_iff (-5) 2 (by decide) (by decide)).mpr (by decide)

/-- The least numerator over one panics in a debug build. -/
theorem rounding_panics : Money.roundHalfUpIn .debug (-170141183460469231731687303715884105728) 1 = none ∧
    ¬Money.RoundsExactly (-170141183460469231731687303715884105728) 1 := by
  have hpanic : Money.roundHalfUpIn .debug (-170141183460469231731687303715884105728) 1 = none := by decide
  refine ⟨hpanic, fun h => ?_⟩
  obtain ⟨result, hresult⟩ := h.kept
  have hdebug := hresult .debug
  rw [hpanic] at hdebug
  cases hdebug

end Noxara.Finance
