import Mathlib.Algebra.Order.Round
import Mathlib.Tactic.Linarith
import Mathlib.Tactic.NormNum
import Mathlib.Data.Rat.Floor

/-! Rounding to the nearest integer, with ties away from zero. -/
namespace Noxara.Rounding

section
variable {α : Type*} [Field α] [LinearOrder α] [IsStrictOrderedRing α] [FloorRing α]

/-- The nearest integer, of two the one farther from zero. -/
def roundAway (x : α) : ℤ := if 0 ≤ x then round x else -round (-x)

omit [IsStrictOrderedRing α] in
theorem roundAway_of_nonneg {x : α} (h : 0 ≤ x) : roundAway x = round x := if_pos h

theorem roundAway_of_nonpos {x : α} (h : x ≤ 0) : roundAway x = -round (-x) := by
  rcases h.lt_or_eq with hlt | rfl
  · exact if_neg (not_le.mpr hlt)
  · simp [roundAway]

theorem roundAway_neg (x : α) : roundAway (-x) = -roundAway x := by
  rcases le_total 0 x with h | h
  · rw [roundAway_of_nonneg h, roundAway_of_nonpos (neg_nonpos.mpr h), neg_neg]
  · rw [roundAway_of_nonpos h, roundAway_of_nonneg (neg_nonneg.mpr h), neg_neg]

@[simp] theorem roundAway_intCast (n : ℤ) : roundAway (n : α) = n := by
  unfold roundAway
  split_ifs
  · exact round_intCast n
  · rw [← Int.cast_neg, round_intCast, neg_neg]

theorem le_roundAway_iff {m : ℤ} {x : α} :
    m ≤ roundAway x ↔ if 0 < m then (m : α) - 1 / 2 ≤ x else (m : α) - 1 / 2 < x := by
  rcases le_or_gt 0 x with hx | hx
  · rw [roundAway_of_nonneg hx, round_eq, Int.le_floor]
    split_ifs with hm
    · constructor <;> intro h <;> linarith
    · have hcast : (m : α) ≤ 0 := by exact_mod_cast not_lt.mp hm
      constructor <;> intro <;> linarith
  · rw [roundAway_of_nonpos hx.le, le_neg, round_eq, Int.floor_le_iff]
    push_cast
    split_ifs with hm
    · have hcast : (1 : α) ≤ m := by exact_mod_cast hm
      constructor <;> intro <;> linarith
    · constructor <;> intro <;> linarith

theorem roundAway_le_iff {m : ℤ} {x : α} :
    roundAway x ≤ m ↔ if m < 0 then x ≤ (m : α) + 1 / 2 else x < (m : α) + 1 / 2 := by
  rw [← neg_le_neg_iff, ← roundAway_neg, le_roundAway_iff]
  simp only [neg_pos]
  push_cast
  split_ifs
  · constructor <;> intro <;> linarith
  · constructor <;> intro <;> linarith

theorem roundAway_mono {x y : α} (h : x ≤ y) : roundAway x ≤ roundAway y := by
  rw [le_roundAway_iff]
  have hself := le_roundAway_iff.mp (le_refl (roundAway x))
  split_ifs at hself ⊢
  · exact hself.trans h
  · exact hself.trans_le h

/-- Between two integers stays between them. -/
theorem le_roundAway {m : ℤ} {x : α} (h : (m : α) ≤ x) : m ≤ roundAway x := by
  simpa using roundAway_mono h

theorem roundAway_le {m : ℤ} {x : α} (h : x ≤ m) : roundAway x ≤ m := by
  simpa using roundAway_mono h

theorem abs_sub_roundAway_le (x : α) : |x - roundAway x| ≤ 1 / 2 := by
  have hlow := le_roundAway_iff.mp (le_refl (roundAway x))
  have hhigh := roundAway_le_iff.mp (le_refl (roundAway x))
  rw [abs_le]
  constructor
  · split_ifs at hlow <;> linarith
  · split_ifs at hhigh <;> linarith

/-- An integer that is nearest, and of two the one farther from zero. -/
structure IsNearestAway (x : α) (n : ℤ) : Prop where
  near : |x - n| ≤ 1 / 2
  tie : |x - n| = 1 / 2 → |x| < |(n : α)|

theorem isNearestAway_roundAway (x : α) : IsNearestAway x (roundAway x) where
  near := abs_sub_roundAway_le x
  tie h := by
    have hlow := le_roundAway_iff.mp (le_refl (roundAway x))
    have hhigh := roundAway_le_iff.mp (le_refl (roundAway x))
    rcases abs_eq (by norm_num : (0 : α) ≤ 1 / 2) |>.mp h with hup | hdown
    · -- The integer lies below: a half above it is rounded to it only where it is negative.
      split_ifs at hhigh with hneg
      · have hcast : (roundAway x : α) ≤ -1 := by exact_mod_cast Int.le_sub_one_of_lt hneg
        rw [abs_of_nonpos (by linarith), abs_of_nonpos (by linarith)]
        linarith
      · linarith
    · split_ifs at hlow with hpos
      · have hcast : (1 : α) ≤ roundAway x := by exact_mod_cast hpos
        rw [abs_of_nonneg (by linarith), abs_of_nonneg (by linarith)]
        linarith
      · linarith

/-- There is only one. -/
theorem IsNearestAway.eq_roundAway {x : α} {n : ℤ} (h : IsNearestAway x n) : n = roundAway x := by
  obtain ⟨hlow, hhigh⟩ := abs_le.mp h.near
  apply le_antisymm
  · rw [le_roundAway_iff]
    split_ifs with hpos
    · linarith
    · refine lt_of_le_of_ne (by linarith) fun heq => ?_
      have hcast : (n : α) ≤ 0 := by exact_mod_cast not_lt.mp hpos
      have htie := h.tie (by rw [← heq, show (n : α) - 1 / 2 - n =
        -(1 / 2) by ring, abs_neg, abs_of_pos (by norm_num)])
      rw [abs_of_nonpos (by linarith), abs_of_nonpos hcast] at htie
      linarith
  · rw [roundAway_le_iff]
    split_ifs with hneg
    · linarith
    · refine lt_of_le_of_ne (by linarith) fun heq => ?_
      have hcast : (0 : α) ≤ n := by exact_mod_cast not_lt.mp hneg
      have htie := h.tie (by rw [heq, add_sub_cancel_left, abs_of_pos (by norm_num)])
      rw [abs_of_nonneg (by linarith), abs_of_nonneg hcast] at htie
      linarith

end

/-- The quotient of two numbers, rounded by its remainder. -/
theorem roundAway_natCast_div (a : ℕ) {b : ℕ} (hb : 0 < b) :
    roundAway ((a : ℚ) / b) = if a % b * 2 ≥ b then ((a / b : ℕ) : ℤ) + 1 else (a / b : ℕ) := by
  have hdiv := Nat.div_add_mod a b
  have hmod := Nat.mod_lt a hb
  generalize a / b = q at hdiv ⊢
  generalize a % b = r at hdiv hmod ⊢
  have hpos : (0 : ℚ) < b := by exact_mod_cast hb
  have hsum : (a : ℚ) = b * q + r := by exact_mod_cast hdiv.symm
  rw [roundAway_of_nonneg (by positivity), round_eq_iff, Set.mem_Ico, le_div_iff₀ hpos, div_lt_iff₀ hpos]
  split_ifs with hhalf
  · have hle : (b : ℚ) ≤ r * 2 := by exact_mod_cast hhalf
    have hlt : (r : ℚ) < b := by exact_mod_cast hmod
    push_cast
    constructor <;> nlinarith
  · have hlt : (r : ℚ) * 2 < b := by exact_mod_cast not_le.mp hhalf
    have hnonneg : (0 : ℚ) ≤ r := Nat.cast_nonneg _
    push_cast
    constructor <;> nlinarith

/-- The quotient of two integers is rounded by size, and its sign put before it. -/
theorem roundAway_div (n d : ℤ) : roundAway ((n : ℚ) / d) =
    if xor (n < 0) (d < 0) then -roundAway ((n.natAbs : ℚ) / d.natAbs)
      else roundAway ((n.natAbs : ℚ) / d.natAbs) := by
  simp only [Nat.cast_natAbs, Int.cast_abs]
  rcases le_or_gt 0 n with hn | hn <;> rcases le_or_gt 0 d with hdn | hdn
  · rw [abs_of_nonneg (by exact_mod_cast hn), abs_of_nonneg (by exact_mod_cast hdn)]
    simp [not_lt.mpr hn, not_lt.mpr hdn]
  · rw [abs_of_nonneg (by exact_mod_cast hn), abs_of_neg (by exact_mod_cast hdn)]
    simp [not_lt.mpr hn, hdn, div_neg, roundAway_neg]
  · rw [abs_of_neg (by exact_mod_cast hn), abs_of_nonneg (by exact_mod_cast hdn)]
    simp [hn, not_lt.mpr hdn, neg_div, roundAway_neg]
  · rw [abs_of_neg (by exact_mod_cast hn), abs_of_neg (by exact_mod_cast hdn)]
    simp [hn, hdn, neg_div_neg_eq]

/-- A value past the endpoint `e`, on the side away from `o`, is rounded to no more than the endpoint only
where it is nearer than a half, or a half below a positive one. -/
theorem past_between_iff {e o k n : ℤ} (he : 0 ≤ e) (hk : 0 < k) (hn : 0 < n) :
    (min e o ≤ roundAway ((e : ℚ) + (e - o) * k / n) ∧ roundAway ((e : ℚ) + (e - o) * k / n) ≤ max e o) ↔
      2 * (k * |e - o|) < n ∨ (2 * (k * |e - o|) = n ∧ 0 < e ∧ e < o) := by
  have hkQ : (0 : ℚ) < k := by exact_mod_cast hk
  have hnQ : (0 : ℚ) < n := by exact_mod_cast hn
  rcases le_or_gt o e with hoe | heo
  · have hsub : (0 : ℚ) ≤ e - o := by exact_mod_cast sub_nonneg.mpr hoe
    have hpast : (0 : ℚ) ≤ (e - o) * k / n := div_nonneg (mul_nonneg hsub hkQ.le) hnQ.le
    have hhalf : ((e - o) * k / n : ℚ) < 1 / 2 ↔ 2 * (k * (e - o)) < n := by
      rw [div_lt_div_iff₀ hnQ two_pos]
      have hcast : ((e : ℚ) - o) * k * 2 < 1 * n ↔ (e - o) * k * 2 < 1 * n := by exact_mod_cast Iff.rfl
      rw [hcast]
      constructor <;> intro h <;> linarith
    rw [min_eq_right hoe, max_eq_left hoe, abs_of_nonneg (sub_nonneg.mpr hoe), roundAway_le_iff,
      if_neg (not_lt.mpr he), ← hhalf]
    have hlow : o ≤ roundAway ((e : ℚ) + (e - o) * k / n) :=
      le_roundAway (by have : (o : ℚ) ≤ e := by exact_mod_cast hoe
                       linarith)
    constructor
    · rintro ⟨-, h⟩
      exact Or.inl (by linarith)
    · rintro (h | ⟨-, -, h⟩)
      · exact ⟨hlow, by linarith⟩
      · exact absurd h (not_lt.mpr hoe)
  · have hsub : (0 : ℚ) ≤ o - e := by exact_mod_cast sub_nonneg.mpr heo.le
    have hpast : (0 : ℚ) ≤ (o - e) * k / n := div_nonneg (mul_nonneg hsub hkQ.le) hnQ.le
    have hturn : ((e : ℚ) - o) * k / n = -((o - e) * k / n) := by ring
    have hcast : ((o : ℚ) - e) * k * 2 < 1 * n ↔ (o - e) * k * 2 < 1 * n := by exact_mod_cast Iff.rfl
    have hcast' : ((o : ℚ) - e) * k * 2 ≤ 1 * n ↔ (o - e) * k * 2 ≤ 1 * n := by exact_mod_cast Iff.rfl
    have hhalf : ((o - e) * k / n : ℚ) < 1 / 2 ↔ (o - e) * k * 2 < 1 * n := by
      rw [div_lt_div_iff₀ hnQ two_pos, hcast]
    have hhalf' : ((o - e) * k / n : ℚ) ≤ 1 / 2 ↔ (o - e) * k * 2 ≤ 1 * n := by
      rw [div_le_div_iff₀ hnQ two_pos, hcast']
    have hhigh : roundAway ((e : ℚ) + (e - o) * k / n) ≤ o :=
      roundAway_le (by have : (e : ℚ) ≤ o := by exact_mod_cast heo.le
                       rw [hturn]
                       linarith)
    have hproduct : 2 * (k * (o - e)) = (o - e) * k * 2 := by ring
    rw [min_eq_left heo.le, max_eq_right heo.le, abs_of_neg (sub_neg.mpr heo), neg_sub, le_roundAway_iff, hturn,
      hproduct]
    split_ifs with hpos
    · constructor
      · rintro ⟨h, -⟩
        have hle := hhalf'.mp (by linarith)
        omega
      · intro h
        have hle := hhalf'.mpr (by omega)
        exact ⟨by linarith, hturn ▸ hhigh⟩
    · constructor
      · rintro ⟨h, -⟩
        have hlt := hhalf.mp (by linarith)
        omega
      · intro h
        have hlt := hhalf.mpr (by omega)
        exact ⟨by linarith, hturn ▸ hhigh⟩

end Noxara.Rounding
