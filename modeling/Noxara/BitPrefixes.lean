import Mathlib.Algebra.Group.Nat.Defs
import Mathlib.Data.Nat.Notation
import Mathlib.Tactic.Common

/-! Words that agree on their first bits: a mask decides it, and words put together agree piece by piece. -/
namespace Noxara.BitPrefixes

variable {v w n : ℕ}

/-- The first `n` bits are the same. -/
def AgreeOn (n : ℕ) (x y : BitVec w) : Prop := ∀ i < n, x.getMsbD i = y.getMsbD i

instance (n : ℕ) (x y : BitVec w) : Decidable (AgreeOn n x y) := inferInstanceAs (Decidable (∀ i < n, _))

/-- The last `w - n` bits. -/
def lowMask (w n : ℕ) : BitVec w := (1#w <<< (w - n)) - 1#w

theorem agree_zero (x y : BitVec w) : AgreeOn 0 x y := fun _ h => absurd h (Nat.not_lt_zero _)

theorem AgreeOn.symm {x y : BitVec w} (h : AgreeOn n x y) : AgreeOn n y x := fun i hi => (h i hi).symm

theorem agree_of_width_le (hn : w ≤ n) {x y : BitVec w} : AgreeOn n x y ↔ x = y := by
  constructor
  · intro h
    exact BitVec.eq_of_getMsbD_eq fun i hi => h i (Nat.lt_of_lt_of_le hi hn)
  · rintro rfl i -
    rfl

/-- Words put together agree where their first parts do, and their second on the bits that are left. -/
theorem agree_append {x x' : BitVec v} {y y' : BitVec w} :
    AgreeOn n (x ++ y) (x' ++ y') ↔ AgreeOn n x x' ∧ AgreeOn (n - v) y y' := by
  unfold AgreeOn
  simp only [BitVec.getMsbD_append]
  constructor
  · intro h
    constructor
    · intro i hi
      by_cases hv : v ≤ i
      · rw [BitVec.getMsbD_of_ge x i hv, BitVec.getMsbD_of_ge x' i hv]
      · simpa [hv] using h i hi
    · intro i hi
      have hle : v ≤ v + i := Nat.le_add_right v i
      have := h (v + i) (by omega)
      rwa [if_pos hle, if_pos hle, Nat.add_sub_cancel_left] at this
  · rintro ⟨hx, hy⟩ i hi
    by_cases hv : v ≤ i
    · rw [if_pos hv, if_pos hv]
      exact hy (i - v) (by omega)
    · rw [if_neg hv, if_neg hv]
      exact hx i hi

theorem toNat_lowMask (hn : 0 < n) (hw : n ≤ w) : (lowMask w n).toNat = 2 ^ (w - n) - 1 := by
  have hlt : 2 ^ (w - n) < 2 ^ w := Nat.pow_lt_pow_right (by decide) (by omega)
  have hone : 1 < 2 ^ w := Nat.one_lt_two_pow (by omega)
  have hpos : 0 < 2 ^ (w - n) := Nat.two_pow_pos _
  have hbit : (1#w <<< (w - n)).toNat = 2 ^ (w - n) := by
    rw [BitVec.toNat_shiftLeft, BitVec.toNat_ofNat, Nat.mod_eq_of_lt hone, Nat.one_shiftLeft, Nat.mod_eq_of_lt hlt]
  have hle : (1#w) ≤ 1#w <<< (w - n) := by
    rw [BitVec.le_def, hbit, BitVec.toNat_ofNat, Nat.mod_eq_of_lt hone]
    exact hpos
  rw [lowMask, BitVec.toNat_sub_of_le hle, hbit, BitVec.toNat_ofNat, Nat.mod_eq_of_lt hone]

theorem getMsbD_not_lowMask (hn : 0 < n) (hw : n ≤ w) {i : ℕ} (hi : i < w) :
    (~~~lowMask w n).getMsbD i = decide (i < n) := by
  have hbit : (lowMask w n).getMsbD i = decide (w - 1 - i < w - n) := by
    rw [BitVec.getMsbD_eq_getLsbD, BitVec.getLsbD, toNat_lowMask hn hw, Nat.testBit_two_pow_sub_one]
    simp [hi]
  rw [BitVec.getMsbD_not, hbit, decide_eq_true hi, Bool.true_and, ← decide_not, decide_eq_decide]
  omega

/-- Under the mask the words are the same exactly where their first `n` bits are. -/
theorem mask_eq_iff (hn : 0 < n) (hw : n ≤ w) {x y : BitVec w} :
    x &&& ~~~lowMask w n = y &&& ~~~lowMask w n ↔ AgreeOn n x y := by
  rw [← agree_of_width_le (Nat.le_refl w)]
  unfold AgreeOn
  simp only [BitVec.getMsbD_and]
  constructor
  · intro h i hi
    have := h i (Nat.lt_of_lt_of_le hi hw)
    rwa [getMsbD_not_lowMask hn hw (Nat.lt_of_lt_of_le hi hw), decide_eq_true hi, Bool.and_true, Bool.and_true] at this
  · intro h i hi
    rw [getMsbD_not_lowMask hn hw hi]
    by_cases hin : i < n
    · rw [h i hin]
    · simp [hin]

end Noxara.BitPrefixes
