import Mathlib.Data.Int.ModEq
import Mathlib.Data.List.Induction
import Mathlib.Tactic.Common
import Mathlib.Tactic.NormNum

/-! Machine integers: what a type holds, and what becomes of a value that it does not hold. -/
namespace Noxara.Words

/-- A type of machine integers, in two's complement where it is signed. -/
structure Word where
  signed : Bool
  bits : ℕ
  deriving DecidableEq

def i32 : Word := ⟨true, 32⟩

def i64 : Word := ⟨true, 64⟩

def u64 : Word := ⟨false, 64⟩

def i128 : Word := ⟨true, 128⟩

def u128 : Word := ⟨false, 128⟩

namespace Word

def low (w : Word) : Int := if w.signed then -2 ^ (w.bits - 1) else 0

def high (w : Word) : Int := w.low + 2 ^ w.bits - 1

def Has (w : Word) (x : Int) : Prop := w.low ≤ x ∧ x ≤ w.high

instance (w : Word) (x : Int) : Decidable (w.Has x) := inferInstanceAs (Decidable (_ ∧ _))

/-- The value of the type that differs by a multiple of its size. -/
def wrap (w : Word) (x : Int) : Int := (x - w.low) % 2 ^ w.bits + w.low

variable {w : Word} {x y : Int}

theorem wrap_of_has (h : w.Has x) : w.wrap x = x := by
  obtain ⟨hlow, hhigh⟩ := h
  unfold high at hhigh
  unfold wrap
  rw [Int.emod_eq_of_lt (by omega) (by omega)]
  omega

theorem has_wrap (w : Word) (x : Int) : w.Has (w.wrap x) := by
  have hpos : (0 : Int) < 2 ^ w.bits := by positivity
  have hlow := Int.emod_nonneg (x - w.low) hpos.ne'
  have hhigh := Int.emod_lt_of_pos (x - w.low) hpos
  unfold Has high wrap
  omega

theorem wrap_le (h : w.low ≤ x) : w.wrap x ≤ x := by
  have hpos : (0 : Int) < 2 ^ w.bits := by positivity
  have hquot : 0 ≤ (x - w.low) / 2 ^ w.bits := Int.ediv_nonneg (by omega) hpos.le
  have hprod := mul_nonneg hpos.le hquot
  have hdiv := Int.mul_ediv_add_emod (x - w.low) (2 ^ w.bits)
  unfold wrap
  omega

theorem wrap_eq_iff : w.wrap x = w.wrap y ↔ x ≡ y [ZMOD 2 ^ w.bits] := by
  unfold wrap
  rw [add_left_inj]
  constructor
  · intro h
    have hshift : x - w.low ≡ y - w.low [ZMOD 2 ^ w.bits] := h
    simpa using hshift.add_right w.low
  · intro h
    exact h.sub_right w.low

theorem wrap_modEq (w : Word) (x : Int) : w.wrap x ≡ x [ZMOD 2 ^ w.bits] :=
  wrap_eq_iff.mp (wrap_of_has (has_wrap w x))

theorem wrap_add_left (w : Word) (x y : Int) : w.wrap (w.wrap x + y) = w.wrap (x + y) :=
  wrap_eq_iff.mpr ((wrap_modEq w x).add_right y)

end Word

theorem has_i32 {x : Int} : i32.Has x ↔ -2147483648 ≤ x ∧ x ≤ 2147483647 := by
  norm_num [Word.Has, Word.high, Word.low, i32]

theorem has_i64 {x : Int} : i64.Has x ↔ -9223372036854775808 ≤ x ∧ x ≤ 9223372036854775807 := by
  norm_num [Word.Has, Word.high, Word.low, i64]

theorem has_u64 {x : Int} : u64.Has x ↔ 0 ≤ x ∧ x ≤ 18446744073709551615 := by
  norm_num [Word.Has, Word.high, Word.low, u64]

theorem has_i128 {x : Int} : i128.Has x ↔
    -170141183460469231731687303715884105728 ≤ x ∧ x ≤ 170141183460469231731687303715884105727 := by
  norm_num [Word.Has, Word.high, Word.low, i128]

theorem has_u128 {x : Int} : u128.Has x ↔ 0 ≤ x ∧ x ≤ 340282366920938463463374607431768211455 := by
  norm_num [Word.Has, Word.high, Word.low, u128]

/-- What a build does with a value that leaves its type. -/
inductive Overflow
  | panics | wraps
  deriving DecidableEq

def Overflow.keep (o : Overflow) (w : Word) (x : Int) : Option Int :=
  if w.Has x then some x
  else match o with
    | .panics => none
    | .wraps => some (w.wrap x)

/-- Arithmetic may be checked or not; a cast is not checked in any build that is run. -/
structure Build where
  arithmetic : Overflow
  casts : Overflow

namespace Build

def debug : Build := ⟨.panics, .wraps⟩

def release : Build := ⟨.wraps, .wraps⟩

/-- Checks all there is, and so tells whether a run stays in range. -/
def strict : Build := ⟨.panics, .panics⟩

/-- The result of `+`, `-` or `*`. -/
def arith (b : Build) (w : Word) (x : Int) : Option Int := b.arithmetic.keep w x

/-- The result of `as`. -/
def cast (b : Build) (w : Word) (x : Int) : Option Int := b.casts.keep w x

variable {b : Build} {w : Word} {x : Int}

theorem arith_of_has (h : w.Has x) : b.arith w x = some x := if_pos h

theorem cast_of_has (h : w.Has x) : b.cast w x = some x := if_pos h

theorem arith_some {v : Int} (h : b.arith w x = some v) : v = w.wrap x := by
  unfold arith Overflow.keep at h
  split_ifs at h with hx
  · cases h
    exact (Word.wrap_of_has hx).symm
  · cases hb : b.arithmetic <;> rw [hb] at h <;> cases h
    rfl

theorem arith_release (w : Word) (x : Int) : release.arith w x = some (w.wrap x) := by
  unfold arith Overflow.keep
  split_ifs with hx
  · rw [Word.wrap_of_has hx]
  · rfl

/-- The additions of an iterator's `sum`, one after another. -/
def sum (b : Build) (w : Word) (xs : List Int) : Option Int := xs.foldlM (fun acc x => b.arith w (acc + x)) 0

theorem sum_concat (b : Build) (w : Word) (xs : List Int) (x : Int) :
    b.sum w (xs ++ [x]) = (b.sum w xs).bind fun acc => b.arith w (acc + x) := by
  unfold sum
  rw [List.foldlM_append]
  simp only [List.foldlM_cons, List.foldlM_nil, bind_pure]
  rfl

variable {xs : List Int}

theorem sum_some {v : Int} (hzero : w.Has 0) (h : b.sum w xs = some v) : v = w.wrap xs.sum := by
  induction xs using List.reverseRecOn generalizing v with
  | nil =>
    cases h
    exact (Word.wrap_of_has hzero).symm
  | append_singleton xs x ih =>
    rw [sum_concat] at h
    obtain ⟨acc, hacc, h⟩ := Option.bind_eq_some_iff.mp h
    rw [arith_some h, ih hacc, Word.wrap_add_left, List.sum_append, List.sum_singleton]

theorem sum_release (hzero : w.Has 0) (xs : List Int) : release.sum w xs = some (w.wrap xs.sum) := by
  induction xs using List.reverseRecOn with
  | nil => exact congrArg some (Word.wrap_of_has hzero).symm
  | append_singleton xs x ih =>
    rw [sum_concat, ih, Option.bind_some, arith_release, Word.wrap_add_left, List.sum_append, List.sum_singleton]

end Build

end Noxara.Words
