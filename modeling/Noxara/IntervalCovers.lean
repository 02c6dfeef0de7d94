import Mathlib.Algebra.Order.BigOperators.Group.List
import Mathlib.Algebra.Order.Ring.Int
import Mathlib.Tactic.Ring

/-! Closed intervals of a linear order, cells of it that lie one after another, and how often the cells count an
interval that is counted in every cell it meets. -/
namespace Noxara.Intervals

structure Stretch (τ : Type*) [LinearOrder τ] where
  start : τ
  stop : τ
  ordered : start ≤ stop

variable {τ : Type*} [LinearOrder τ] {cell a : Stretch τ} {cells : List (Stretch τ)} {x : τ}

namespace Stretch

def Contains (a : Stretch τ) (x : τ) : Prop := a.start ≤ x ∧ x ≤ a.stop

instance (a : Stretch τ) (x : τ) : Decidable (a.Contains x) := inferInstanceAs (Decidable (_ ∧ _))

/-- They have a point in common. -/
def Meets (cell a : Stretch τ) : Prop := a.start ≤ cell.stop ∧ cell.start ≤ a.stop

instance (cell a : Stretch τ) : Decidable (cell.Meets a) := inferInstanceAs (Decidable (_ ∧ _))

/-- The interval goes on into the cell. -/
def BeginsIn (cell a : Stretch τ) : Prop := a.start < cell.start ∧ cell.start ≤ a.stop

instance (cell a : Stretch τ) : Decidable (cell.BeginsIn a) := inferInstanceAs (Decidable (_ ∧ _))

theorem meets_iff : cell.Meets a ↔ cell.Contains a.start ∨ cell.BeginsIn a := by
  have hcell := cell.ordered
  have ha := a.ordered
  constructor
  · rintro ⟨hstart, hstop⟩
    rcases le_or_gt cell.start a.start with hle | hlt
    · exact Or.inl ⟨hle, hstart⟩
    · exact Or.inr ⟨hlt, hstop⟩
  · rintro (⟨hle, hstop⟩ | ⟨hlt, hstop⟩)
    · exact ⟨hstop, hle.trans ha⟩
    · exact ⟨hlt.le.trans hcell, hstop⟩

theorem not_beginsIn_of_contains (h : cell.Contains a.start) : ¬cell.BeginsIn a := fun hbegins =>
  absurd h.1 (not_le.mpr hbegins.1)

end Stretch

/-- One after another, without a common point. -/
def Consecutive (cells : List (Stretch τ)) : Prop := cells.Pairwise fun c d => c.stop < d.start

/-- How many of the cells the interval goes on into. -/
def furtherCells (cells : List (Stretch τ)) (a : Stretch τ) : ℕ := cells.countP fun c => c.BeginsIn a

theorem countP_contains_le_one (h : Consecutive cells) (x : τ) : cells.countP (fun c => c.Contains x) ≤ 1 := by
  induction cells with
  | nil => exact Nat.zero_le _
  | cons c cells ih =>
    obtain ⟨hbefore, hrest⟩ := List.pairwise_cons.mp h
    by_cases hc : c.Contains x
    · have hlater : cells.countP (fun d => d.Contains x) = 0 := by
        rw [List.countP_eq_zero]
        intro d hd hcontains
        have hcontains : d.Contains x := of_decide_eq_true hcontains
        exact absurd (hc.2.trans_lt (hbefore d hd)) (not_lt.mpr hcontains.1)
      rw [List.countP_cons, hlater]
      simp [hc]
    · rw [List.countP_cons]
      simpa [hc] using ih hrest

theorem countP_contains (h : Consecutive cells) (hx : ∃ c ∈ cells, c.Contains x) :
    cells.countP (fun c => c.Contains x) = 1 := by
  obtain ⟨c, hc, hcontains⟩ := hx
  have hpos : 0 < cells.countP (fun c => c.Contains x) := List.countP_pos_iff.mpr ⟨c, hc, decide_eq_true hcontains⟩
  have hle := countP_contains_le_one h x
  omega

theorem countP_meets (cells : List (Stretch τ)) (a : Stretch τ) :
    cells.countP (fun c => c.Meets a) = cells.countP (fun c => c.Contains a.start) + furtherCells cells a := by
  unfold furtherCells
  induction cells with
  | nil => rfl
  | cons c cells ih =>
    rw [List.countP_cons, List.countP_cons, List.countP_cons, ih]
    simp only [decide_eq_true_eq, Stretch.meets_iff]
    by_cases hc : c.Contains a.start
    · rw [if_pos (Or.inl hc), if_pos hc, if_neg (Stretch.not_beginsIn_of_contains hc)]
      omega
    · by_cases hb : c.BeginsIn a
      · rw [if_pos (Or.inr hb), if_neg hc, if_pos hb]
        omega
      · rw [if_neg (not_or.mpr ⟨hc, hb⟩), if_neg hc, if_neg hb]
        omega

/-- The cell that an interval begins in counts it, and so does each that it goes on into. -/
theorem countP_meets_of_covers (h : Consecutive cells) (ha : ∃ c ∈ cells, c.Contains a.start) :
    cells.countP (fun c => c.Meets a) = 1 + furtherCells cells a := by
  rw [countP_meets, countP_contains h ha]

variable {ι : Type*} {place : ι → Stretch τ} {weight : ι → ℤ}

def weightAt (place : ι → Stretch τ) (weight : ι → ℤ) (items : List ι) (cell : Stretch τ) : ℤ :=
  ((items.filter fun i => cell.Meets (place i)).map weight).sum

def countedAgain (place : ι → Stretch τ) (weight : ι → ℤ) (cells : List (Stretch τ)) (items : List ι) :
    ℤ :=
  (items.map fun i => weight i * furtherCells cells (place i)).sum

theorem weightAt_cons (i : ι) (items : List ι) (cell : Stretch τ) :
    weightAt place weight (i :: items) cell =
      (if cell.Meets (place i) then weight i else 0) + weightAt place weight items cell := by
  unfold weightAt
  by_cases h : cell.Meets (place i) <;> simp [h]

theorem weightAt_nonneg {items : List ι} (h : ∀ i ∈ items, 0 ≤ weight i) (cell : Stretch τ) :
    0 ≤ weightAt place weight items cell := by
  induction items with
  | nil => exact le_rfl
  | cons i items ih =>
    have hi := h i List.mem_cons_self
    have hrest := ih fun j hj => h j (List.mem_cons_of_mem _ hj)
    rw [weightAt_cons]
    split_ifs <;> omega

theorem sum_ite_meets (cells : List (Stretch τ)) (a : Stretch τ) (w : ℤ) :
    (cells.map fun c => if c.Meets a then w else 0).sum = w * cells.countP fun c => c.Meets a := by
  induction cells with
  | nil => simp
  | cons c cells ih =>
    rw [List.map_cons, List.sum_cons, ih, List.countP_cons]
    by_cases hc : c.Meets a
    · simp [hc]
      ring
    · simp [hc]

/-- The cells together count every item once, and once more for each cell that it goes on into. -/
theorem sum_weightAt {items : List ι} (h : Consecutive cells)
    (hcover : ∀ i ∈ items, ∃ c ∈ cells, c.Contains (place i).start) :
    (cells.map (weightAt place weight items)).sum =
      (items.map weight).sum + countedAgain place weight cells items := by
  induction items with
  | nil =>
    unfold countedAgain weightAt
    simp
  | cons i items ih =>
    have hi := countP_meets_of_covers h (hcover i List.mem_cons_self)
    have hrest := ih fun j hj => hcover j (List.mem_cons_of_mem _ hj)
    have hsum : (cells.map (weightAt place weight (i :: items))).sum =
        (cells.map fun c => if c.Meets (place i) then weight i else 0).sum +
          (cells.map (weightAt place weight items)).sum := by
      rw [funext (weightAt_cons i items), List.sum_map_add]
    rw [hsum, sum_ite_meets, hi, hrest]
    unfold countedAgain
    rw [List.map_cons, List.map_cons, List.sum_cons, List.sum_cons]
    push_cast
    ring

theorem countedAgain_eq_zero_iff {items : List ι} (h : ∀ i ∈ items, 0 < weight i) :
    countedAgain place weight cells items = 0 ↔ ∀ i ∈ items, ∀ c ∈ cells, ¬c.BeginsIn (place i) := by
  have hzero : ∀ i, furtherCells cells (place i) = 0 ↔ ∀ c ∈ cells, ¬c.BeginsIn (place i) := fun i => by
    simp only [furtherCells, List.countP_eq_zero, decide_eq_true_eq]
  have hterm : ∀ i ∈ items, 0 ≤ weight i * (furtherCells cells (place i) : ℤ) := fun i hi =>
    mul_nonneg (h i hi).le (Int.natCast_nonneg _)
  unfold countedAgain
  induction items with
  | nil => simp
  | cons i items ih =>
    obtain ⟨hi, hrest⟩ := List.forall_mem_cons.mp h
    obtain ⟨hfirst, hterms⟩ := List.forall_mem_cons.mp hterm
    have hsum : 0 ≤ (items.map fun i => weight i * (furtherCells cells (place i) : ℤ)).sum :=
      List.sum_nonneg (List.forall_mem_map.mpr hterms)
    have hlater := ih hrest hterms
    rw [List.map_cons, List.sum_cons]
    constructor
    · intro hadd
      have hprod : weight i * (furtherCells cells (place i) : ℤ) = 0 := by omega
      rcases mul_eq_zero.mp hprod with hw | hf
      · exact absurd hw hi.ne'
      · exact List.forall_mem_cons.mpr ⟨(hzero i).mp (Int.natCast_eq_zero.mp hf), hlater.mp (by omega)⟩
    · intro hnone
      obtain ⟨hf, hnone⟩ := List.forall_mem_cons.mp hnone
      rw [(hzero i).mpr hf, hlater.mpr hnone]
      simp

end Noxara.Intervals
