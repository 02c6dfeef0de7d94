import Noxara.MoneyRounding
import Noxara.StockLedger

/-! The weighted average of a position: where a receipt blends between the two costs, and what the rounding
of the blends adds up to. -/
namespace Noxara.Inventory

open Transaction
open Finance (Uuid Formats InI64 Money wrapI64 checked_ok canonicalFormats i64Min i64Max)
open Rounding

/-- The average after a receipt of `r` pieces at `c` into `q` pieces at `a`. -/
def blend (q a r c : Int) : Int := if q + r = 0 then a else roundAway (((q * a + r * c : Int) : ℚ) / (q + r : Int))

/-- A position on hand, or one that the receipt settles, blends between the costs. A backorder passes one of
them, the cost of the receipt where the receipt is larger, and stays between only where it passes by less
than a half, or by a half below a positive cost. -/
def BlendsBetween (q a r c : Int) : Prop :=
  let passed := if 0 < q + r then c else a
  let other := if 0 < q + r then a else c
  let overshoot := (if 0 < q + r then -q else r) * |passed - other|
  0 ≤ q ∨ q + r = 0 ∨ 2 * overshoot < |q + r| ∨ (2 * overshoot = |q + r| ∧ 0 < passed ∧ passed < other)

instance (q a r c : Int) : Decidable (BlendsBetween q a r c) := inferInstanceAs (Decidable (_ ∨ _))

variable {q a r c : Int}

/-- A mean with weights that are not negative lies between its terms. -/
theorem blend_of_nonneg (hq : 0 ≤ q) (hr : 0 < r) : min a c ≤ blend q a r c ∧ blend q a r c ≤ max a c := by
  have hn : (0 : ℚ) < (q + r : Int) := by exact_mod_cast (by omega : 0 < q + r)
  have hlow : min a c * (q + r) ≤ q * a + r * c := by
    have h1 := mul_le_mul_of_nonneg_left (min_le_left a c) hq
    have h2 := mul_le_mul_of_nonneg_left (min_le_right a c) hr.le
    linarith
  have hhigh : q * a + r * c ≤ max a c * (q + r) := by
    have h1 := mul_le_mul_of_nonneg_left (le_max_left a c) hq
    have h2 := mul_le_mul_of_nonneg_left (le_max_right a c) hr.le
    linarith
  unfold blend
  rw [if_neg (by omega)]
  constructor
  · refine le_roundAway ?_
    rw [le_div_iff₀ hn]
    exact_mod_cast hlow
  · refine roundAway_le ?_
    rw [div_le_iff₀ hn]
    exact_mod_cast hhigh

theorem blend_between_iff (ha : 0 ≤ a) (hc : 0 ≤ c) (hr : 0 < r) :
    (min a c ≤ blend q a r c ∧ blend q a r c ≤ max a c) ↔ BlendsBetween q a r c := by
  by_cases hq : 0 ≤ q
  · exact iff_of_true (blend_of_nonneg hq hr) (Or.inl hq)
  by_cases hzero : q + r = 0
  · refine iff_of_true ?_ (Or.inr (Or.inl hzero))
    unfold blend
    rw [if_pos hzero]
    exact ⟨min_le_left _ _, le_max_left _ _⟩
  have hne : ((q + r : Int) : ℚ) ≠ 0 := by exact_mod_cast hzero
  unfold blend BlendsBetween
  rw [if_neg hzero]
  simp only [hq, hzero, false_or]
  rcases lt_or_gt_of_ne hzero with hneg | hpos
  · have hvalue : ((q * a + r * c : Int) : ℚ) / (q + r : Int) = a + (a - c) * r / (-(q + r) : Int) := by
      push_cast at hne ⊢
      have hne' : (-((q : ℚ) + r)) ≠ 0 := neg_ne_zero.mpr hne
      field_simp
      ring
    rw [hvalue, past_between_iff ha hr (by omega : 0 < -(q + r)), if_neg (by omega), if_neg (by omega),
      if_neg (by omega), abs_of_neg hneg]
  · have hvalue : ((q * a + r * c : Int) : ℚ) / (q + r : Int) = c + (c - a) * (-q : Int) / (q + r : Int) := by
      push_cast at hne ⊢
      field_simp
      ring
    rw [hvalue, min_comm, max_comm, past_between_iff hc (by omega : 0 < -q) hpos, if_pos hpos, if_pos hpos,
      if_pos hpos, abs_of_pos hpos]

theorem weightedAverageReceipt_blend {newQty newAvg : Int}
    (h : weightedAverageReceipt q a r c = .ok (newQty, newAvg)) :
    0 < r ∧ newQty = q + r ∧ newAvg = blend q a r c := by
  obtain ⟨hqty, -⟩ := weightedAverageReceipt_ok h
  unfold weightedAverageReceipt at h
  unfold blend
  dsimp only at h
  split_ifs at h with hr _ hzero
  · cases h
    exact ⟨not_le.mp hr, hqty, (if_pos hzero).symm⟩
  · rw [Money.roundHalfUp_eq _ hzero] at h
    split at h
    · cases h
    · next hround =>
      cases h
      rw [if_neg hzero]
      exact ⟨not_le.mp hr, hqty, (checked_ok.mp hround).2.symm⟩

theorem PostMovementInput.applied_cases {input : PostMovementInput} {level next : StockLevelRow} {cogs : Option Int}
    (hdelta : InI64 input.qtyDelta) (h : input.applied level = .ok (next, cogs)) :
    (0 < input.qtyDelta ∧ cogs = none ∧ next = ⟨level.qtyOnHand + input.qtyDelta,
      blend level.qtyOnHand level.avgUnitCostMinor input.qtyDelta input.unitCostMinor⟩) ∨
    (input.qtyDelta < 0 ∧ cogs = some (-input.qtyDelta * level.avgUnitCostMinor) ∧
      next = ⟨level.qtyOnHand + input.qtyDelta, level.avgUnitCostMinor⟩) := by
  unfold applied at h
  split_ifs at h with hpos
  · split at h
    · cases h
    · next hblend =>
      cases h
      obtain ⟨-, hqty, havg⟩ := weightedAverageReceipt_blend hblend
      exact Or.inl ⟨hpos, rfl, by rw [hqty, havg]⟩
  · split at h
    · cases h
    · next hcogs =>
      dsimp only at h
      split_ifs at h
      cases h
      unfold issueCostMinor at hcogs
      split_ifs at hcogs with hqty
      have hvalue := Except.ok.inj hcogs
      obtain ⟨hlow, hhigh⟩ := Finance.inI64_iff.mp hdelta
      -- The least delta has no magnitude in its type, and is refused as an issue of less than nothing.
      have hleast : input.qtyDelta ≠ i64Min := by
        intro heq
        rw [heq] at hqty
        exact hqty (by decide)
      have hword : wrapI64 input.qtyDelta.natAbs = -input.qtyDelta := by
        rw [Finance.wrapI64_of_inI64]
        · omega
        · rw [Finance.inI64_iff]
          unfold i64Min i64Max at *
          omega
      rw [hword] at hvalue hqty
      exact Or.inr ⟨by omega, congrArg some hvalue.symm, rfl⟩

def Fresh (db : Db) (input : PostMovementInput) : Prop :=
  ∀ key ∈ input.idempotencyKey, db.movementByKey key = none

instance (db : Db) (input : PostMovementInput) : Decidable (Fresh db input) := by
  unfold Fresh
  infer_instance

def MovesLevel (w i : Uuid) (x : Db × Uuid × PostMovementInput) : Prop :=
  x.2.2.warehouseId = w ∧ x.2.2.itemId = i ∧ Fresh x.1 x.2.2

instance (w i : Uuid) (x : Db × Uuid × PostMovementInput) : Decidable (MovesLevel w i x) :=
  inferInstanceAs (Decidable (_ ∧ _))

section
variable [Formats]

def movement (o : Uuid × PostMovementInput) : Tx PostMovementOutcome := postMovement o.1 o.2

theorem run_writeMovement {id : Uuid} {row : MovementRow} {item : ItemRow} {next : StockLevelRow} {cogs : Option Int}
    {s : Db} {x : PostMovementOutcome × Db} (h : (writeMovement id row item next cogs).run s = .ok x) :
    x.2.stockLevels = (s.recorded id row next).stockLevels := by
  simp only [writeMovement, writeLevel, insertMovement, upsertStockLevel, insertEvent, Prog.run_execute_bind_ok] at h
  obtain ⟨-, -, -, h⟩ := h
  split_ifs at h
  · obtain ⟨-, h⟩ := Prog.run_execute_bind_ok.mp h
    cases h
    rfl
  · cases h
    rfl

theorem run_recordMovement {id : Uuid} {input : PostMovementInput} {s : Db} {x : PostMovementOutcome × Db}
    (h : (recordMovement id input).run s = .ok x) :
    ∃ next cogs, input.applied (s.stockLevel input.warehouseId input.itemId) = .ok (next, cogs) ∧
      x.2.stockLevel input.warehouseId input.itemId = next ∧
      ∀ w i, ¬(input.warehouseId = w ∧ input.itemId = i) → x.2.stockLevel w i = s.stockLevel w i := by
  simp only [recordMovement, fetchWarehouseExists, fetchItemPolicy, fetchStockLevel, bind_assoc,
    Prog.run_query_bind] at h
  cases hwarehouse : s.warehouses.find? input.warehouseId with
  | none =>
    rw [hwarehouse] at h
    cases h
  | some warehouse =>
    rw [hwarehouse] at h
    simp only [pure_bind, Prog.run_query_bind] at h
    cases hitem : s.items.find? input.itemId with
    | none =>
      rw [hitem] at h
      cases h
    | some item =>
      rw [hitem] at h
      simp only [pure_bind, Prog.run_query_bind, Prog.run_require_bind_ok, Prog.run_ofExcept_bind_ok] at h
      obtain ⟨-, next, hnext, -, h⟩ := h
      have hlevels : ∀ w i, x.2.stockLevel w i =
          (s.recorded id (input.row id item.currency) next.1).stockLevel w i := fun w i => by
        unfold Db.stockLevel
        rw [run_writeMovement h]
      refine ⟨next.1, next.2, hnext, ?_, fun w i hne => ?_⟩
      · rw [hlevels]
        exact stockLevel_recorded_self s id (input.row id item.currency) next.1
      · rw [hlevels]
        exact stockLevel_recorded_ne s id (input.row id item.currency) next.1 hne

/-- A level is moved by the requests for it that are new, and by no other. -/
theorem run_movement {o : Uuid × PostMovementInput} {s : Db} {x : PostMovementOutcome × Db}
    (h : (movement o).run s = .ok x) (w i : Uuid) :
    (MovesLevel w i (s, o) ∧ ∃ cogs, o.2.applied (s.stockLevel w i) = .ok (x.2.stockLevel w i, cogs)) ∨
      (¬MovesLevel w i (s, o) ∧ x.2.stockLevel w i = s.stockLevel w i) := by
  have hrecord : (recordMovement o.1 o.2).run s = .ok x → Fresh s o.2 →
      (MovesLevel w i (s, o) ∧ ∃ cogs, o.2.applied (s.stockLevel w i) = .ok (x.2.stockLevel w i, cogs)) ∨
        (¬MovesLevel w i (s, o) ∧ x.2.stockLevel w i = s.stockLevel w i) := by
    intro hrun hfresh
    obtain ⟨next, cogs, happlied, hself, hothers⟩ := run_recordMovement hrun
    by_cases hpair : o.2.warehouseId = w ∧ o.2.itemId = i
    · obtain ⟨rfl, rfl⟩ := hpair
      exact Or.inl ⟨⟨rfl, rfl, hfresh⟩, cogs, hself ▸ happlied⟩
    · exact Or.inr ⟨fun hm => hpair ⟨hm.1, hm.2.1⟩, hothers w i hpair⟩
  unfold movement postMovement at h
  obtain ⟨-, -, h⟩ := Prog.run_ofExcept_bind_ok.mp h
  cases hkey : o.2.idempotencyKey with
  | none =>
    rw [hkey] at h
    exact hrecord h fun key hk => absurd (hkey.symm.trans hk) nofun
  | some key =>
    rw [hkey] at h
    simp only [fetchExistingByIdemKey, Prog.run_query_bind] at h
    cases hexisting : s.movementByKey key with
    | none =>
      rw [hexisting] at h
      refine hrecord h fun key' hk => ?_
      obtain rfl := Option.some.inj (hkey.symm.trans hk)
      exact hexisting
    | some existing =>
      rw [hexisting] at h
      cases h
      refine Or.inr ⟨fun hm => ?_, rfl⟩
      have hnone := hm.2.2 key hkey
      rw [hexisting] at hnone
      cases hnone

def Receives (w i : Uuid) (x : Db × Uuid × PostMovementInput) : Prop := MovesLevel w i x ∧ 0 < x.2.2.qtyDelta

omit [Formats] in
instance (w i : Uuid) (x : Db × Uuid × PostMovementInput) : Decidable (Receives w i x) :=
  inferInstanceAs (Decidable (_ ∧ _))

/-- A receipt into the position that it finds blends between the costs. -/
def Blends (w i : Uuid) (x : Db × Uuid × PostMovementInput) : Prop :=
  Receives w i x → BlendsBetween (x.1.stockLevel w i).qtyOnHand (x.1.stockLevel w i).avgUnitCostMinor
    x.2.2.qtyDelta x.2.2.unitCostMinor

omit [Formats] in
instance (w i : Uuid) (x : Db × Uuid × PostMovementInput) : Decidable (Blends w i x) := by
  unfold Blends
  infer_instance

/-- The average after a step, a receipt's between the average before and its cost. -/
def Between (w i : Uuid) (x : Db × Uuid × PostMovementInput) (t : Db) : Prop :=
  min (x.1.stockLevel w i).avgUnitCostMinor x.2.2.unitCostMinor ≤ (t.stockLevel w i).avgUnitCostMinor ∧
    (t.stockLevel w i).avgUnitCostMinor ≤ max (x.1.stockLevel w i).avgUnitCostMinor x.2.2.unitCostMinor

theorem average_step {w i : Uuid} {o : Uuid × PostMovementInput} {s : Db} {x : PostMovementOutcome × Db}
    (h : (movement o).run s = .ok x) (hdelta : InI64 o.2.qtyDelta) (havg : 0 ≤ (s.stockLevel w i).avgUnitCostMinor)
    (hcost : Receives w i (s, o) → 0 ≤ o.2.unitCostMinor) (hblends : Blends w i (s, o)) :
    0 ≤ (x.2.stockLevel w i).avgUnitCostMinor ∧ (Receives w i (s, o) → Between w i (s, o) x.2) := by
  rcases run_movement h w i with ⟨hmoves, cogs, happlied⟩ | ⟨hother, hsame⟩
  · rcases PostMovementInput.applied_cases hdelta happlied with ⟨hpos, -, hnext⟩ | ⟨hneg, -, hnext⟩
    · have hreceives : Receives w i (s, o) := ⟨hmoves, hpos⟩
      have hcost := hcost hreceives
      have hbetween : Between w i (s, o) x.2 := by
        unfold Between
        rw [hnext]
        exact (blend_between_iff havg hcost hpos).mpr (hblends hreceives)
      exact ⟨le_trans (le_min havg hcost) hbetween.1, fun _ => hbetween⟩
    · rw [hnext]
      exact ⟨havg, fun hreceives => absurd hreceives.2 (by dsimp only; omega)⟩
  · rw [hsame]
    exact ⟨havg, fun hreceives => absurd hreceives.1 hother⟩

variable {w i : Uuid} {s t : Db} {steps : List (Db × Uuid × PostMovementInput)}

/-- In every run whose receipts cost no less than nothing and blend between the costs, the average stays a cost,
and each receipt's lies between. -/
theorem average_stays_cost (h : Runs movement s steps t) (h0 : 0 ≤ (s.stockLevel w i).avgUnitCostMinor)
    (hdelta : ∀ x ∈ steps, InI64 x.2.2.qtyDelta)
    (hcost : ∀ x ∈ steps, Receives w i x → 0 ≤ x.2.2.unitCostMinor) (hblends : ∀ x ∈ steps, Blends w i x) :
    0 ≤ (t.stockLevel w i).avgUnitCostMinor ∧
      ∀ x ∈ steps, Receives w i x → ∀ r, (movement x.2).run x.1 = .ok r → Between w i x r.2 := by
  induction h with
  | nil => exact ⟨h0, nofun⟩
  | @step t u steps o a prior hr ih =>
    simp only [List.forall_mem_append, List.forall_mem_singleton] at hdelta hcost hblends ⊢
    obtain ⟨havg, hbefore⟩ := ih hdelta.1 hcost.1 hblends.1
    obtain ⟨hnext, hbetween⟩ := average_step hr hdelta.2 havg hcost.2 hblends.2
    refine ⟨hnext, hbefore, fun hreceives r hr' => ?_⟩
    obtain rfl := Except.ok.inj (hr.symm.trans hr')
    exact hbetween hreceives

def receiptValue (w i : Uuid) (x : Db × Uuid × PostMovementInput) : Int :=
  if Receives w i x then x.2.2.qtyDelta * x.2.2.unitCostMinor else 0

def issuedCogs (w i : Uuid) (x : Db × Uuid × PostMovementInput) : Int :=
  if MovesLevel w i x then ((x.2.2.applied (x.1.stockLevel w i)).toOption.bind Prod.snd).getD 0 else 0

def onHandAfter (w i : Uuid) (x : Db × Uuid × PostMovementInput) : Int :=
  if Receives w i x then (x.1.stockLevel w i).qtyOnHand + x.2.2.qtyDelta else 0

def Db.value (db : Db) (w i : Uuid) : Int := (db.stockLevel w i).qtyOnHand * (db.stockLevel w i).avgUnitCostMinor

/-- The value that the position does not show. -/
def lostValue (w i : Uuid) (steps : List (Db × Uuid × PostMovementInput)) (t : Db) : Int :=
  (steps.map (receiptValue w i)).sum - (steps.map (issuedCogs w i)).sum - t.value w i

def BlendsExactly (w i : Uuid) (x : Db × Uuid × PostMovementInput) : Prop :=
  Receives w i x → (x.1.stockLevel w i).qtyOnHand + x.2.2.qtyDelta ∣
    (x.1.stockLevel w i).qtyOnHand * (x.1.stockLevel w i).avgUnitCostMinor + x.2.2.qtyDelta * x.2.2.unitCostMinor

omit [Formats] in
theorem blend_value {q a r c : Int} (hq : 0 ≤ q) (hr : 0 < r) :
    2 * |q * a + r * c - (q + r) * blend q a r c| ≤ q + r ∧
      (q + r ∣ q * a + r * c → q * a + r * c = (q + r) * blend q a r c) := by
  have hn : 0 < q + r := by omega
  have hnQ : (0 : ℚ) < (q + r : Int) := by exact_mod_cast hn
  unfold blend
  rw [if_neg hn.ne']
  generalize q * a + r * c = v
  generalize q + r = n at *
  constructor
  · have hnear := abs_sub_roundAway_le ((v : ℚ) / n)
    have hscaled : |(v : ℚ) - n * roundAway ((v : ℚ) / n)| ≤ n / 2 := by
      rw [show (v : ℚ) - n * roundAway ((v : ℚ) / n) = n * (v / n - roundAway ((v : ℚ) / n)) by
        rw [mul_sub, mul_div_cancel₀ _ hnQ.ne'], abs_mul, abs_of_pos hnQ]
      linarith [mul_le_mul_of_nonneg_left hnear hnQ.le]
    have hdouble : (2 : ℚ) * |(v : ℚ) - n * roundAway ((v : ℚ) / n)| ≤ n := by linarith
    exact_mod_cast hdouble
  · rintro ⟨k, rfl⟩
    rw [Int.cast_mul, mul_div_cancel_left₀ _ hnQ.ne', roundAway_intCast]

/-- One accepted request moves the value by what it receives less what it issues, and by the rounding of its
blend. -/
theorem value_step {w i : Uuid} {o : Uuid × PostMovementInput} {s : Db} {x : PostMovementOutcome × Db}
    (h : (movement o).run s = .ok x) (hdelta : InI64 o.2.qtyDelta) (hqty : 0 ≤ (s.stockLevel w i).qtyOnHand) :
    2 * |receiptValue w i (s, o) - issuedCogs w i (s, o) - (x.2.value w i - s.value w i)| ≤ onHandAfter w i (s, o) ∧
      (BlendsExactly w i (s, o) →
        receiptValue w i (s, o) - issuedCogs w i (s, o) = x.2.value w i - s.value w i) := by
  unfold receiptValue issuedCogs onHandAfter BlendsExactly Db.value
  rcases run_movement h w i with ⟨hmoves, cogs, happlied⟩ | ⟨hother, hsame⟩
  · rw [if_pos hmoves, happlied]
    dsimp only [Except.toOption, Option.bind_some]
    rcases PostMovementInput.applied_cases hdelta happlied with ⟨hpos, rfl, hnext⟩ | ⟨hneg, rfl, hnext⟩
    · have hreceives : Receives w i (s, o) := ⟨hmoves, hpos⟩
      obtain ⟨hbound, hexact⟩ := blend_value (a := (s.stockLevel w i).avgUnitCostMinor) (c := o.2.unitCostMinor)
        hqty hpos
      rw [if_pos hreceives, if_pos hreceives, hnext]
      dsimp only [Option.getD_none]
      refine ⟨le_trans (le_of_eq ?_) hbound, fun hdivides => ?_⟩
      · congr 2
        ring
      · linarith [hexact (hdivides hreceives)]
    · have hissues : ¬Receives w i (s, o) := fun hreceives => absurd hreceives.2 (by dsimp only; omega)
      have hvalue : 0 - -o.2.qtyDelta * (s.stockLevel w i).avgUnitCostMinor =
          ((s.stockLevel w i).qtyOnHand + o.2.qtyDelta) * (s.stockLevel w i).avgUnitCostMinor -
            (s.stockLevel w i).qtyOnHand * (s.stockLevel w i).avgUnitCostMinor := by ring
      rw [if_neg hissues, if_neg hissues, hnext]
      dsimp only [Option.getD_some]
      rw [hvalue, sub_self, abs_zero, mul_zero]
      exact ⟨le_rfl, fun _ => rfl⟩
  · have hissues : ¬Receives w i (s, o) := fun hreceives => hother hreceives.1
    rw [if_neg hissues, if_neg hother, if_neg hissues, hsame, sub_self, sub_self, sub_self, abs_zero, mul_zero]
    exact ⟨le_rfl, fun _ => rfl⟩

/-- In every run from an empty position that never goes below zero, the value misses what was received less what
was issued by at most half a unit for each piece that was on hand at a receipt. -/
theorem valuation_loses_only_rounding (h : Runs movement s steps t) (hempty : (s.stockLevel w i).qtyOnHand = 0)
    (hdelta : ∀ x ∈ steps, InI64 x.2.2.qtyDelta) (hqty : ∀ x ∈ steps, 0 ≤ (x.1.stockLevel w i).qtyOnHand) :
    2 * |lostValue w i steps t| ≤ (steps.map (onHandAfter w i)).sum ∧
      ((∀ x ∈ steps, BlendsExactly w i x) → lostValue w i steps t = 0) := by
  induction h with
  | nil =>
    have hzero : lostValue w i [] s = 0 := by
      unfold lostValue Db.value
      rw [hempty]
      simp
    rw [hzero]
    exact ⟨le_rfl, fun _ => rfl⟩
  | @step t u steps o a prior hr ih =>
    simp only [List.forall_mem_append, List.forall_mem_singleton] at hdelta hqty ⊢
    obtain ⟨hlost, hnone⟩ := ih hdelta.1 hqty.1
    obtain ⟨hmoved, hexact⟩ := value_step (i := i) hr hdelta.2 hqty.2
    have hsplit : lostValue w i (steps ++ [(t, o)]) u = lostValue w i steps t +
        (receiptValue w i (t, o) - issuedCogs w i (t, o) - (u.value w i - t.value w i)) := by
      unfold lostValue
      rw [List.map_append, List.map_append, List.sum_append, List.sum_append, List.map_singleton, List.map_singleton,
        List.sum_singleton, List.sum_singleton]
      ring
    rw [hsplit, List.map_append, List.sum_append, List.map_singleton, List.sum_singleton]
    refine ⟨?_, fun hdivides => ?_⟩
    · have htriangle := abs_add_le (lostValue w i steps t)
        (receiptValue w i (t, o) - issuedCogs w i (t, o) - (u.value w i - t.value w i))
      linarith
    · have hrest := hexact hdivides.2
      have hbefore := hnone hdivides.1
      linarith

end

def Db.oneBackorderable : Db :=
  { Db.empty with
    warehouses := Table.empty.insert 1 ⟨"wh_1"⟩
    items := Table.empty.insert 2 ⟨"item_2", "USD", 0, true, true⟩ }

def receiving (id : Uuid) (qty cost : Int) : Uuid × PostMovementInput :=
  (id, { warehouseId := 1, itemId := 2, qtyDelta := qty, unitCostMinor := cost, movementType := "receipt",
         idempotencyKey := none, createdBy := 1 })

def issuing (id : Uuid) (qty : Int) : Uuid × PostMovementInput :=
  (id, { warehouseId := 1, itemId := 2, qtyDelta := -qty, unitCostMinor := 0, movementType := "issue",
         idempotencyKey := none, createdBy := 1 })

/-- Ten pieces at 100, four issued, two at 130: the average is 108 (rounded from 107.5). -/
theorem average_stays_cost_two_receipts :
    letI := canonicalFormats
    ∃ steps t, Runs movement Db.oneBackorderable steps t ∧ (t.stockLevel 1 2).avgUnitCostMinor = 108 ∧
      0 ≤ (t.stockLevel 1 2).avgUnitCostMinor ∧
      ∀ x ∈ steps, Receives 1 2 x → ∀ r, (movement x.2).run x.1 = .ok r → Between 1 2 x r.2 := by
  let := canonicalFormats
  obtain ⟨steps, t, hrun, hend⟩ := Runs.of_play movement [receiving 10 10 100, issuing 11 4, receiving 12 2 130]
    Db.oneBackorderable
    (fun steps t => (t.stockLevel 1 2).avgUnitCostMinor = 108 && steps.all fun x =>
      InI64 x.2.2.qtyDelta && decide (Receives 1 2 x → 0 ≤ x.2.2.unitCostMinor) && Blends 1 2 x) (by decide +kernel)
  simp only [Bool.and_eq_true, decide_eq_true_eq, List.all_eq_true] at hend
  obtain ⟨havg, hsteps⟩ := hend
  obtain ⟨hcost, hbetween⟩ := average_stays_cost (w := 1) (i := 2) hrun (by decide) (fun x hx => (hsteps x hx).1.1)
    (fun x hx => (hsteps x hx).1.2) (fun x hx => (hsteps x hx).2)
  exact ⟨steps, t, hrun, havg, hcost, hbetween⟩

/-- Five pieces at 100, ten issued, ten at 10: five pieces on hand at an average of -80. -/
theorem average_goes_negative :
    letI := canonicalFormats
    ∃ steps t, Runs movement Db.oneBackorderable steps t ∧
      (∀ x ∈ steps, Receives 1 2 x → 0 ≤ x.2.2.unitCostMinor) ∧
      t.stockLevel 1 2 = ⟨5, -80⟩ := by
  let := canonicalFormats
  obtain ⟨steps, t, hrun, hend⟩ := Runs.of_play movement [receiving 10 5 100, issuing 11 10, receiving 12 10 10]
    Db.oneBackorderable
    (fun steps t => t.stockLevel 1 2 = ⟨5, -80⟩ && steps.all fun x =>
      decide (Receives 1 2 x → 0 ≤ x.2.2.unitCostMinor)) (by decide +kernel)
  simp only [Bool.and_eq_true, decide_eq_true_eq, List.all_eq_true] at hend
  exact ⟨steps, t, hrun, hend.2, hend.1⟩

/-- The same receipts and issue: the rounded average shows half a unit more on each of the eight pieces. -/
theorem valuation_loses_only_rounding_two_receipts :
    letI := canonicalFormats
    ∃ steps t, Runs movement Db.oneBackorderable steps t ∧ lostValue 1 2 steps t = -4 ∧
      2 * |lostValue 1 2 steps t| ≤ (steps.map (onHandAfter 1 2)).sum ∧
      ((∀ x ∈ steps, BlendsExactly 1 2 x) → lostValue 1 2 steps t = 0) := by
  let := canonicalFormats
  obtain ⟨steps, t, hrun, hend⟩ := Runs.of_play movement [receiving 10 10 100, issuing 11 4, receiving 12 2 130]
    Db.oneBackorderable
    (fun steps t => lostValue 1 2 steps t = -4 && steps.all fun x =>
      InI64 x.2.2.qtyDelta && decide (0 ≤ (x.1.stockLevel 1 2).qtyOnHand)) (by decide +kernel)
  simp only [Bool.and_eq_true, decide_eq_true_eq, List.all_eq_true] at hend
  obtain ⟨hlost, hsteps⟩ := hend
  exact ⟨steps, t, hrun, hlost, valuation_loses_only_rounding hrun (by decide) (fun x hx => (hsteps x hx).1)
    fun x hx => (hsteps x hx).2⟩

end Noxara.Inventory
