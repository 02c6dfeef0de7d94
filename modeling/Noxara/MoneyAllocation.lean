import Noxara.LargestRemainder
import Noxara.MachineWords
import Noxara.MoneyArithmetic
import Mathlib.Algebra.BigOperators.Fin
import Mathlib.Data.List.Sort

/-! Allocation of an amount over weights: the loops of the code on their words, and when they give parts. -/
namespace Noxara.Finance
open Words Apportionment

def isizeMax : ℕ := 9223372036854775807

/-- `Vec::with_capacity` panics where the bytes pass `isize::MAX`. -/
def withCapacity (size len : ℕ) : Option Unit := if size * len ≤ isizeMax then some () else none

/-- What the loop over the weights collects. -/
structure Shares where
  floors : List Int
  remainders : List (ℕ × Int)
  allocated : Int

/-- One weight and its place. The sum is positive, so the division is one. -/
def Shares.push (build : Build) (totalAbs sumW : Int) (s : Shares) (weight : Int × ℕ) : Option Shares := do
  let product ← build.arith u128 (totalAbs * weight.1)
  let floor := product / sumW
  let rem := product % sumW
  let allocated ← build.arith u128 (s.allocated + floor)
  some ⟨s.floors ++ [floor], s.remainders ++ [(weight.2, rem)], allocated⟩

/-- By remainder descending, then by place. -/
def Precedes (a b : ℕ × Int) : Prop := b.2 < a.2 ∨ b.2 = a.2 ∧ a.1 ≤ b.1

instance : DecidableRel Precedes := fun _ _ => inferInstanceAs (Decidable (_ ∨ _))

/-- The loop over the remainders, that skips the zero weights. -/
def giveLeftover (build : Build) (weights : List Int) : List (ℕ × Int) → Int → List Int → Option (List Int)
  | [], _, floors => some floors
  | (i, _) :: rest, leftover, floors =>
    if leftover = 0 then some floors
    else do
      let w ← weights[i]?
      if w = 0 then giveLeftover build weights rest leftover floors
      else do
        let floor ← floors[i]?
        let raised ← build.arith u128 (floor + 1)
        let left ← build.arith u128 (leftover - 1)
        giveLeftover build weights rest left (floors.set i raised)

/-- `checked_mul` and its `expect`. -/
def signedPart (build : Build) (sign : Int) (currency : Currency) (f : Int) : Option Money := do
  let minor ← build.cast i64 f
  if i64.Has (minor * sign) then some ⟨minor * sign, currency⟩ else none

def allocateLargestRemainder (build : Build) (total : Money) (weights : List Int) :
    Option (Except MoneyError (List Money)) :=
  if weights = [] ∨ ∀ w ∈ weights, w = 0 then some (.error .invalidAllocationWeights)
  else do
    let sumW ← weights.foldlM (fun sum w => build.arith u128 (sum + w)) 0
    let totalAbs : Int := total.amountMinor.natAbs
    let sign : Int := if total.amountMinor < 0 then -1 else 1
    withCapacity 16 weights.length
    withCapacity 32 weights.length
    let shares ← weights.zipIdx.foldlM (Shares.push build totalAbs sumW) ⟨[], [], 0⟩
    let leftover ← build.arith u128 (totalAbs - shares.allocated)
    let floors ← giveLeftover build weights (shares.remainders.insertionSort Precedes) leftover shares.floors
    let parts ← floors.mapM (signedPart build sign total.currency)
    some (.ok parts)

example : allocateLargestRemainder .debug ⟨-100, .USD⟩ [1, 0, 1, 1] =
    some (.ok [⟨-34, .USD⟩, ⟨0, .USD⟩, ⟨-33, .USD⟩, ⟨-33, .USD⟩]) := by decide

variable {build : Build} {T S : Int} {ws : List Int}

theorem foldlM_sum {acc : Int} (hws : ∀ w ∈ ws, 0 ≤ w) (hacc : 0 ≤ acc) (hsum : u128.Has (acc + ws.sum)) :
    ws.foldlM (fun sum w => build.arith u128 (sum + w)) acc = some (acc + ws.sum) := by
  induction ws generalizing acc with
  | nil => simp
  | cons w ws ih =>
    have hw := hws w List.mem_cons_self
    have hrest : 0 ≤ ws.sum := List.sum_nonneg fun x hx => hws x (List.mem_cons_of_mem w hx)
    rw [List.sum_cons, ← add_assoc] at hsum ⊢
    have hstep : u128.Has (acc + w) := by
      rw [has_u128] at hsum ⊢
      omega
    rw [List.foldlM_cons, Build.arith_of_has hstep, Option.bind_eq_bind, Option.bind_some]
    exact ih (fun x hx => hws x (List.mem_cons_of_mem w hx)) (by omega) hsum

theorem foldlM_push {l : List (Int × ℕ)} {s : Shares} (hproduct : ∀ a ∈ l, u128.Has (T * a.1))
    (hquota : ∀ a ∈ l, 0 ≤ quota T S a.1) (hacc : 0 ≤ s.allocated)
    (hsum : u128.Has (s.allocated + (l.map fun a => quota T S a.1).sum)) :
    l.foldlM (Shares.push build T S) s = some ⟨s.floors ++ l.map fun a => quota T S a.1,
      s.remainders ++ l.map fun a => (a.2, excess T S a.1),
      s.allocated + (l.map fun a => quota T S a.1).sum⟩ := by
  induction l generalizing s with
  | nil => simp
  | cons a l ih =>
    have ha := hquota a List.mem_cons_self
    have hrest : 0 ≤ (l.map fun a => quota T S a.1).sum := by
      refine List.sum_nonneg fun x hx => ?_
      obtain ⟨b, hb, rfl⟩ := List.mem_map.mp hx
      exact hquota b (List.mem_cons_of_mem a hb)
    rw [List.map_cons, List.sum_cons, ← add_assoc] at hsum ⊢
    have hstep : u128.Has (s.allocated + quota T S a.1) := by
      rw [has_u128] at hsum ⊢
      omega
    have hpush : Shares.push build T S s a = some ⟨s.floors ++ [quota T S a.1],
        s.remainders ++ [(a.2, excess T S a.1)], s.allocated + quota T S a.1⟩ := by
      unfold Shares.push
      rw [Build.arith_of_has (hproduct a List.mem_cons_self)]
      simp only [Option.bind_eq_bind, Option.bind_some]
      rw [show T * a.1 / S = quota T S a.1 from rfl, Build.arith_of_has hstep]
      rfl
    rw [List.foldlM_cons, hpush, Option.bind_eq_bind, Option.bind_some,
      ih (fun b hb => hproduct b (List.mem_cons_of_mem a hb)) (fun b hb => hquota b (List.mem_cons_of_mem a hb))
        (by dsimp only; omega) hsum]
    simp

/-- The loop raises the floors of the first places that weigh something. -/
theorem giveLeftover_eq {ranked : List (Int × ℕ)} (hmem : ∀ a ∈ ranked, ws[a.2]? = some a.1) {n : ℕ}
    {floors : List Int} (hlen : floors.length = ws.length) (hfloors : ∀ f ∈ floors, 0 ≤ f ∧ u128.Has (f + n)) :
    giveLeftover build ws (ranked.map fun a => (a.2, excess T S a.1)) n floors =
      some (raiseAll floors (((ranked.filter (·.1 ≠ 0)).take n).map Prod.snd)) := by
  induction ranked generalizing n floors with
  | nil => simp [giveLeftover, raiseAll]
  | cons a ranked ih =>
    have hrest : ∀ b ∈ ranked, ws[b.2]? = some b.1 := fun b hb => hmem b (List.mem_cons_of_mem a hb)
    obtain ⟨w, i⟩ := a
    have hw : ws[i]? = some w := hmem (w, i) List.mem_cons_self
    cases n with
    | zero => simp [giveLeftover, raiseAll]
    | succ n =>
      rw [List.map_cons, giveLeftover, if_neg (by omega), hw]
      simp only [Option.bind_eq_bind, Option.bind_some]
      by_cases hzero : w = 0
      · rw [if_pos hzero, ih hrest hlen hfloors, List.filter_cons_of_neg (by simpa using hzero)]
      · have hi : i < floors.length := by
          rw [hlen]
          exact (List.getElem?_eq_some_iff.mp hw).1
        have hget : floors[i]? = some floors[i] := List.getElem?_eq_getElem hi
        obtain ⟨hnonneg, hhas⟩ := hfloors floors[i] (List.getElem_mem hi)
        rw [has_u128] at hhas
        push_cast at hhas
        have hset : floors.set i (floors[i] + 1) = floors.modify i (· + 1) := by
          rw [List.modify_eq_set_getElem?, hget]
          rfl
        rw [if_neg hzero, hget]
        simp only [Option.bind_some]
        rw [Build.arith_of_has (has_u128.mpr (by omega)), Build.arith_of_has (has_u128.mpr (by omega))]
        simp only [Option.bind_some]
        rw [hset, show ((n + 1 : ℕ) : Int) - 1 = n by omega, ih hrest (by simpa using hlen),
          List.filter_cons_of_pos (by simpa using hzero)]
        · rfl
        · intro f hf
          rw [← hset] at hf
          rcases List.mem_or_eq_of_mem_set hf with hf | rfl
          · obtain ⟨hf, hhas⟩ := hfloors f hf
            rw [has_u128] at hhas ⊢
            push_cast at hhas
            omega
          · rw [has_u128]
            omega

instance : Std.Total Precedes := ⟨fun a b => by unfold Precedes; omega⟩

instance : IsTrans (ℕ × Int) Precedes := ⟨fun a b c hab hbc => by unfold Precedes at *; omega⟩

/-- The weights in the order of the remainders. -/
def ranking (T : Int) (ws : List Int) : List (Int × ℕ) :=
  ws.zipIdx.insertionSort fun a b => Precedes (a.2, excess T ws.sum a.1) (b.2, excess T ws.sum b.1)

theorem ranking_perm (T : Int) (ws : List Int) : (ranking T ws).Perm ws.zipIdx := List.perm_insertionSort _ _

theorem ranking_map (T : Int) (ws : List Int) :
    (ws.zipIdx.map fun a => (a.2, excess T ws.sum a.1)).insertionSort Precedes =
      (ranking T ws).map fun a => (a.2, excess T ws.sum a.1) :=
  (List.map_insertionSort (r := fun a b : Int × ℕ => Precedes (a.2, excess T ws.sum a.1) (b.2, excess T ws.sum b.1))
    (s := Precedes) _ _ fun _ _ _ _ => Iff.rfl).symm

theorem ranking_sorted (T : Int) (ws : List Int) : (ranking T ws).Pairwise (Before T ws.sum) := by
  have h := List.pairwise_insertionSort Precedes (ws.zipIdx.map fun a => (a.2, excess T ws.sum a.1))
  rw [ranking_map, List.pairwise_map] at h
  exact h

/-- What the floors and the leftover are before the sign. -/
def unsignedParts (T : Int) (ws : List Int) : List Int := parts T ws (ranking T ws)

theorem unsignedParts_apportions (hS : 0 < ws.sum) : Apportions T ws (unsignedParts T ws) :=
  apportions (ranking_perm T ws) (ranking_sorted T ws) hS

theorem sum_le_of_bound {m : Int} (hws : ∀ w ∈ ws, w ≤ m) : ws.sum ≤ ws.length * m := by
  simpa using List.sum_le_card_nsmul ws m hws

theorem map_weight_zipIdx (f : Int → Int) (ws : List Int) : (ws.zipIdx.map fun a => f a.1) = ws.map f := by
  conv_rhs => rw [← List.zipIdx_map_fst 0 ws, List.map_map]
  rfl

theorem withCapacity_of_le {size len : ℕ} (h : size * len ≤ isizeMax) : withCapacity size len = some () :=
  if_pos h

/-- In range, only the signs can fail. -/
theorem allocateLargestRemainder_eq {total : Money} (htotal : InI64 total.amountMinor)
    (hws : ∀ w ∈ ws, u64.Has w) (hS : 0 < ws.sum) (hlen : 32 * ws.length ≤ isizeMax) :
    allocateLargestRemainder build total ws = ((unsignedParts total.amountMinor.natAbs ws).mapM
      (signedPart build (if total.amountMinor < 0 then -1 else 1) total.currency)).map Except.ok := by
  rw [inI64_iff, i64Min, i64Max] at htotal
  unfold isizeMax at hlen
  have hnonneg : ∀ w ∈ ws, 0 ≤ w := fun w hw => (has_u64.mp (hws w hw)).1
  have hT : (0 : Int) ≤ total.amountMinor.natAbs := Int.natCast_nonneg _
  have hsum := sum_le_of_bound fun w hw => (has_u64.mp (hws w hw)).2
  have hzero : ¬(ws = [] ∨ ∀ w ∈ ws, w = 0) := by
    rintro (rfl | hall)
    · exact absurd hS (by simp)
    · rw [List.sum_eq_zero hall] at hS
      omega
  have hleft := leftover_nonneg (T := total.amountMinor.natAbs) hS
  have hquotas : ∀ w ∈ ws, 0 ≤ quota total.amountMinor.natAbs ws.sum w := fun w hw =>
    quota_nonneg hT hS (hnonneg w hw)
  have hproducts : ∀ w ∈ ws, u128.Has (total.amountMinor.natAbs * w) := by
    intro w hw
    obtain ⟨hlow, hhigh⟩ := has_u64.mp (hws w hw)
    have hle : (total.amountMinor.natAbs : Int) * w ≤ 2 ^ 63 * 18446744073709551615 :=
      mul_le_mul (by omega) hhigh hlow (by norm_num)
    rw [has_u128]
    exact ⟨mul_nonneg hT hlow, by omega⟩
  have hfloors := map_weight_zipIdx (quota total.amountMinor.natAbs ws.sum) ws
  have hquotaSum : 0 ≤ (ws.map (quota total.amountMinor.natAbs ws.sum)).sum := by
    refine List.sum_nonneg fun x hx => ?_
    obtain ⟨w, hw, rfl⟩ := List.mem_map.mp hx
    exact hquotas w hw
  have hfst : ∀ a ∈ ws.zipIdx, a.1 ∈ ws := fun a ha => List.fst_mem_of_mem_zipIdx ha
  unfold leftover at hleft
  unfold allocateLargestRemainder
  rw [if_neg hzero, foldlM_sum hnonneg le_rfl (by rw [has_u128]; omega), withCapacity_of_le (by unfold isizeMax; omega),
    withCapacity_of_le hlen]
  simp only [Option.bind_eq_bind, Option.bind_some, zero_add]
  rw [foldlM_push (fun a ha => hproducts _ (hfst a ha)) (fun a ha => hquotas _ (hfst a ha)) le_rfl
    (by rw [hfloors, has_u128]; dsimp only; omega)]
  simp only [Option.bind_some, List.nil_append, zero_add]
  rw [hfloors, Build.arith_of_has (by rw [has_u128]; omega)]
  simp only [Option.bind_some]
  have hcount : ((leftover total.amountMinor.natAbs ws).toNat : Int) =
      total.amountMinor.natAbs - (ws.map (quota total.amountMinor.natAbs ws.sum)).sum := by
    unfold leftover
    omega
  rw [show (ws.zipIdx.map fun a : Int × ℕ => (a.2, excess total.amountMinor.natAbs ws.sum a.1)).insertionSort
      Precedes = _ from ranking_map _ ws, ← hcount, giveLeftover_eq]
  · rw [Option.bind_some, Option.map_eq_bind]
    rfl
  · intro a ha
    exact (mem_ranked (ranking_perm _ ws)).mp ha
  · exact List.length_map _
  · intro f hf
    have hall : ∀ q ∈ ws.map (quota total.amountMinor.natAbs ws.sum), 0 ≤ q := by
      intro q hq
      obtain ⟨w, hw, rfl⟩ := List.mem_map.mp hq
      exact hquotas w hw
    have hle := List.single_le_sum hall f hf
    have hfnonneg := hall f hf
    rw [has_u128]
    omega

theorem mapM_eq_map {α β : Type} {g : α → Option β} {h : α → β} {l : List α}
    (hg : ∀ a ∈ l, g a = some (h a)) :
    l.mapM g = some (l.map h) := by
  induction l with
  | nil => rfl
  | cons a l ih =>
    rw [List.mapM_cons, hg a List.mem_cons_self, ih fun b hb => hg b (List.mem_cons_of_mem a hb)]
    rfl

theorem mapM_eq_none {α β : Type} {g : α → Option β} {l : List α} {a : α} (ha : a ∈ l) (hg : g a = none) :
    l.mapM g = none := by
  induction l with
  | nil => cases ha
  | cons b l ih =>
    rw [List.mapM_cons]
    rcases List.mem_cons.mp ha with rfl | hl
    · rw [hg]
      rfl
    · rw [ih hl]
      cases g b <;> rfl

theorem signedPart_eq {sign f : Int} {c : Currency} (hsign : sign = 1 ∨ sign = -1) (hf : 0 ≤ f)
    (hle : f ≤ i64Max) : signedPart build sign c f = some ⟨f * sign, c⟩ := by
  unfold i64Max at hle
  unfold signedPart
  rw [Build.cast_of_has (has_i64.mpr (by omega)), Option.bind_eq_bind, Option.bind_some, if_pos]
  rw [has_i64]
  rcases hsign with rfl | rfl <;> omega

/-- The magnitude of the least amount is cast to that amount, and its negation does not fit. -/
theorem signedPart_top (c : Currency) : signedPart build (-1) c 9223372036854775808 = none := by
  have hout : ¬i64.Has 9223372036854775808 := by decide
  unfold signedPart Build.cast Overflow.keep
  rw [if_neg hout]
  cases build.casts with
  | panics => rfl
  | wraps => rfl

/-- A weight that is the sum, or the largest weight there is before a single unit. -/
def WholeToOne (weights : List Int) : Prop :=
  weights.sum ∈ weights ∨ ∃ i j :
    ℕ, i < j ∧ weights[i]? = some 18446744073709551615 ∧ weights[j]? = some 1 ∧
    weights.sum = 18446744073709551616

section
variable {ps : List Int} (h : Apportions 9223372036854775808 ws ps) (hws : ∀ w ∈ ws, u64.Has w) (hS : 0 < ws.sum)
include h hws hS

theorem wholeToOne_of_mem (hp : 9223372036854775808 ∈ ps) : WholeToOne ws := by
  have hnonneg : ∀ w ∈ ws, 0 ≤ w := fun w hw => (has_u64.mp (hws w hw)).1
  have hparts : ∀ p ∈ ps, 0 ≤ p := fun p => h.nonneg (by norm_num) hS hnonneg
  obtain ⟨i, hi⟩ := List.mem_iff_getElem?.mp hp
  obtain ⟨w, hw, hmem⟩ := h.weight hi
  by_cases hwhole : w = ws.sum
  · exact Or.inl (hwhole ▸ hmem)
  -- Another weight than the whole has a quota below it, and so takes the unit that another does not.
  obtain ⟨j, v, hne, hv, hvpos⟩ : ∃ (j : ℕ) (v : Int), j ≠ i ∧ ws[j]? = some v ∧ v ≠ 0 := by
    by_contra hnone
    push Not at hnone
    exact hwhole (sum_eq_of_others hw hnone).symm
  obtain ⟨hwlow, hwhigh⟩ := has_u64.mp (hws w hmem)
  have hvlow := hnonneg v (List.mem_of_getElem? hv)
  have hpair := pair_le_sum hnonneg hw hv hne.symm
  obtain ⟨q, hq, hqmem⟩ := h.part hv
  have hqzero : q = 0 := by
    have hle := pair_le_sum hparts hi hq hne.symm
    have hlow := hparts q hqmem
    rw [h.sum] at hle
    omega
  have hqw := mul_quota_add_excess 9223372036854775808 ws.sum w
  have hqv := mul_quota_add_excess 9223372036854775808 ws.sum v
  have hew := excess_nonneg (T := 9223372036854775808) hS w
  have hquota : quota 9223372036854775808 ws.sum w = 9223372036854775807 := by
    rcases h.near hw hi with heq | heq
    · rw [← heq] at hqw
      omega
    · omega
  have hquotav : quota 9223372036854775808 ws.sum v = 0 := by
    have hlow := quota_nonneg (T := 9223372036854775808) (by norm_num) hS hvlow
    rcases h.near hv hq with heq | heq <;> omega
  have hfair := h.fair hv hw hq hi hvpos
  rw [hquota] at hqw
  rw [hquotav, mul_zero] at hqv
  have hlate : ¬(excess 9223372036854775808 ws.sum w < excess 9223372036854775808 ws.sum v ∨
      excess 9223372036854775808 ws.sum w = excess 9223372036854775808 ws.sum v ∧ j < i) := fun hbefore => by
    have hraised := hfair hbefore (by omega)
    omega
  have hwtop : w = 18446744073709551615 := by omega
  have hvone : v = 1 := by omega
  subst hwtop hvone
  exact Or.inr ⟨i, j, by omega, hw, hv, by omega⟩

theorem mem_of_wholeToOne (hwhole : WholeToOne ws) : 9223372036854775808 ∈ ps := by
  have hnonneg : ∀ w ∈ ws, 0 ≤ w := fun w hw => (has_u64.mp (hws w hw)).1
  have hle : ∀ p ∈ ps, p ≤ 9223372036854775808 := fun p => h.le_total (by norm_num) hS hnonneg
  rcases hwhole with hmem | ⟨i, j, hij, hi, hj, hsum⟩
  · obtain ⟨i, hi⟩ := List.mem_iff_getElem?.mp hmem
    obtain ⟨p, hp, hpmem⟩ := h.part hi
    have hquota : quota 9223372036854775808 ws.sum ws.sum = 9223372036854775808 := Int.mul_ediv_cancel _ hS.ne'
    have hbound := hle p hpmem
    rcases h.near hi hp with heq | heq
    · exact (heq.trans hquota) ▸ hpmem
    · omega
  · obtain ⟨p, hp, hpmem⟩ := h.part hi
    have hnear := h.near hi hp
    rw [hsum] at hnear
    have hquota : quota 9223372036854775808 18446744073709551616 18446744073709551615 = 9223372036854775807 := by
      decide
    rw [hquota] at hnear
    rcases hnear with rfl | rfl
    · -- The last unit is elsewhere, so at the single unit, whose remainder is as large but later.
      obtain ⟨k, q, hki, hq, hqpos⟩ : ∃ (k : ℕ) (q : Int), k ≠ i ∧ ps[k]? = some q ∧ q ≠ 0 := by
        by_contra hnone
        push Not at hnone
        have hall := sum_eq_of_others hp hnone
        rw [h.sum] at hall
        omega
      obtain ⟨w, hw, hwmem⟩ := h.weight hq
      have hwpos : w ≠ 0 := by
        rintro rfl
        exact hqpos (h.zero hw hq)
      obtain rfl : k = j := by
        by_contra hkj
        have htriple := triple_le_sum hnonneg hi hj hw (by omega) (Ne.symm hki) (Ne.symm hkj)
        have hwlow := hnonneg w hwmem
        omega
      obtain rfl : w = 1 := by
        rw [hj] at hw
        exact (Option.some.inj hw).symm
      have hquotaj : quota 9223372036854775808 18446744073709551616 1 = 0 := by decide
      have hexcess : excess 9223372036854775808 18446744073709551616 1 =
          excess 9223372036854775808 18446744073709551616 18446744073709551615 := by decide
      have hfair := h.fair hi hj hp hq (by decide)
      rw [hsum, hquota, hquotaj] at hfair
      have hneark := h.near hj hq
      rw [hsum, hquotaj] at hneark
      have hlast := hfair (Or.inr ⟨hexcess, hij⟩) (by omega)
      omega
    · exact hpmem

end

/-- One part for each weight, exactly the total together, each with its sign and the floor of its share or
one more, nothing for a zero weight, and no unit above the floors before a larger remainder has one. -/
structure AllocatesFairly (total : Money) (weights : List Int) (parts : List Money) : Prop where
  length : parts.length = weights.length
  currency : ∀ p ∈ parts, p.currency = total.currency
  sum : (parts.map Money.amountMinor).sum = total.amountMinor
  sign : ∀ p ∈ parts, p.amountMinor = 0 ∨ p.amountMinor.sign = total.amountMinor.sign
  near : ∀ (i : ℕ) w p, weights[i]? = some w → parts[i]? = some p →
    |p.amountMinor| = |total.amountMinor| * w / weights.sum ∨
      |p.amountMinor| = |total.amountMinor| * w / weights.sum + 1
  zero : ∀ (i : ℕ) p, weights[i]? = some 0 → parts[i]? = some p → p.amountMinor = 0
  fair : ∀ (i j : ℕ) v w p q, weights[i]? = some v → weights[j]? = some w → parts[i]? = some p →
    parts[j]? = some q →
    |total.amountMinor| * w % weights.sum < |total.amountMinor| * v % weights.sum →
    |q.amountMinor| = |total.amountMinor| * w / weights.sum + 1 →
    |p.amountMinor| = |total.amountMinor| * v / weights.sum + 1

theorem allocatesFairly_of_apportions {total : Money} {ps : List Int} {sign : Int}
    (hsign : sign = if total.amountMinor < 0 then -1 else 1) (h : Apportions |total.amountMinor| ws ps)
    (hS : 0 < ws.sum) (hws : ∀ w ∈ ws, 0 ≤ w) :
    AllocatesFairly total ws (ps.map fun f => ⟨f * sign, total.currency⟩) := by
  have hnonneg : ∀ p ∈ ps, 0 ≤ p := fun p => h.nonneg (abs_nonneg _) hS hws
  have habs : ∀ p ∈ ps, |p * sign| = p := by
    intro p hp
    rw [abs_mul, abs_of_nonneg (hnonneg p hp), hsign]
    split_ifs <;> simp
  have hget : ∀ {i : ℕ} {p : Money}, (ps.map fun f => (⟨f * sign, total.currency⟩ : Money))[i]? = some p →
      ∃ f, ps[i]? = some f ∧ f ∈ ps ∧ p.amountMinor = f * sign := by
    intro i p hp
    rw [List.getElem?_map] at hp
    obtain ⟨f, hf, rfl⟩ := Option.map_eq_some_iff.mp hp
    exact ⟨f, hf, List.mem_of_getElem? hf, rfl⟩
  constructor
  · rw [List.length_map, h.length]
  · rintro p hp
    obtain ⟨f, -, rfl⟩ := List.mem_map.mp hp
    rfl
  · rw [List.map_map]
    change (ps.map fun f => f * sign).sum = total.amountMinor
    rw [List.sum_map_mul_right, List.map_id', h.sum, hsign]
    split_ifs with hneg
    · rw [abs_of_neg hneg]
      ring
    · rw [abs_of_nonneg (not_lt.mp hneg), mul_one]
  · rintro p hp
    obtain ⟨f, hf, rfl⟩ := List.mem_map.mp hp
    have hlow := hnonneg f hf
    have hhigh := h.le_total (abs_nonneg _) hS hws hf
    rcases hlow.eq_or_lt with rfl | hpos
    · exact Or.inl (zero_mul _)
    · right
      rw [hsign]
      dsimp only
      split_ifs with hneg
      · rw [Int.sign_mul, Int.sign_eq_one_of_pos hpos, Int.sign_eq_neg_one_of_neg hneg]
        rfl
      · rw [abs_of_nonneg (not_lt.mp hneg)] at hhigh
        rw [mul_one, Int.sign_eq_one_of_pos hpos, Int.sign_eq_one_of_pos (hpos.trans_le hhigh)]
  · intro i w p hw hp
    obtain ⟨f, hf, hmem, heq⟩ := hget hp
    rw [heq, habs f hmem]
    exact h.near hw hf
  · intro i p hw hp
    obtain ⟨f, hf, -, heq⟩ := hget hp
    rw [heq, h.zero hw hf, zero_mul]
  · intro i j v w p q hv hw hp hq hlt hraised
    obtain ⟨f, hf, hfmem, heqp⟩ := hget hp
    obtain ⟨g, hg, hgmem, heqq⟩ := hget hq
    rw [heqq, habs g hgmem] at hraised
    rw [heqp, habs f hfmem]
    refine h.fair hv hw hf hg ?_ (Or.inl hlt) hraised
    rintro rfl
    rw [mul_zero, Int.zero_emod] at hlt
    exact absurd hlt (not_lt.mpr (Int.emod_nonneg _ hS.ne'))

theorem capacity_of_ok {total : Money} {parts : List Money}
    (h : allocateLargestRemainder build total ws = some (.ok parts)) : 32 * ws.length ≤ isizeMax := by
  unfold allocateLargestRemainder at h
  by_cases hzero : ws = [] ∨ ∀ w ∈ ws, w = 0
  · rw [if_pos hzero] at h
    cases h
  · rw [if_neg hzero] at h
    simp only [Option.bind_eq_bind, Option.bind_eq_some_iff] at h
    obtain ⟨_, _, _, _, _, hcapacity, _⟩ := h
    unfold withCapacity at hcapacity
    split_ifs at hcapacity with hle
    exact hle

/-- Allocation succeeds and is fair except where the least amount goes whole to one weight. -/
theorem allocates_fairly_iff (build : Build) (total : Money) (weights : List Int)
    (htotal : InI64 total.amountMinor) (hweights : ∀ w ∈ weights, u64.Has w) (hsum : 0 < weights.sum) :
    (∃ parts, allocateLargestRemainder build total weights = some (.ok parts) ∧
      AllocatesFairly total weights parts) ↔
    32 * weights.length ≤ isizeMax ∧ ¬(total.amountMinor = i64Min ∧ WholeToOne weights) := by
  have hnonneg : ∀ w ∈ weights, 0 ≤ w := fun w hw => (has_u64.mp (hweights w hw)).1
  have hshares := unsignedParts_apportions (T := |total.amountMinor|) hsum
  constructor
  · rintro ⟨parts, hrun, -⟩
    have hlen := capacity_of_ok hrun
    refine ⟨hlen, fun ⟨hleast, hwhole⟩ => ?_⟩
    have habs : |total.amountMinor| = 9223372036854775808 := by
      rw [hleast]
      rfl
    rw [habs] at hshares
    rw [allocateLargestRemainder_eq htotal hweights hsum hlen, Int.natCast_natAbs, habs,
      if_pos (by rw [hleast]; decide), mapM_eq_none (mem_of_wholeToOne hshares hweights hsum hwhole)
        (signedPart_top _)] at hrun
    cases hrun
  · rintro ⟨hlen, hpart⟩
    have hsmall : ∀ f ∈ unsignedParts |total.amountMinor| weights, f ≤ i64Max := by
      intro f hf
      have hle := hshares.le_total (abs_nonneg _) hsum hnonneg hf
      simp only [inI64_iff, i64Min, i64Max] at *
      by_cases hleast : total.amountMinor = -9223372036854775808
      · have habs : |total.amountMinor| = 9223372036854775808 := by
          rw [hleast]
          rfl
        rw [habs] at hshares hle hf
        have hne : f ≠ 9223372036854775808 := by
          rintro rfl
          exact hpart ⟨hleast, wholeToOne_of_mem hshares hweights hsum hf⟩
        omega
      · have habs := abs_le.mpr (show -9223372036854775807 ≤ total.amountMinor ∧
          total.amountMinor ≤ 9223372036854775807
          by omega)
        exact hle.trans habs
    refine ⟨_, ?_, allocatesFairly_of_apportions rfl hshares hsum hnonneg⟩
    rw [allocateLargestRemainder_eq htotal hweights hsum hlen, Int.natCast_natAbs, mapM_eq_map]
    · rfl
    · intro f hf
      refine signedPart_eq ?_ (hshares.nonneg (abs_nonneg _) hsum hnonneg hf) (hsmall f hf)
      split_ifs
      · exact Or.inr rfl
      · exact Or.inl rfl

theorem allocates_fairly_thirds :
    ∃ parts, allocateLargestRemainder .debug ⟨-100, .USD⟩ [1, 1, 1] = some (.ok parts) ∧
    AllocatesFairly ⟨-100, .USD⟩ [1, 1, 1] parts :=
  (allocates_fairly_iff .debug ⟨-100, .USD⟩ [1, 1, 1] (by decide) (by decide) (by decide)).mpr
    ⟨by decide, fun h => absurd h.1 (by decide)⟩

/-- The least amount over one weight panics in every build. -/
theorem allocation_panics : (∀ build, allocateLargestRemainder build ⟨-9223372036854775808, .USD⟩ [1] = none) ∧
    ¬∀ (build : Build) (total : Money) (weights : List Int), InI64 total.amountMinor →
      (∀ w ∈ weights, u64.Has w) → 0 < weights.sum →
      ∃ parts, allocateLargestRemainder build total weights = some (.ok parts) ∧
        AllocatesFairly total weights parts := by
  have hpanic : ∀ build, allocateLargestRemainder build ⟨-9223372036854775808, .USD⟩ [1] = none := by
    rintro ⟨_ | _, _ | _⟩ <;> decide
  refine ⟨hpanic, fun h => ?_⟩
  obtain ⟨parts, hrun, -⟩ := h .debug ⟨-9223372036854775808, .USD⟩ [1] (by decide) (by decide) (by decide)
  rw [hpanic] at hrun
  cases hrun

end Noxara.Finance
