import Mathlib.Algebra.BigOperators.Intervals
import Mathlib.Algebra.Order.BigOperators.Group.Finset
import Mathlib.Algebra.Order.BigOperators.Group.List
import Mathlib.Algebra.Order.Ring.Int
import Mathlib.Data.List.GetD
import Mathlib.Data.List.Nodup
import Mathlib.Data.List.Pairwise
import Mathlib.Tactic.Linarith
import Mathlib.Tactic.Ring

/-! Apportionment of a whole number by weight: every weight has the floor of its exact share, and the
units left over go one each to the largest remainders. -/
namespace Noxara.Apportionment

variable {T S : ℤ} {ws : List ℤ}

/-- The floor of an exact share. -/
def quota (T S w : ℤ) : ℤ := T * w / S

/-- What the floor leaves, in parts of the sum of the weights. -/
def excess (T S w : ℤ) : ℤ := T * w % S

theorem quota_zero (T S : ℤ) : quota T S 0 = 0 := by simp [quota]

theorem excess_zero (T S : ℤ) : excess T S 0 = 0 := by simp [excess]

theorem mul_quota_add_excess (T S w : ℤ) : S * quota T S w + excess T S w = T * w := Int.mul_ediv_add_emod _ _

theorem excess_nonneg (hS : 0 < S) (w : ℤ) : 0 ≤ excess T S w := Int.emod_nonneg _ hS.ne'

theorem excess_lt (hS : 0 < S) (w : ℤ) : excess T S w < S := Int.emod_lt_of_pos _ hS

theorem quota_nonneg (hT : 0 ≤ T) (hS : 0 < S) {w : ℤ} (hw : 0 ≤ w) : 0 ≤ quota T S w :=
  Int.ediv_nonneg (mul_nonneg hT hw) hS.le

theorem sum_quota_add_excess (T S : ℤ) (ws : List ℤ) :
    S * (ws.map (quota T S)).sum + (ws.map (excess T S)).sum = T * ws.sum := by
  induction ws with
  | nil => simp
  | cons w ws ih =>
    have hw := mul_quota_add_excess T S w
    simp only [List.map_cons, List.sum_cons]
    linarith

theorem sum_excess_nonneg (hS : 0 < S) (ws : List ℤ) : 0 ≤ (ws.map (excess T S)).sum := by
  refine List.sum_nonneg fun e he => ?_
  obtain ⟨w, -, rfl⟩ := List.mem_map.mp he
  exact excess_nonneg hS w

theorem sum_excess_le (hS : 0 < S) (ws : List ℤ) :
    (ws.map (excess T S)).sum ≤ S * (ws.countP (· ≠ 0) : ℤ) := by
  induction ws with
  | nil => simp
  | cons w ws ih =>
    have hlt := excess_lt (T := T) hS w
    by_cases hw : w = 0
    · subst hw
      simpa [excess_zero] using ih
    · rw [List.countP_cons_of_pos (by simpa using hw)]
      simp only [List.map_cons, List.sum_cons]
      push_cast
      linarith

/-- The units that the floors leave. -/
def leftover (T : ℤ) (ws : List ℤ) : ℤ := T - (ws.map (quota T ws.sum)).sum

theorem sum_mul_leftover (T : ℤ) (ws : List ℤ) : ws.sum * leftover T ws = (ws.map (excess T ws.sum)).sum := by
  have h := sum_quota_add_excess T ws.sum ws
  unfold leftover
  linarith

theorem leftover_nonneg (hS : 0 < ws.sum) : 0 ≤ leftover T ws := by
  have h := sum_excess_nonneg (T := T) hS ws
  rw [← sum_mul_leftover] at h
  exact nonneg_of_mul_nonneg_right h hS

/-- There is a weight for every unit. -/
theorem leftover_le (hS : 0 < ws.sum) : leftover T ws ≤ ws.countP (· ≠ 0) := by
  have h := sum_excess_le (T := T) hS ws
  rw [← sum_mul_leftover] at h
  exact le_of_mul_le_mul_left h hS

theorem sum_getD (l : List ℤ) : l.sum = ∑ k ∈ Finset.range l.length, l.getD k 0 := by
  induction l with
  | nil => rfl
  | cons x l ih =>
    rw [List.sum_cons, List.length_cons, Finset.sum_range_succ', ih, add_comm]
    simp

theorem getD_eq {l : List ℤ} {i : ℕ} {a : ℤ} (h : l[i]? = some a) : l.getD i 0 = a := by
  rw [List.getD_eq_getElem?_getD, h]
  rfl

theorem sum_places_le {l : List ℤ} (h : ∀ x ∈ l, 0 ≤ x) {s : Finset ℕ} (hs : s ⊆ Finset.range l.length) :
    ∑ k ∈ s, l.getD k 0 ≤ l.sum := by
  rw [sum_getD]
  refine Finset.sum_le_sum_of_subset_of_nonneg hs fun k hk _ => ?_
  rw [List.getD_eq_getElem _ _ (Finset.mem_range.mp hk)]
  exact h _ (List.getElem_mem _)

section
variable {l : List ℤ} (h : ∀ x ∈ l, 0 ≤ x) {i j k : ℕ} {a b c : ℤ} (hi : l[i]? = some a)
    (hj : l[j]? = some b)
include h hi hj

theorem pair_le_sum (hij : i ≠ j) : a + b ≤ l.sum := by
  have hs : ({i, j} : Finset ℕ) ⊆ Finset.range l.length := by
    simp [Finset.insert_subset_iff, (List.getElem?_eq_some_iff.mp hi).1, (List.getElem?_eq_some_iff.mp hj).1]
  have hle := sum_places_le h hs
  rwa [Finset.sum_pair hij, getD_eq hi, getD_eq hj] at hle

theorem triple_le_sum (hk : l[k]? = some c) (hij : i ≠ j) (hik : i ≠ k) (hjk : j ≠ k) : a + b + c ≤ l.sum := by
  have hs : ({i, j, k} : Finset ℕ) ⊆ Finset.range l.length := by
    simp [Finset.insert_subset_iff, (List.getElem?_eq_some_iff.mp hi).1, (List.getElem?_eq_some_iff.mp hj).1,
      (List.getElem?_eq_some_iff.mp hk).1]
  have hle := sum_places_le h hs
  rwa [Finset.sum_insert (by simp [hij, hik]), Finset.sum_pair hjk, getD_eq hi, getD_eq hj, getD_eq hk,
    ← add_assoc] at hle

end

/-- Where all other terms are zero, a term is the sum. -/
theorem sum_eq_of_others {l : List ℤ} {i : ℕ} {a : ℤ} (hi : l[i]? = some a)
    (h : ∀ j b, j ≠ i → l[j]? = some b → b = 0) : l.sum = a := by
  have hlt := (List.getElem?_eq_some_iff.mp hi).1
  rw [sum_getD, Finset.sum_eq_single_of_mem i (Finset.mem_range.mpr hlt)]
  · exact getD_eq hi
  · intro j hj hne
    rw [List.getD_eq_getElem _ _ (Finset.mem_range.mp hj)]
    exact h j _ hne (List.getElem?_eq_getElem _)

def raiseAll (ps : List ℤ) (is : List ℕ) : List ℤ := is.foldl (fun ps i => ps.modify i (· + 1)) ps

@[simp] theorem length_raiseAll (ps : List ℤ) (is : List ℕ) : (raiseAll ps is).length = ps.length := by
  unfold raiseAll
  induction is generalizing ps with
  | nil => rfl
  | cons i is ih => simp [ih]

theorem getElem?_raiseAll (ps : List ℤ) (is : List ℕ) (j : ℕ) :
    (raiseAll ps is)[j]? = ps[j]?.map (· + (is.count j : ℤ)) := by
  unfold raiseAll
  induction is generalizing ps with
  | nil => simp
  | cons i is ih =>
    rw [List.foldl_cons, ih, List.getElem?_modify, List.count_cons]
    cases ps[j]? with
    | none => rfl
    | some p =>
      by_cases h : i = j
      · subst h
        simp only [beq_self_eq_true, if_true, Option.map_some, Option.map_eq_map, Option.some.injEq]
        push_cast
        ring
      · have hne : (i == j) = false := beq_false_of_ne h
        simp only [if_neg h, hne, Option.map_some, Option.map_eq_map, Option.some.injEq]
        rfl

theorem sum_modify_add_one {ps : List ℤ} {i : ℕ} (h : i < ps.length) : (ps.modify i (· + 1)).sum = ps.sum + 1 := by
  induction ps generalizing i with
  | nil => cases h
  | cons p ps ih =>
    cases i with
    | zero =>
      simp only [List.modify_zero_cons, List.sum_cons]
      ring
    | succ i =>
      rw [List.modify_succ_cons, List.sum_cons, List.sum_cons, ih (Nat.lt_of_succ_lt_succ h)]
      ring

theorem sum_raiseAll {ps : List ℤ} {is : List ℕ} (h : ∀ i ∈ is, i < ps.length) :
    (raiseAll ps is).sum = ps.sum + is.length := by
  unfold raiseAll
  induction is generalizing ps with
  | nil => simp
  | cons i is ih =>
    rw [List.foldl_cons, ih fun j hj => by simpa using h j (List.mem_cons_of_mem i hj),
      sum_modify_add_one (h i List.mem_cons_self), List.length_cons]
    push_cast
    ring

/-- A weight and its place come before another: a larger remainder, or an earlier place. -/
def Before (T S : ℤ) (a b : ℤ × ℕ) : Prop :=
  excess T S b.1 < excess T S a.1 ∨ excess T S b.1 = excess T S a.1 ∧ a.2 ≤ b.2

/-- The places of the first weights of a ranking, as many as there are units left over. -/
def taken (T : ℤ) (ws : List ℤ) (ranked : List (ℤ × ℕ)) : List ℕ :=
  ((ranked.filter (·.1 ≠ 0)).take (leftover T ws).toNat).map Prod.snd

def parts (T : ℤ) (ws : List ℤ) (ranked : List (ℤ × ℕ)) : List ℤ :=
  raiseAll (ws.map (quota T ws.sum)) (taken T ws ranked)

/-- Parts of a total by weight: each the floor of its share or one more, exactly the total together, and
the units above the floors where the remainders are largest. -/
structure Apportions (T : ℤ) (ws ps : List ℤ) : Prop where
  length : ps.length = ws.length
  sum : ps.sum = T
  near : ∀ {i : ℕ} {w p : ℤ}, ws[i]? = some w → ps[i]? = some p → p = quota T ws.sum w ∨
    p = quota T ws.sum w + 1
  zero : ∀ {i : ℕ} {p : ℤ}, ws[i]? = some 0 → ps[i]? = some p → p = 0
  fair : ∀ {i j : ℕ} {v w p q : ℤ}, ws[i]? = some v → ws[j]? = some w → ps[i]? = some p →
    ps[j]? = some q →
    v ≠ 0 → (excess T ws.sum w < excess T ws.sum v ∨ excess T ws.sum w = excess T ws.sum v ∧ i < j) →
    q = quota T ws.sum w + 1 → p = quota T ws.sum v + 1

section
variable {ranked : List (ℤ × ℕ)} (hperm : ranked.Perm ws.zipIdx) (hsorted : ranked.Pairwise (Before T ws.sum))
include hperm

theorem length_taken (hS : 0 < ws.sum) : ((taken T ws ranked).length : ℤ) = leftover T ws := by
  have hcount : (ranked.filter (·.1 ≠ 0)).length = ws.countP (· ≠ 0) := by
    rw [(hperm.filter _).length_eq, ← List.countP_eq_length_filter]
    conv_rhs => rw [← List.zipIdx_map_fst 0 ws, List.countP_map]
    rfl
  have hnonneg := leftover_nonneg (T := T) hS
  have hle := leftover_le (T := T) hS
  unfold taken
  rw [List.length_map, List.length_take, hcount]
  omega

theorem mem_ranked {w : ℤ} {i : ℕ} : (w, i) ∈ ranked ↔ ws[i]? = some w := by
  rw [hperm.mem_iff, List.mem_zipIdx_iff_getElem?]

theorem nodup_ranked : (ranked.map Prod.snd).Nodup := by
  rw [(hperm.map Prod.snd).nodup_iff, List.zipIdx_map_snd]
  exact List.nodup_range'

theorem nodup_taken : (taken T ws ranked).Nodup := by
  refine (nodup_ranked hperm).sublist (List.Sublist.map Prod.snd ?_)
  exact (List.take_sublist _ _).trans List.filter_sublist

theorem mem_taken {i : ℕ} : i ∈ taken T ws ranked ↔
    ∃ w, ws[i]? = some w ∧ (w, i) ∈ (ranked.filter (·.1 ≠ 0)).take (leftover T ws).toNat := by
  unfold taken
  rw [List.mem_map]
  constructor
  · rintro ⟨⟨w, _⟩, hw, rfl⟩
    exact ⟨w, (mem_ranked hperm).mp (List.mem_filter.mp (List.mem_of_mem_take hw)).1, hw⟩
  · rintro ⟨w, -, hw⟩
    exact ⟨(w, i), hw, rfl⟩

theorem taken_ne_zero {i : ℕ} (h : i ∈ taken T ws ranked) : ws[i]? ≠ some 0 := by
  obtain ⟨w, hi, hw⟩ := (mem_taken hperm).mp h
  have hne : w ≠ 0 := by simpa using (List.mem_filter.mp (List.mem_of_mem_take hw)).2
  rw [hi]
  exact fun heq => hne (Option.some.inj heq)

theorem parts_get {i : ℕ} {w p : ℤ} (hw : ws[i]? = some w) (hp : (parts T ws ranked)[i]? = some p) :
    p = quota T ws.sum w + if i ∈ taken T ws ranked then 1 else 0 := by
  unfold parts at hp
  rw [getElem?_raiseAll, List.getElem?_map, hw] at hp
  obtain rfl := Option.some.inj hp
  split_ifs with hi
  · rw [List.count_eq_one_of_mem (nodup_taken hperm) hi]
    rfl
  · rw [List.count_eq_zero_of_not_mem hi]
    rfl

theorem sum_parts (hS : 0 < ws.sum) : (parts T ws ranked).sum = T := by
  unfold parts
  rw [sum_raiseAll, length_taken hperm hS]
  · unfold leftover
    ring
  · intro i hi
    obtain ⟨w, hw, -⟩ := (mem_taken hperm).mp hi
    rw [List.length_map]
    exact (List.getElem?_eq_some_iff.mp hw).1

include hsorted in
/-- What is ranked before a place that has a unit has one too. -/
theorem taken_of_before {i j : ℕ} {v w : ℤ} (hi : ws[i]? = some v) (hj : ws[j]? = some w) (hv : v ≠ 0)
    (hbefore : excess T ws.sum w < excess T ws.sum v ∨ excess T ws.sum w = excess T ws.sum v ∧ i < j)
    (h : j ∈ taken T ws ranked) : i ∈ taken T ws ranked := by
  obtain ⟨w', hj', hw⟩ := (mem_taken hperm).mp h
  obtain rfl : w = w' := by
    rw [hj] at hj'
    exact Option.some.inj hj'
  have hmem : (v, i) ∈ ranked.filter (·.1 ≠ 0) :=
    List.mem_filter.mpr ⟨(mem_ranked hperm).mpr hi, by simpa using hv⟩
  rw [← List.take_append_drop (leftover T ws).toNat (ranked.filter (·.1 ≠ 0))] at hmem
  refine (mem_taken hperm).mpr ⟨v, hi, (List.mem_append.mp hmem).resolve_right fun hdrop => ?_⟩
  have hpair := hsorted.filter (·.1 ≠ 0)
  rw [← List.take_append_drop (leftover T ws).toNat (ranked.filter (·.1 ≠ 0)), List.pairwise_append] at hpair
  have hlate := hpair.2.2 _ hw _ hdrop
  unfold Before at hlate
  dsimp only at hlate
  omega

include hsorted in
theorem apportions (hS : 0 < ws.sum) : Apportions T ws (parts T ws ranked) where
  length := by
    unfold parts
    rw [length_raiseAll, List.length_map]
  sum := sum_parts hperm hS
  near hw hp := by
    rw [parts_get hperm hw hp]
    split_ifs
    · exact Or.inr rfl
    · exact Or.inl (add_zero _)
  zero hw hp := by
    rw [parts_get hperm hw hp, quota_zero, if_neg fun hi => taken_ne_zero hperm hi hw]
    rfl
  fair := by
    intro i j v w p q hi hj hp hq hv hbefore hraised
    have hj' : j ∈ taken T ws ranked := by
      by_contra hnot
      rw [parts_get hperm hj hq, if_neg hnot] at hraised
      omega
    rw [parts_get hperm hi hp, if_pos (taken_of_before hperm hsorted hi hj hv hbefore hj')]

end

variable {ps : List ℤ} (h : Apportions T ws ps)
include h

theorem Apportions.weight {i : ℕ} {p : ℤ} (hp : ps[i]? = some p) : ∃ w, ws[i]? = some w ∧ w ∈ ws := by
  have hi : i < ws.length := h.length ▸ (List.getElem?_eq_some_iff.mp hp).1
  exact ⟨ws[i], List.getElem?_eq_getElem hi, List.getElem_mem hi⟩

theorem Apportions.part {i : ℕ} {w : ℤ} (hw : ws[i]? = some w) : ∃ p, ps[i]? = some p ∧ p ∈ ps := by
  have hi : i < ps.length := h.length ▸ (List.getElem?_eq_some_iff.mp hw).1
  exact ⟨ps[i], List.getElem?_eq_getElem hi, List.getElem_mem hi⟩

theorem Apportions.nonneg (hT : 0 ≤ T) (hS : 0 < ws.sum) (hws : ∀ w ∈ ws, 0 ≤ w) {p : ℤ} (hp : p ∈ ps) :
    0 ≤ p := by
  obtain ⟨i, hi⟩ := List.mem_iff_getElem?.mp hp
  obtain ⟨w, hw, hmem⟩ := h.weight hi
  have hquota := quota_nonneg hT hS (hws w hmem)
  rcases h.near hw hi with heq | heq <;> omega

theorem Apportions.le_total (hT : 0 ≤ T) (hS : 0 < ws.sum) (hws : ∀ w ∈ ws, 0 ≤ w) {p : ℤ} (hp : p ∈ ps) :
    p ≤ T := by
  have hle := List.single_le_sum (fun q hq => h.nonneg hT hS hws hq) p hp
  rwa [h.sum] at hle

end Noxara.Apportionment
