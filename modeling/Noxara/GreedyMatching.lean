import Mathlib.Data.List.Nodup

/-! Greedy matchings: each item in turn picks one of the candidates that the items before it have left. -/
namespace Noxara.Greedy

variable {α β : Type} [DecidableEq β]

def without (x : Option β) (free : List β) : List β :=
  match x with
  | none => free
  | some b => free.filter fun c => c ≠ b

/-- The pairs of item and pick, in the order of the items. -/
def pairs (pick : α → List β → Option β) : List α → List β → List (α × β)
  | [], _ => []
  | a :: as, free =>
    match pick a free with
    | none => pairs pick as free
    | some b => (a, b) :: pairs pick as (free.filter fun c => c ≠ b)

section
variable {pick : α → List β → Option β}

theorem pairs_cons_none {a : α} {free : List β} (h : pick a free = none) (as : List α) :
    pairs pick (a :: as) free = pairs pick as free := by
  simp [pairs, h]

theorem pairs_cons_some {a : α} {b : β} {free : List β} (h : pick a free = some b) (as : List α) :
    pairs pick (a :: as) free = (a, b) :: pairs pick as (free.filter fun c => c ≠ b) := by
  simp [pairs, h]

/-- Every item is in at most one pair. -/
theorem pairs_fst_sublist (pick : α → List β → Option β) (as : List α) (free : List β) :
    ((pairs pick as free).map Prod.fst).Sublist as := by
  induction as generalizing free with
  | nil => simp [pairs]
  | cons a as ih =>
    cases h : pick a free with
    | none =>
      rw [pairs_cons_none h]
      exact (ih free).cons a
    | some b =>
      rw [pairs_cons_some h]
      exact (ih _).cons_cons a

section
variable (hmem : ∀ a free b, pick a free = some b → b ∈ free)
include hmem

theorem mem_of_pairs {as : List α} {free : List β} {p : α × β} (hp : p ∈ pairs pick as free) :
    p.1 ∈ as ∧ p.2 ∈ free := by
  induction as generalizing free with
  | nil => simp [pairs] at hp
  | cons a as ih =>
    cases h : pick a free with
    | none =>
      rw [pairs_cons_none h] at hp
      exact ⟨List.mem_cons_of_mem _ (ih hp).1, (ih hp).2⟩
    | some b =>
      rw [pairs_cons_some h] at hp
      rcases List.mem_cons.mp hp with rfl | hp
      · exact ⟨List.mem_cons_self .., hmem a free b h⟩
      · have hrest := ih hp
        exact ⟨List.mem_cons_of_mem _ hrest.1, (List.mem_filter.mp hrest.2).1⟩

/-- Every candidate is in at most one pair. -/
theorem pairs_snd_nodup (as : List α) (free : List β) : ((pairs pick as free).map Prod.snd).Nodup := by
  induction as generalizing free with
  | nil => simp [pairs]
  | cons a as ih =>
    cases h : pick a free with
    | none =>
      rw [pairs_cons_none h]
      exact ih free
    | some b =>
      rw [pairs_cons_some h, List.map_cons, List.nodup_cons]
      refine ⟨?_, ih _⟩
      intro hb
      obtain ⟨p, hp, hpb⟩ := List.mem_map.mp hb
      have hfree := (mem_of_pairs hmem hp).2
      simp [hpb] at hfree

end

theorem pairs_fit {R : α → β → Prop} (hR : ∀ a free b, pick a free = some b → R a b) {as : List α}
    {free : List β} {p : α × β} (hp : p ∈ pairs pick as free) : R p.1 p.2 := by
  induction as generalizing free with
  | nil => simp [pairs] at hp
  | cons a as ih =>
    cases h : pick a free with
    | none =>
      rw [pairs_cons_none h] at hp
      exact ih hp
    | some b =>
      rw [pairs_cons_some h] at hp
      rcases List.mem_cons.mp hp with rfl | hp
      · exact hR a free b h
      · exact ih hp

/-- An item that picks nothing had no candidate left that fits, and none is given back. -/
theorem pairs_maximal (pick : α → List β → Option β) {R : α → β → Prop}
    (hnone : ∀ a free, pick a free = none → ∀ b ∈ free, ¬R a b)
    {as : List α} {free : List β} {a : α} (ha : a ∈ as) (hleft : a ∉ (pairs pick as free).map Prod.fst) {b : β}
    (hb : b ∈ free) (hunused : b ∉ (pairs pick as free).map Prod.snd) : ¬R a b := by
  induction as generalizing free with
  | nil => cases ha
  | cons x as ih =>
    cases h : pick x free with
    | none =>
      rw [pairs_cons_none h] at hleft hunused
      rcases List.mem_cons.mp ha with rfl | ha
      · exact hnone a free h b hb
      · exact ih ha hleft hb hunused
    | some c =>
      rw [pairs_cons_some h] at hleft hunused
      simp only [List.map_cons, List.mem_cons, not_or] at hleft hunused
      rcases List.mem_cons.mp ha with rfl | ha
      · exact absurd rfl hleft.1
      · exact ih ha hleft.2 (List.mem_filter.mpr ⟨hb, by simpa using hunused.1⟩) hunused.2

/-- Each item in turn picks the same whether or not the candidates are there that are not `q` for it, among those
that the picks of `q` candidates have left. -/
def Undisturbed (pick : α → List β → Option β) (q : α → β → Bool) : List α → List β → Prop
  | [], _ => True
  | a :: as, free =>
    pick a free = pick a (free.filter (q a)) ∧ Undisturbed pick q as (without (pick a (free.filter (q a))) free)

/-- All pairs are `q` if and only if the candidates that are not `q` disturb no pick. -/
theorem pairs_all_iff_undisturbed (pick : α → List β → Option β) (q : α → β → Bool)
    (hmem : ∀ a free b, pick a free = some b → b ∈ free)
    (hnone : ∀ a free, pick a free = none → pick a (free.filter (q a)) = none)
    (hsome : ∀ a free b, pick a free = some b → q a b = true → pick a (free.filter (q a)) = some b)
    (as : List α) (free : List β) :
    (∀ p ∈ pairs pick as free, q p.1 p.2 = true) ↔ Undisturbed pick q as free := by
  induction as generalizing free with
  | nil => simp [pairs, Undisturbed]
  | cons a as ih =>
    cases h : pick a free with
    | none =>
      rw [pairs_cons_none h, Undisturbed, h, hnone a free h, ih]
      simp [without]
    | some b =>
      rw [pairs_cons_some h, List.forall_mem_cons, ih, Undisturbed, h]
      by_cases hq : q a b = true
      · simp [hsome a free b h hq, hq, without]
      · have hdiff : some b ≠ pick a (free.filter (q a)) := by
          intro heq
          have := hmem a _ b heq.symm
          exact hq (List.mem_filter.mp this).2
        simp [hq, hdiff]

end

end Noxara.Greedy
