import Mathlib.Data.List.Basic

/-! Neighbours in a list, and ordered lists cut at a bound. -/
namespace Noxara.Neighbours

variable {α : Type*}

/-- Each element with the one after it. -/
def pairs (l : List α) : List (α × α) := l.zip l.tail

@[simp] theorem pairs_nil : pairs ([] : List α) = [] := rfl

@[simp] theorem pairs_singleton (a : α) : pairs [a] = [] := rfl

@[simp] theorem pairs_cons_cons (a b : α) (l : List α) : pairs (a :: b :: l) = (a, b) :: pairs (b :: l) := rfl

/-- The last of the one list and the first of the other. -/
def bridge (a b : List α) : List (α × α) :=
  match a.getLast?, b with
  | some x, y :: _ => [(x, y)]
  | _, _ => []

theorem pairs_append (a b : List α) : pairs (a ++ b) = pairs a ++ bridge a b ++ pairs b := by
  induction a with
  | nil => rfl
  | cons x a ih =>
    cases a with
    | nil =>
      cases b with
      | nil => rfl
      | cons y b => rfl
    | cons y a =>
      have hbridge : bridge (x :: y :: a) b = bridge (y :: a) b := by
        unfold bridge
        rw [List.getLast?_cons_cons]
      rw [List.cons_append, List.cons_append, pairs_cons_cons, pairs_cons_cons, ← List.cons_append, ih, hbridge]
      rfl

theorem mem_bridge {a b : List α} {x y : α} (h : (x, y) ∈ bridge a b) : x ∈ a ∧ y ∈ b := by
  unfold bridge at h
  split at h
  · next hlast =>
    obtain ⟨rfl, rfl⟩ := Prod.mk.inj (List.mem_singleton.mp h)
    exact ⟨List.mem_of_getLast? hlast, List.mem_cons_self⟩
  · cases h

theorem fst_le_snd {f : α → Int} {l : List α} (h : l.Pairwise (f · ≤ f ·)) {x y : α}
    (hp : (x, y) ∈ pairs l) :
    f x ≤ f y := by
  induction l with
  | nil => cases hp
  | cons a l ih =>
    cases l with
    | nil => cases hp
    | cons b l =>
      obtain ⟨ha, hl⟩ := List.pairwise_cons.mp h
      rcases List.mem_cons.mp hp with heq | hp
      · obtain ⟨rfl, rfl⟩ := Prod.mk.inj heq
        exact ha _ List.mem_cons_self
      · exact ih hl hp

/-- An ordered list begins with what is not past the bound. -/
theorem filter_append_filter {f : α → Int} (cut : Int) {l : List α} (h : l.Pairwise (f · ≤ f ·)) :
    l.filter (f · ≤ cut) ++ l.filter (cut < f ·) = l := by
  induction l with
  | nil => rfl
  | cons a l ih =>
    obtain ⟨ha, hl⟩ := List.pairwise_cons.mp h
    by_cases hcut : f a ≤ cut
    · rw [List.filter_cons_of_pos (by simpa using hcut), List.filter_cons_of_neg (by simpa using hcut),
        List.cons_append, ih hl]
    · have hlater : ∀ b ∈ a :: l, cut < f b := by
        intro b hb
        rcases List.mem_cons.mp hb with rfl | hb
        · exact Int.not_le.mp hcut
        · exact Int.lt_of_lt_of_le (Int.not_le.mp hcut) (ha b hb)
      rw [List.filter_eq_nil_iff.mpr fun b hb => by simpa using hlater b hb,
        List.filter_eq_self.mpr fun b hb => by simpa using hlater b hb, List.nil_append]

end Noxara.Neighbours
