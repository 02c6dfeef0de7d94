import Mathlib.Tactic.Common

/-! Walks through a graph whose nodes are found by their keys, and when two ways of going on lead
along the same walk. -/
namespace Noxara

section
variable {K N : Type} (node : K → Option N)

/-- At most `k` nodes from the key `x` on, each leading to the next. -/
def walk (next : N → Option K) : Nat → Option K → List N
  | 0, _ => []
  | k + 1, x =>
    match x.bind node with
    | none => []
    | some n => n :: walk next k (next n)

/-- Within `k` nodes, the two lead from each node but the last to the same node. -/
def Agree (next next' : N → Option K) : Nat → Option K → Prop
  | 0, _ => True
  | k + 1, x =>
    match x.bind node with
    | none => True
    | some n => (k = 0 ∨ (next n).bind node = (next' n).bind node) ∧ Agree next next' k (next n)

variable {node} {next next' : N → Option K}

theorem walk_of_none {x : Option K} (h : x.bind node = none) (k : Nat) : walk node next k x = [] := by
  cases k with
  | zero => rfl
  | succ k => simp only [walk, h]

theorem walk_of_some {x : Option K} {n : N} (h : x.bind node = some n) (k : Nat) :
    walk node next (k + 1) x = n :: walk node next k (next n) := by
  simp only [walk, h]

/-- Only the node that is found matters. -/
theorem walk_congr {x y : Option K} (h : x.bind node = y.bind node) (k : Nat) :
    walk node next k x = walk node next k y := by
  cases k with
  | zero => rfl
  | succ k => simp only [walk, h]

variable (node next) in
theorem head?_walk (k : Nat) (x : Option K) : (walk node next (k + 1) x).head? = x.bind node := by
  cases h : x.bind node with
  | none => rw [walk_of_none h, List.head?_nil]
  | some n => rw [walk_of_some h, List.head?_cons]

variable (node next) in
theorem length_walk_le (k : Nat) (x : Option K) : (walk node next k x).length ≤ k := by
  induction k generalizing x with
  | zero => exact Nat.le_refl 0
  | succ k ih =>
    cases h : x.bind node with
    | none => simp [walk_of_none h]
    | some n =>
      rw [walk_of_some h, List.length_cons]
      exact Nat.succ_le_succ (ih (next n))

/-- Two walks from one key are the same exactly where they agree from node to node. -/
theorem walk_eq_iff (k : Nat) (x : Option K) :
    walk node next k x = walk node next' k x ↔ Agree node next next' k x := by
  induction k generalizing x with
  | zero => exact iff_of_true rfl trivial
  | succ k ih =>
    cases h : x.bind node with
    | none => simp only [walk, Agree, h]
    | some n =>
      simp only [walk, Agree, h, List.cons.injEq, true_and]
      constructor
      · intro heq
        cases k with
        | zero => exact ⟨.inl rfl, trivial⟩
        | succ k =>
          have hfound : (next n).bind node = (next' n).bind node := by
            rw [← head?_walk node next k, ← head?_walk node next' k, heq]
          rw [walk_congr hfound.symm] at heq
          exact ⟨.inr hfound, (ih _).mp heq⟩
      · intro ⟨hfound, hrest⟩
        rcases hfound with rfl | hfound
        · rfl
        · rw [walk_congr hfound.symm]
          exact (ih _).mpr hrest

instance [DecidableEq N] (k : Nat) (x : Option K) : Decidable (Agree node next next' k x) :=
  decidable_of_iff _ (walk_eq_iff k x)

theorem filterMap_map_walk {key : N → K} (hkey : ∀ x n, node x = some n → key n = x) (k : Nat)
    (x : Option K) : ((walk node next k x).map key).filterMap node = walk node next k x := by
  induction k generalizing x with
  | zero => rfl
  | succ k ih =>
    cases h : x.bind node with
    | none => simp [walk_of_none h]
    | some n =>
      obtain ⟨y, rfl, hy⟩ := Option.bind_eq_some_iff.mp h
      have hn : node (key n) = some n := by rw [hkey y n hy, hy]
      rw [walk_of_some h, List.map_cons, List.filterMap_cons_some hn, ih]

theorem walk_eq_of_map_eq {key : N → K} (hkey : ∀ x n, node x = some n → key n = x) {k : Nat}
    {x : Option K} (h : (walk node next k x).map key = (walk node next' k x).map key) :
    walk node next k x = walk node next' k x := by
  rw [← filterMap_map_walk hkey k x, h, filterMap_map_walk hkey]

end

end Noxara
