import Mathlib.Data.List.Induction
import Mathlib.Tactic.Common

/-! Machines that answer each input, and a family of them, one for each key, whose inputs come mixed. -/
namespace Noxara.Machines

universe u v w
variable {σ : Type u} {ι : Type v} {ο : Type w}

/-- Where a machine stands after the inputs. -/
def final (step : σ → ι → σ × ο) (s : σ) (is : List ι) : σ := is.foldl (fun s i => (step s i).1) s

/-- What it answers to them. -/
def outputs (step : σ → ι → σ × ο) : σ → List ι → List ο
  | _, [] => []
  | s, i :: is => (step s i).2 :: outputs step (step s i).1 is

section
variable (step : σ → ι → σ × ο) (s : σ)

theorem final_concat (is : List ι) (i : ι) : final step s (is ++ [i]) = (step (final step s is) i).1 := by
  simp only [final, List.foldl_append, List.foldl_cons, List.foldl_nil]

theorem outputs_concat (is : List ι) (i : ι) :
    outputs step s (is ++ [i]) = outputs step s is ++ [(step (final step s is) i).2] := by
  induction is generalizing s with
  | nil => rfl
  | cons j js ih =>
    rw [List.cons_append, outputs, ih]
    rfl

/-- An answer is given to some input, from where the machine stood then. -/
theorem outputs_split {is : List ι} {before after : List ο} {o : ο}
    (h : outputs step s is = before ++ o :: after) :
    ∃ js i ks, is = js ++ i :: ks ∧ before = outputs step s js ∧ o = (step (final step s js) i).2 := by
  induction before generalizing s is with
  | nil =>
    cases is with
    | nil => cases h
    | cons i is => exact ⟨[], i, is, rfl, rfl, (List.cons.inj h).1.symm⟩
  | cons b before ih =>
    cases is with
    | nil => cases h
    | cons i is =>
      obtain ⟨hb, hrest⟩ := List.cons.inj h
      obtain ⟨js, j, ks, rfl, rfl, rfl⟩ := ih _ hrest
      refine ⟨i :: js, j, ks, rfl, ?_, rfl⟩
      rw [outputs, hb]

end

section
variable {κ : Type*} [DecidableEq κ] (step : σ → ι → σ × ο) (key : ι → κ)

/-- An input is for the machine of its key. -/
def family (f : κ → σ) (i : ι) : (κ → σ) × ο :=
  (Function.update f (key i) (step (f (key i)) i).1, (step (f (key i)) i).2)

variable (f : κ → σ)

theorem family_self (i : ι) : (family step key f i).1 (key i) = (step (f (key i)) i).1 :=
  Function.update_self ..

theorem family_other {i : ι} {k : κ} (hk : key i ≠ k) : (family step key f i).1 k = f k :=
  Function.update_of_ne hk.symm ..

variable (is : List ι)

/-- The answers to the inputs of one key are those of its machine on its own. -/
theorem outputs_family {keyOf : ο → κ} (hkey : ∀ s i, keyOf (step s i).2 = key i) (k : κ) :
    (outputs (family step key) f is).filter (keyOf · = k) = outputs step (f k) (is.filter (key · = k)) := by
  induction is generalizing f with
  | nil => rfl
  | cons i is ih =>
    have hout : keyOf (family step key f i).2 = key i := hkey _ i
    rw [outputs]
    by_cases hk : key i = k
    · subst hk
      rw [List.filter_cons_of_pos (by simp [hout]), List.filter_cons_of_pos (by simp), ih, outputs, family_self]
      rfl
    · rw [List.filter_cons_of_neg (by simpa [hout] using hk), List.filter_cons_of_neg (by simpa using hk), ih,
        family_other step key f hk]

theorem outputs_family_of_key {k : κ} (h : ∀ i ∈ is, key i = k) :
    outputs (family step key) f is = outputs step (f k) is := by
  induction is generalizing f with
  | nil => rfl
  | cons i is ih =>
    obtain ⟨hi, hrest⟩ := List.forall_mem_cons.mp h
    subst hi
    rw [outputs, outputs, ih _ hrest, family_self]
    rfl

end

end Noxara.Machines
