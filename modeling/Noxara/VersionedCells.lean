import Mathlib

/-! Cells under compare-and-swap. A value is put into a free cell, each swap names the version that it replaces, and
after a removal the cell takes nothing any more. -/
namespace Noxara.Versioned

variable {υ : Type}

/-- Nothing yet, a value with its version, or the value that was removed. -/
inductive Cell (υ : Type)
  | free
  | holds (version : Int) (value : υ)
  | gone (version : Int) (value : υ)

/-- A swap makes a value of the one that is there. Where there is no value to put, or none comes of the one that is
there, the event is refused. -/
inductive Event (υ : Type)
  | put (value : Option υ)
  | swap (expected : Option Int) (change : υ → Option υ)
  | remove

def Event.expected : Event υ → Option Int
  | swap expected _ => expected
  | _ => none

namespace Cell

def version : Cell υ → Int
  | free => 1
  | holds v _ => v
  | gone v _ => v

/-- What an accepted event answers, a version and a value, and what it leaves. -/
def step : Cell υ → Event υ → Option ((Int × υ) × Cell υ)
  | free, .put value => value.map fun x => ((1, x), holds 1 x)
  | holds v x, .swap expected change =>
    if expected = some v then (change x).map fun y => ((v + 1, y), holds (v + 1) y) else none
  | holds v x, .remove => some ((v, x), gone v x)
  | _, _ => none

def run : Cell υ → List (Event υ) → Option (List (Int × υ) × Cell υ)
  | c, [] => some ([], c)
  | c, e :: es => (c.step e).bind fun x => (x.2.run es).map fun y => (x.1 :: y.1, y.2)

variable {c d d' : Cell υ} {e : Event υ} {es : List (Event υ)} {a : Int × υ} {as : List (Int × υ)}

theorem run_cons : c.run (e :: es) = some (as, d) ↔
    ∃ a b bs, c.step e = some (a, b) ∧ b.run es = some (bs, d) ∧ as = a :: bs := by
  simp only [run, Option.bind_eq_some_iff, Option.map_eq_some_iff]
  constructor
  · rintro ⟨⟨a, b⟩, hstep, ⟨bs, d⟩, hrun, hy⟩
    cases hy
    exact ⟨a, b, bs, hstep, hrun, rfl⟩
  · rintro ⟨a, b, bs, hstep, hrun, rfl⟩
    exact ⟨(a, b), hstep, (bs, d), hrun, rfl⟩

theorem run_snoc (h : c.run es = some (as, d)) (he : d.step e = some (a, d')) :
    c.run (es ++ [e]) = some (as ++ [a], d') := by
  induction es generalizing c as with
  | nil =>
    cases h
    exact run_cons.mpr ⟨a, d', [], he, rfl, rfl⟩
  | cons e' es ih =>
    obtain ⟨b, c', bs, hstep, hrun, rfl⟩ := run_cons.mp h
    exact run_cons.mpr ⟨b, c', _, hstep, ih hrun, rfl⟩

/-- An accepted swap names the version, and the version rises by one with it and with nothing else. -/
theorem step_version (h : c.step e = some (a, d)) :
    (e.expected = none ∧ d.version = c.version) ∨ (e.expected = some c.version ∧ d.version = c.version + 1) := by
  cases c with
  | free =>
    cases e with
    | put value =>
      obtain ⟨x, -, hx⟩ := Option.map_eq_some_iff.mp h
      cases hx
      exact .inl ⟨rfl, rfl⟩
    | swap | remove => cases h
  | holds v x =>
    cases e with
    | put => cases h
    | swap expected change =>
      simp only [step] at h
      split_ifs at h with hv
      obtain ⟨y, -, hy⟩ := Option.map_eq_some_iff.mp h
      cases hy
      exact .inr ⟨hv, rfl⟩
    | remove =>
      cases h
      exact .inl ⟨rfl, rfl⟩
  | gone => cases e <;> cases h

/-- The versions that the accepted swaps name follow one another. -/
theorem run_expected (h : c.run es = some (as, d)) :
    es.filterMap Event.expected =
        (List.range (es.filterMap Event.expected).length).map (fun n : Nat => c.version + n) ∧
      d.version = c.version + (es.filterMap Event.expected).length := by
  induction es generalizing c as with
  | nil =>
    cases h
    simp
  | cons e es ih =>
    obtain ⟨a, b, bs, hstep, hrun, -⟩ := run_cons.mp h
    obtain ⟨hrest, hlast⟩ := ih hrun
    rcases step_version hstep with ⟨hnone, hver⟩ | ⟨hsome, hver⟩
    · rw [hver] at hrest hlast
      rw [List.filterMap_cons_none hnone]
      exact ⟨hrest, hlast⟩
    · rw [hver] at hrest hlast
      rw [List.filterMap_cons_some hsome, List.length_cons, List.range_succ_eq_map, List.map_cons, List.map_map]
      constructor
      · rw [hrest, List.length_map, List.length_range, Nat.cast_zero, add_zero]
        congr 2
        funext n
        simp only [Function.comp_apply, Nat.cast_succ]
        ring
      · rw [hlast]
        push_cast
        ring

end Cell

end Noxara.Versioned
