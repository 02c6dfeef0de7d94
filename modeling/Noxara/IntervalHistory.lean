import Mathlib.Order.Defs.LinearOrder
import Mathlib.Order.Lattice

/-! A history of what held when: spans of time that are opened and closed as a state changes, against
the states themselves. A state holds from the change that made it until the one that ends it, both
included. -/
namespace Noxara.History

variable {T κ : Type} [LinearOrder T]

/-- Something held from one instant on, and perhaps until another. -/
structure Span (T κ : Type) where
  key : κ
  start : T
  stop : Option T

def Span.Contains (s : Span T κ) (τ : T) : Prop := s.start ≤ τ ∧ ∀ b, s.stop = some b → τ ≤ b

/-- The span and the period `[a, b]` have an instant in common. -/
def Span.Overlaps (s : Span T κ) (a b : T) : Prop := s.start ≤ b ∧ ∀ c, s.stop = some c → a ≤ c

def Span.close (s : Span T κ) (now : T) : Span T κ := { s with stop := s.stop.or (some now) }

def lastChange (since : T) (steps : List ((κ → Prop) × T)) : T := ((steps.map Prod.snd).getLast?).getD since

/-- What held in the states that have ended: each until its own change. -/
def Past : T → List ((κ → Prop) × T) → κ → T → Prop
  | _, [], _, _ => False
  | since, (before, now) :: rest, k, τ => (since ≤ τ ∧ τ ≤ now ∧ before k) ∨ Past now rest k τ

def HeldAt (since : T) (steps : List ((κ → Prop) × T)) (current : κ → Prop) (k : κ) (τ : T) : Prop :=
  Past since steps k τ ∨ lastChange since steps ≤ τ ∧ current k

/-- The clock does not go back. -/
def InOrder : T → List ((κ → Prop) × T) → Prop
  | _, [] => True
  | since, (_, now) :: rest => since ≤ now ∧ InOrder now rest

section
variable {since now τ : T} {steps : List ((κ → Prop) × T)} {before current : κ → Prop} {k : κ}

omit [LinearOrder T] in
@[simp] theorem lastChange_append : lastChange since (steps ++ [(before, now)]) = now := by
  simp [lastChange]

omit [LinearOrder T] in
theorem lastChange_cons (x : (κ → Prop) × T) : lastChange since (x :: steps) = lastChange x.2 steps := by
  cases steps <;> simp [lastChange, List.getLast?_cons]

theorem past_append : Past since (steps ++ [(before, now)]) k τ ↔
    Past since steps k τ ∨ (lastChange since steps ≤ τ ∧ τ ≤ now ∧ before k) := by
  induction steps generalizing since with
  | nil => simp [Past, lastChange]
  | cons x xs ih => simp only [List.cons_append, Past, ih, lastChange_cons, or_assoc]

theorem inOrder_append : InOrder since (steps ++ [(before, now)]) ↔
    InOrder since steps ∧ lastChange since steps ≤ now := by
  induction steps generalizing since with
  | nil => simp [InOrder, lastChange]
  | cons x xs ih => simp only [List.cons_append, InOrder, ih, lastChange_cons, and_assoc]

theorem InOrder.le_lastChange (h : InOrder since steps) : since ≤ lastChange since steps := by
  induction steps generalizing since with
  | nil => exact le_refl since
  | cons x xs ih =>
    rw [lastChange_cons]
    exact le_trans h.1 (ih h.2)

theorem InOrder.past_le (h : InOrder since steps) (hp : Past since steps k τ) : τ ≤ lastChange since steps := by
  induction steps generalizing since with
  | nil => exact hp.elim
  | cons x xs ih =>
    rw [lastChange_cons]
    rcases hp with ⟨-, hle, -⟩ | hp
    · exact le_trans hle h.2.le_lastChange
    · exact ih h.2 hp

end

def Covered (rows : List (Span T κ)) (k : κ) (τ : T) : Prop := ∃ s ∈ rows, s.key = k ∧ s.Contains τ

/-- The rows say what has held up to the last change, and what is open holds now. -/
structure Tracks (rows : List (Span T κ)) (since : T) (steps : List ((κ → Prop) × T))
    (current : κ → Prop) : Prop where
  inOrder : InOrder since steps
  bounded : ∀ s ∈ rows, s.start ≤ lastChange since steps ∧
    ∀ b, s.stop = some b → s.start ≤ b ∧ b ≤ lastChange since steps
  isOpen : ∀ k, current k ↔ ∃ s ∈ rows, s.key = k ∧ s.stop = none
  covered : ∀ k τ, τ ≤ lastChange since steps → (Covered rows k τ ↔ HeldAt since steps current k τ)

/-- Nothing is written for the key, and nothing changed. -/
def Continues (rows rows' : List (Span T κ)) (before current : κ → Prop) (k : κ) : Prop :=
  (current k ↔ before k) ∧ ∀ s, s.key = k → (s ∈ rows' ↔ s ∈ rows)

/-- What is open for the key is closed, and opened again where it holds. -/
def Recorded (rows rows' : List (Span T κ)) (current : κ → Prop) (now : T) (k : κ) : Prop :=
  ∀ s, s.key = k → (s ∈ rows' ↔ (∃ r ∈ rows, r.key = k ∧ s = r.close now) ∨
    (current k ∧ s = ⟨k, now, none⟩))

theorem tracks_nil (since : T) {current : κ → Prop} (hnone : ∀ k, ¬current k) :
    Tracks ([] : List (Span T κ)) since [] current := by
  refine ⟨trivial, fun s hs => by simp at hs, fun k => ?_, fun k τ _ => ?_⟩
  · simp [hnone k]
  · simp [Covered, HeldAt, Past, hnone k]

section
variable {rows rows' : List (Span T κ)} {since now : T} {steps : List ((κ → Prop) × T)}
  {before current : κ → Prop}

theorem Tracks.step (h : Tracks rows since steps before) (hnow : lastChange since steps ≤ now)
    (hstep : ∀ k, Continues rows rows' before current k ∨ Recorded rows rows' current now k) :
    Tracks rows' since (steps ++ [(before, now)]) current := by
  have hlater : ∀ s ∈ rows, s.start ≤ now := fun s hs => le_trans (h.bounded s hs).1 hnow
  refine ⟨inOrder_append.mpr ⟨h.inOrder, hnow⟩, fun s hs => ?_, fun k => ?_, fun k τ hτ => ?_⟩
  · rw [lastChange_append]
    rcases hstep s.key with ⟨-, hsame⟩ | hrec
    · have hb := h.bounded s ((hsame s rfl).mp hs)
      exact ⟨le_trans hb.1 hnow, fun b hb' => ⟨(hb.2 b hb').1, le_trans (hb.2 b hb').2 hnow⟩⟩
    · rcases (hrec s rfl).mp hs with ⟨r, hr, -, hclose⟩ | ⟨-, hnew⟩
      · rw [hclose]
        refine ⟨hlater r hr, fun b hb => ?_⟩
        cases hstop : r.stop with
        | none =>
          simp only [Span.close, hstop, Option.none_or, Option.some.injEq] at hb
          subst hb
          exact ⟨hlater r hr, le_refl now⟩
        | some c =>
          simp only [Span.close, hstop, Option.some_or, Option.some.injEq] at hb
          subst hb
          have hc := (h.bounded r hr).2 c hstop
          exact ⟨hc.1, le_trans hc.2 hnow⟩
      · rw [hnew]
        exact ⟨le_refl now, fun b hb => by cases hb⟩
  · rcases hstep k with ⟨hiff, hsame⟩ | hrec
    · rw [hiff, h.isOpen]
      constructor
      · rintro ⟨s, hs, hk, hopen⟩
        exact ⟨s, (hsame s hk).mpr hs, hk, hopen⟩
      · rintro ⟨s, hs, hk, hopen⟩
        exact ⟨s, (hsame s hk).mp hs, hk, hopen⟩
    · constructor
      · intro hk
        exact ⟨⟨k, now, none⟩, (hrec _ rfl).mpr (.inr ⟨hk, rfl⟩), rfl, rfl⟩
      · rintro ⟨s, hs, hk, hopen⟩
        rcases (hrec s hk).mp hs with ⟨r, -, -, rfl⟩ | ⟨hcur, -⟩
        · simp [Span.close] at hopen
        · exact hcur
  · rw [lastChange_append] at hτ
    -- what the rows said before, for instants up to this change
    have hbefore : Covered rows k τ ↔ Past since steps k τ ∨ (lastChange since steps ≤ τ ∧ before k) := by
      by_cases hpast : τ ≤ lastChange since steps
      · exact h.covered k τ hpast
      · have hlate : lastChange since steps < τ := lt_of_not_ge hpast
        have hno : ¬Past since steps k τ := fun hp => hpast (h.inOrder.past_le hp)
        rw [or_iff_right hno, h.isOpen k]
        constructor
        · rintro ⟨s, hs, hk, -, hstop⟩
          refine ⟨hlate.le, s, hs, hk, ?_⟩
          cases hb : s.stop with
          | none => rfl
          | some b => exact absurd (le_trans (hstop b hb) ((h.bounded s hs).2 b hb).2) hpast
        · rintro ⟨-, s, hs, hk, hopen⟩
          refine ⟨s, hs, hk, le_trans (h.bounded s hs).1 hlate.le, fun b hb => ?_⟩
          rw [hopen] at hb
          cases hb
    have hheld : HeldAt since (steps ++ [(before, now)]) current k τ ↔
        Covered rows k τ ∨ (now ≤ τ ∧ current k) := by
      unfold HeldAt
      rw [past_append, lastChange_append, hbefore]
      simp only [hτ, true_and]
    rw [hheld]
    rcases hstep k with ⟨hiff, hsame⟩ | hrec
    · have hrows : Covered rows' k τ ↔ Covered rows k τ := by
        constructor
        · rintro ⟨s, hs, hk, hin⟩
          exact ⟨s, (hsame s hk).mp hs, hk, hin⟩
        · rintro ⟨s, hs, hk, hin⟩
          exact ⟨s, (hsame s hk).mpr hs, hk, hin⟩
      rw [hrows, or_iff_left_of_imp]
      rintro ⟨hle, hcur⟩
      exact hbefore.mpr (.inr ⟨le_trans hnow hle, hiff.mp hcur⟩)
    · constructor
      · rintro ⟨s, hs, hk, hin⟩
        rcases (hrec s hk).mp hs with ⟨r, hr, hrk, rfl⟩ | ⟨hcur, rfl⟩
        · refine .inl ⟨r, hr, hrk, hin.1, fun b hb => hin.2 b ?_⟩
          simp [Span.close, hb]
        · exact .inr ⟨hin.1, hcur⟩
      · rintro (⟨r, hr, hk, hin⟩ | ⟨hle, hcur⟩)
        · refine ⟨r.close now, (hrec (r.close now) hk).mpr (.inl ⟨r, hr, hk, rfl⟩), hk, hin.1, fun b hb => ?_⟩
          cases hstop : r.stop with
          | none =>
            simp only [Span.close, hstop, Option.none_or, Option.some.injEq] at hb
            exact hb ▸ hτ
          | some c =>
            simp only [Span.close, hstop, Option.some_or, Option.some.injEq] at hb
            exact hb ▸ hin.2 c hstop
        · exact ⟨⟨k, now, none⟩, (hrec _ rfl).mpr (.inr ⟨hcur, rfl⟩), rfl, hle, fun b hb => by cases hb⟩

theorem Tracks.overlaps_iff (h : Tracks rows since steps current) {a b : T} (hab : a ≤ b) {k : κ} :
    (∃ s ∈ rows, s.key = k ∧ s.Overlaps a b) ↔ ∃ τ, a ≤ τ ∧ τ ≤ b ∧
      HeldAt since steps current k τ := by
  constructor
  · rintro ⟨s, hs, hk, hstart, hstop⟩
    refine ⟨max a s.start, le_max_left _ _, max_le hab hstart, ?_⟩
    by_cases hpast : max a s.start ≤ lastChange since steps
    · refine (h.covered k _ hpast).mp ⟨s, hs, hk, le_max_right _ _, fun c hc => ?_⟩
      exact max_le (hstop c hc) ((h.bounded s hs).2 c hc).1
    · refine .inr ⟨le_of_not_ge hpast, (h.isOpen k).mpr ⟨s, hs, hk, ?_⟩⟩
      cases hc : s.stop with
      | none => rfl
      | some c =>
        have hb := (h.bounded s hs).2 c hc
        exact absurd (max_le (le_trans (hstop c hc) hb.2) (h.bounded s hs).1) hpast
  · rintro ⟨τ, ha, hb, hheld⟩
    by_cases hpast : τ ≤ lastChange since steps
    · obtain ⟨s, hs, hk, hstart, hstop⟩ := (h.covered k τ hpast).mpr hheld
      exact ⟨s, hs, hk, le_trans hstart hb, fun c hc => le_trans ha (hstop c hc)⟩
    · rcases hheld with hp | ⟨-, hcur⟩
      · exact absurd (h.inOrder.past_le hp) hpast
      · obtain ⟨s, hs, hk, hopen⟩ := (h.isOpen k).mp hcur
        have hstart := (h.bounded s hs).1
        refine ⟨s, hs, hk, le_trans hstart (le_trans (le_of_not_ge hpast) hb), fun c hc => ?_⟩
        rw [hopen] at hc
        cases hc

end

end Noxara.History
