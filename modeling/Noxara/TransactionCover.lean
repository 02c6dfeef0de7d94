import Noxara.TransactionRows

/-! What a body keeps to in each of its statements, such as changing only rows that it locks, and facts
about a transaction that stay true once they are. -/
namespace Noxara.Transaction

variable {ι σ κ ε α β : Type}

namespace Prog

/-- Every statement of the body, with the locks it takes and the write it makes, meets `C`. -/
def Covered (C : List κ → (σ → σ) → Prop) : Prog σ κ ε α → Prop
  | pure _ => True
  | fail _ => True
  | stmt l w n => ∀ v, C (l v) (w v) ∧ (n v).Covered C

section
variable {C : List κ → (σ → σ) → Prop}

theorem Covered.bind {p : Prog σ κ ε α} {f : α → Prog σ κ ε β} (hp : p.Covered C)
    (hf : ∀ a, (f a).Covered C) : (p >>= f).Covered C := by
  induction p with
  | pure a => exact hf a
  | fail e => trivial
  | stmt l w n ih => exact fun v => ⟨(hp v).1, ih v (hp v).2⟩

theorem Covered.of_writes {W : (σ → σ) → Prop} (h : ∀ ls f, W f → C ls f) {p : Prog σ κ ε α}
    (hp : p.Writes W) : p.Covered C := by
  induction p with
  | pure a => trivial
  | fail e => trivial
  | stmt l w n ih => exact fun v => ⟨h _ _ (hp v).1, ih v (hp v).2⟩

theorem Covered.and {D : List κ → (σ → σ) → Prop} {p : Prog σ κ ε α} (hC : p.Covered C)
    (hD : p.Covered D) :
    p.Covered fun ls f => C ls f ∧ D ls f := by
  induction p with
  | pure a => trivial
  | fail e => trivial
  | stmt l w n ih => exact fun v => ⟨⟨(hC v).1, (hD v).1⟩, ih v (hC v).2 (hD v).2⟩

theorem covered_require {c : Prop} [Decidable c] {e : ε} : (require c e : Prog σ κ ε Unit).Covered C := by
  unfold require
  split_ifs <;> trivial

theorem covered_okOr (x : Option α) (e : ε) : (okOr x e : Prog σ κ ε α).Covered C := by
  cases x <;> trivial

theorem covered_ofExcept (x : Except ε α) : (ofExcept x : Prog σ κ ε α).Covered C := by
  cases x <;> trivial

variable (hid : ∀ ls, C ls id)
include hid

theorem covered_query (f : σ → α) : (query f : Prog σ κ ε α).Covered C := fun _ => ⟨hid _, trivial⟩

theorem covered_queryForUpdate (l : σ → List κ) (f : σ → α) :
    (queryForUpdate l f : Prog σ κ ε α).Covered C := fun _ => ⟨hid _, trivial⟩

theorem covered_executeReturning {l : σ → List κ} {c : σ → Except ε α} {w : σ → σ → σ}
    (hw : ∀ v a, c v = .ok a → C (l v) (w v)) : (executeReturning l c w).Covered C := by
  intro v
  have hwv := hw v
  cases hc : c v with
  | ok a =>
    simp only [hc]
    exact ⟨hwv a hc, trivial⟩
  | error e =>
    simp only [hc]
    exact ⟨hid _, trivial⟩

theorem covered_execute {l : σ → List κ} {c : σ → Except ε Unit} {w : σ → σ → σ}
    (hw : ∀ v, c v = .ok () → C (l v) (w v)) : (execute l c w).Covered C := by
  rw [execute_eq]
  exact covered_executeReturning hid fun v _ hc => hw v hc

omit hid in
theorem covered_each {f : ι → Prog σ κ ε Unit} (h : ∀ i, (f i).Covered C) (is : List ι) :
    (each f is).Covered C := by
  induction is with
  | nil => trivial
  | cons i is ih => exact (h i).bind fun _ => ih

theorem covered_updateRow {lock : ι → κ} {still : σ → ι → Bool} {change : ι → σ → σ}
    (h : ∀ i, C [lock i] (change i)) (i : ι) :
    (updateRow lock still change i : Prog σ κ ε Unit).Covered C := by
  refine covered_execute hid fun v _ => ?_
  cases hv : still v i with
  | true => simpa using h i
  | false => exact hid _

theorem covered_updateRows {select : σ → List ι} {lock : ι → κ} {still : σ → ι → Bool}
    {change : ι → σ → σ} (h : ∀ i, C [lock i] (change i)) :
    (updateRows select lock still change : Prog σ κ ε Unit).Covered C :=
  .bind (covered_query hid _) fun rows => covered_each (fun i => covered_updateRow hid h i) rows

end

/-- What comes after a body that only looks: no locks and no writes, and what it saw on the trail. -/
theorem Safe.looks_bind {T : Terms σ κ} {Q : Trail σ κ → β → σ → Prop} {x : Trail σ κ} {s : σ}
    {p : Prog σ κ ε α}
    {f : α → Prog σ κ ε β} (hp : p.Covered fun ls g => ls = [] ∧ g = id)
    (h : ∀ y a u, y.pend = x.pend → y.locks = x.locks → (∃ more, y.seen = more ++ x.seen) →
      T.rely x.locks s u →
      (f a).Safe T Q y u) : (p >>= f).Safe T Q x s := by
  suffices hgo : ∀ (p : Prog σ κ ε α) (y : Trail σ κ) (u : σ), (p.Covered fun ls g => ls = [] ∧ g = id) →
      y.pend = x.pend → y.locks = x.locks → (∃ more, y.seen = more ++ x.seen) → T.rely x.locks s u →
      (p >>= f).Safe T Q y u from hgo p x s hp rfl rfl ⟨[], rfl⟩ (T.refl _ _)
  intro p
  induction p with
  | pure a => exact fun y u _ hpend hlocks hseen hu => h y a u hpend hlocks hseen hu
  | fail e => exact fun _ _ _ _ _ _ _ => trivial
  | stmt l w n ih =>
    rintro y u hp hpend hlocks ⟨more, hmore⟩ hu v hv _
    obtain ⟨⟨hl, hw⟩, hn⟩ := hp (y.pend v)
    refine ih _ _ v hn ?_ ?_ ⟨y.pend v :: more, ?_⟩ (T.trans hu (by rwa [hlocks] at hv))
    · rw [Trail.push, hw]
      exact hpend
    · rw [Trail.push, hl]
      exact hlocks
    · rw [Trail.push, hmore]
      rfl

/-- What stays true of a trail and the committed store while others commit what the trail's owner relies
on, and through the owner's own statements that meet `C`. -/
structure Steady (T : Terms σ κ) (C : List κ → (σ → σ) → Prop) (N : Trail σ κ → σ → Prop) : Prop where
  rely : ∀ {x s s'}, T.rely x.locks s s' → N x s → N x s'
  push : ∀ {x l w s}, C (l (x.pend s)) (w (x.pend s)) → N x s → N (x.push l w s) s

section
variable {T : Terms σ κ} {C : List κ → (σ → σ) → Prop} {N M : Trail σ κ → σ → Prop}
    {x : Trail σ κ} {s : σ}

/-- A steady fact holds at the end where it holds now. -/
theorem Steady.safe (hN : Steady T C N) {p : Prog σ κ ε α} (hp : p.Covered C) (h : N x s) :
    p.Safe T (fun y _ u => N y u) x s := by
  induction p generalizing x s with
  | pure a => exact fun u hu => hN.rely hu h
  | fail e => trivial
  | stmt l w n ih =>
    intro u hu _
    exact ih _ (hp _).2 (hN.push (hp _).1 (hN.rely hu h))

theorem Safe.and {Q R : Trail σ κ → α → σ → Prop} {p : Prog σ κ ε α} (hQ : p.Safe T Q x s)
    (hR : p.Safe T R x s) : p.Safe T (fun y a u => Q y a u ∧ R y a u) x s := by
  induction p generalizing x s with
  | pure a => exact fun u hu => ⟨hQ u hu, hR u hu⟩
  | fail e => trivial
  | stmt l w n ih => exact fun u hu hw => ih _ (hQ u hu hw) (hR u hu hw)

theorem Safe.all {Q : ι → Trail σ κ → α → σ → Prop} {p : Prog σ κ ε α}
    (h : ∀ i, p.Safe T (Q i) x s) :
    p.Safe T (fun y a u => ∀ i, Q i y a u) x s := by
  induction p generalizing x s with
  | pure a => exact fun u hu i => h i u hu
  | fail e => trivial
  | stmt l w n ih => exact fun u hu hw => ih _ fun i => h i u hu hw

theorem Safe.imp {c : Prop} {Q : Trail σ κ → α → σ → Prop} {p : Prog σ κ ε α} (h : c → p.Safe T Q x s) :
    p.Safe T (fun y a u => c → Q y a u) x s := by
  induction p generalizing x s with
  | pure a => exact fun u hu hc => h hc u hu
  | fail e => trivial
  | stmt l w n ih => exact fun u hu hw => ih _ fun hc => h hc u hu hw

/-- A body whose answer is put in another form. -/
theorem Safe.map {Q : Trail σ κ → β → σ → Prop} {g : α → β} {p : Prog σ κ ε α}
    (h : p.Safe T (fun y a u => Q y (g a) u) x s) :
    (do let a ← p; return g a : Prog σ κ ε β).Safe T Q x s := by
  induction p generalizing x s with
  | pure a => exact h
  | fail e => trivial
  | stmt l w n ih => exact fun u hu hw => ih _ (h u hu hw)

/-- A fact that the body for one item of the list brings about holds after all of them. -/
theorem safe_each (hN : Steady T C N) (hM : Steady T C M) {f : ι → Prog σ κ ε Unit}
    (hf : ∀ j, (f j).Covered C) {i : ι} {is : List ι} (hmem : i ∈ is)
    (hi : ∀ x s, M x s → (f i).Safe T (fun y _ u => N y u) x s) (h : M x s) :
    (each f is).Safe T (fun y _ u => N y u) x s := by
  induction is generalizing x s with
  | nil => cases hmem
  | cons j js ih =>
    refine Safe.bind (f := fun _ => each f js) ?_
    rcases List.mem_cons.mp hmem with rfl | hmem
    · exact (hi x s h).mono fun y _ u hy => hN.safe (covered_each hf js) hy
    · exact (hM.safe (hf j) h).mono fun y _ u hy => ih hmem hy

end

/-! What a transaction is about to make of a part of the store whose lock it holds: nobody else commits a
change of that part, so what it has written so far stands in a fixed relation to what is committed. -/

section Pending
variable {ρ : Type}

/-- What the write makes of the part depends on the part alone. -/
def Confined (π : σ → ρ) (f : σ → σ) : Prop := ∃ g : ρ → ρ, ∀ s, π (f s) = g (π s)

theorem Confined.of_keeps {π : σ → ρ} {f : σ → σ} (h : Keeps π f) : Confined π f := ⟨fun a => a, h⟩

theorem Confined.id (π : σ → ρ) : Confined π id := .of_keeps (.id π)

theorem Confined.comp {π : σ → ρ} {f g : σ → σ} (hf : Confined π f) (hg : Confined π g) :
    Confined π (f ∘ g) := by
  obtain ⟨a, ha⟩ := hf
  obtain ⟨b, hb⟩ := hg
  exact ⟨a ∘ b, fun s => (ha (g s)).trans (congrArg a (hb s))⟩

/-- Under the lock `k` the transaction has made of the part `π` something that `R` relates to it. -/
structure Pending (k : κ) (π : σ → ρ) (R : ρ → ρ → Prop) (x : Trail σ κ) (s : σ) : Prop where
  lock : k ∈ x.locks
  confined : Confined π x.pend
  within : R (π s) (π (x.pend s))

variable {k : κ} {π : σ → ρ} {R : ρ → ρ → Prop} {T : Terms σ κ}

/-- It stays so while others leave the part to whom holds its lock, and through statements whose effect on
the part `R` takes. -/
theorem steady_pending (hrely : ∀ ls s t, k ∈ ls → T.rely ls s t → π t = π s) :
    Steady T (fun _ f => ∃ g : ρ → ρ, (∀ s, π (f s) = g (π s)) ∧ ∀ a b, R a b → R a (g b))
      (Pending k π R) where
  rely {x s s'} h hp := by
    have hpart := hrely _ s s' hp.lock h
    obtain ⟨g, hg⟩ := hp.confined
    refine ⟨hp.lock, hp.confined, ?_⟩
    have hwithin := hp.within
    rw [hg, hpart]
    rwa [hg] at hwithin
  push {x l w s} h hp := by
    obtain ⟨g, hg, hR⟩ := h
    have hw : Confined π (w (x.pend s)) := ⟨g, hg⟩
    refine ⟨List.mem_append_right _ hp.lock, hw.comp hp.confined, ?_⟩
    change R (π s) (π (w (x.pend s) (x.pend s)))
    rw [hg]
    exact hR _ _ hp.within

end Pending

end Prog

end Noxara.Transaction
