import Noxara.TransactionGate

/-! The part of the store that one row lock guards. A secured body changes that part only after
it took the lock, and from what it finds there. Then every commit changes the guarded part by
what one body alone makes of it, whatever the others do in between. -/
namespace Noxara.Transaction

variable {ι σ κ ε α β ρ : Type}

namespace Prog

/-- The write leaves the part `π` of every store as it is. -/
def Keeps (π : σ → ρ) (f : σ → σ) : Prop := ∀ s, π (f s) = π s

theorem Keeps.id (π : σ → ρ) : Keeps π id := fun _ => rfl

theorem Keeps.comp {π : σ → ρ} {f g : σ → σ} (hf : Keeps π f) (hg : Keeps π g) : Keeps π (f ∘ g) :=
  fun s => (hf (g s)).trans (hg s)

/-- What is left of a body under the lock, where the guarded part now is `cur`: it commits only
a part that meets `G`. -/
def Held (π : σ → ρ) (G : ρ → Prop) : ρ → Prog σ κ ε α → Prop
  | cur, pure _ => G cur
  | _, fail _ => True
  | cur, stmt _ w n => ∀ v, π v = cur →
      ∃ next, (∀ s, π s = cur → π (w v s) = next) ∧ Held π G next (n v)

/-- Each statement leaves the guarded part alone, or takes the lock `k`. Where the guarded part
that it locks meets `A`, the rest of the body makes of it something that `G` relates to it. -/
def Secured (k : κ) (π : σ → ρ) (A : ρ → Prop) (G : ρ → ρ → Prop) : Prog σ κ ε α → Prop
  | pure _ => True
  | fail _ => True
  | stmt l w n => ∀ v,
      (Keeps π (w v) ∧ Secured k π A G (n v)) ∨
      (k ∈ l v ∧ (A (π v) →
        ∃ next, (∀ s, π s = π v → π (w v s) = next) ∧ (n v).Held π (G (π v)) next))

variable {k : κ} {π : σ → ρ} {A : ρ → Prop} {G : ρ → ρ → Prop}

theorem Held.bind {g : ρ → Prop} {p : Prog σ κ ε α} {f : α → Prog σ κ ε β} {cur : ρ}
    (hp : p.Writes (Keeps π)) (hf : ∀ a, (f a).Held π g cur) : (p >>= f).Held π g cur := by
  induction p with
  | pure a => exact hf a
  | fail e => trivial
  | stmt l w n ih =>
    intro v _
    exact ⟨cur, fun s hs => ((hp v).1 s).trans hs, ih v (hp v).2⟩

theorem Secured.bind {p : Prog σ κ ε α} {f : α → Prog σ κ ε β} (hp : p.Writes (Keeps π))
    (hf : ∀ a, (f a).Secured k π A G) : (p >>= f).Secured k π A G := by
  induction p with
  | pure a => exact hf a
  | fail e => trivial
  | stmt l w n ih => exact fun v => .inl ⟨(hp v).1, ih v (hp v).2⟩

theorem Secured.of_writes {p : Prog σ κ ε α} (hp : p.Writes (Keeps π)) : p.Secured k π A G := by
  induction p with
  | pure a => trivial
  | fail e => trivial
  | stmt l w n ih => exact fun v => .inl ⟨(hp v).1, ih v (hp v).2⟩

theorem Held.of_writes {g : ρ → Prop} {p : Prog σ κ ε α} {cur : ρ} (hp : p.Writes (Keeps π))
    (hg : g cur) : p.Held π g cur := by
  induction p with
  | pure a => exact hg
  | fail e => trivial
  | stmt l w n ih =>
    intro v _
    exact ⟨cur, fun s hs => ((hp v).1 s).trans hs, ih v (hp v).2⟩

/-- A check before the lock is taken. -/
theorem Secured.ofExcept_bind {x : Except ε α} {f : α → Prog σ κ ε β}
    (hf : ∀ a, x = .ok a → (f a).Secured k π A G) : (ofExcept x >>= f).Secured k π A G := by
  cases x with
  | error e => trivial
  | ok a => exact hf a rfl

/-- A write under the lock that was let through by its check. -/
theorem Held.write_bind {g : ρ → Prop} {l : σ → List κ} {c : σ → Except ε Unit} {w : σ → σ → σ}
    {f : Unit → Prog σ κ ε β} {cur : ρ}
    (h : ∀ v, π v = cur → c v = .ok () →
      ∃ next, (∀ s, π s = cur → π (w v s) = next) ∧ (f ()).Held π g next) :
    (execute l c w >>= f).Held π g cur := by
  intro v hv
  have hv := h v hv
  cases hc : c v with
  | ok u =>
    obtain ⟨next, hw, hf⟩ := hv hc
    refine ⟨next, fun s hs => ?_, ?_⟩
    · simpa only [hc] using hw s hs
    · simp only [hc]
      exact hf
  | error e =>
    refine ⟨cur, fun s hs => ?_, ?_⟩
    · simpa only [hc] using hs
    · simp only [hc]
      trivial

/-- A write under the lock; where a constraint refuses it, the body ends. -/
theorem Held.execute_bind {g : ρ → Prop} {l : σ → List κ} {c : σ → Except ε Unit} {w : σ → σ → σ}
    {f : Unit → Prog σ κ ε β} {cur n : ρ} (hw : ∀ v s, π s = cur → π (w v s) = n)
    (hf : (f ()).Held π g n) : (execute l c w >>= f).Held π g cur :=
  Held.write_bind fun v _ _ => ⟨n, hw v, hf⟩

theorem Held.query_bind {g : ρ → Prop} {h : σ → α} {f : α → Prog σ κ ε β} {cur : ρ}
    (hf : ∀ v, π v = cur → (f (h v)).Held π g cur) : (query h >>= f).Held π g cur :=
  fun v hv => ⟨cur, fun _ hs => hs, hf v hv⟩

theorem Held.ofExcept_bind {g : ρ → Prop} {x : Except ε α} {f : α → Prog σ κ ε β} {cur : ρ}
    (hf : ∀ a, x = .ok a → (f a).Held π g cur) : (ofExcept x >>= f).Held π g cur := by
  cases x with
  | error e => trivial
  | ok a => exact hf a rfl

theorem Held.require_bind {g : ρ → Prop} {c : Prop} [Decidable c] {e : ε} {f : Unit → Prog σ κ ε β}
    {cur : ρ} (hf : c → (f ()).Held π g cur) : (require c e >>= f).Held π g cur := by
  unfold require
  split_ifs with hc
  · exact hf hc
  · trivial

end Prog

/-- From `c` to `d` the transaction `i` executes a statement that locks the row `k`. -/
def Config.Executes [DecidableEq ι] (c d : Config ι σ κ ε α) (i : ι) (k : κ) : Prop :=
  ∃ t l w n, c.threads i = .running t ∧ t.prog = .stmt l w n ∧ k ∈ l (t.view c.db) ∧
    d = c.setThread i (.running (t.exec l w n c.db))

/-- A transaction that has not touched the guarded part. -/
def Thread.Outside (k : κ) (π : σ → ρ) (A : ρ → Prop) (G : ρ → ρ → Prop)
    (t : Thread σ κ ε α) : Prop :=
  Prog.Keeps π t.pend ∧ t.prog.Secured k π A G

/-- A transaction that holds the lock and found `base` for the guarded part. -/
def Thread.Inside (k : κ) (π : σ → ρ) (G : ρ → ρ → Prop) (base : ρ) (t : Thread σ κ ε α) : Prop :=
  k ∈ t.locks ∧ ∃ cur, (∀ s, π s = base → π (t.pend s) = cur) ∧ t.prog.Held π (G base) cur

/-- Every transaction in flight is outside, or inside with what is committed now. -/
def Config.Guarded (k : κ) (π : σ → ρ) (A : ι → ρ → Prop) (G : ι → ρ → ρ → Prop)
    (c : Config ι σ κ ε α) : Prop :=
  ∀ i t, c.threads i = .running t → t.Outside k π (A i) (G i) ∨ t.Inside k π (G i) (π c.db)

theorem Config.Guarded.initial {k : κ} {π : σ → ρ} {A : ι → ρ → Prop} {G : ι → ρ → ρ → Prop}
    {prog : ι → Prog σ κ ε α} (hp : ∀ i, (prog i).Secured k π (A i) (G i)) (db : σ) :
    (Config.initial prog db).Guarded k π A G := by
  intro i t ht
  cases ht
  exact .inl ⟨Prog.Keeps.id π, hp i⟩

/-- A thread after one of its statements. -/
theorem Config.Guarded.exec {k : κ} {π : σ → ρ} {A : ι → ρ → Prop} {G : ι → ρ → ρ → Prop}
    {c : Config ι σ κ ε α} (h : c.Guarded k π A G) {i : ι} {t : Thread σ κ ε α}
    {l : σ → List κ} {w : σ → σ → σ} {n : σ → Prog σ κ ε α} (hrun : c.threads i = .running t)
    (hprog : t.prog = .stmt l w n) (hA : k ∈ l (t.view c.db) → A i (π c.db)) :
    (t.exec l w n c.db).Outside k π (A i) (G i) ∨ (t.exec l w n c.db).Inside k π (G i) (π c.db) := by
  rcases h i t hrun with ⟨hkeep, hsec⟩ | ⟨hlock, cur, hpend, hheld⟩
  · rw [hprog] at hsec
    have hview : π (t.view c.db) = π c.db := hkeep c.db
    rcases hsec (t.view c.db) with ⟨hw, hn⟩ | ⟨hk, hnext⟩
    · exact .inl ⟨hw.comp hkeep, hn⟩
    · obtain ⟨next, hw, hn⟩ := hnext (by rw [hview]; exact hA hk)
      rw [hview] at hn
      refine .inr ⟨List.mem_append_left _ hk, next, fun s hs => ?_, hn⟩
      exact hw (t.pend s) ((hkeep s).trans (hs.trans hview.symm))
  · rw [hprog] at hheld
    obtain ⟨next, hw, hn⟩ := hheld (t.view c.db) (hpend c.db rfl)
    exact .inr ⟨List.mem_append_right _ hlock, next, fun s hs => hw _ (hpend s hs), hn⟩

variable [DecidableEq ι]

/-- No two transactions in flight hold the lock of one row. -/
theorem Reachable.exclusive {prog : ι → Prog σ κ ε α} {db : σ} {c : Config ι σ κ ε α}
    (h : Reachable prog db c) (k : κ) :
    ∀ i j, k ∈ (c.threads i).locks → k ∈ (c.threads j).locks → i = j := by
  induction h with
  | initial =>
    intro i j hi
    cases hi
  | @step c d _ hs ih =>
    intro i j hi hj
    cases hs with
    | @exec m t l w n hrun hprog hfree =>
      -- Who holds the lock now held it before, or is the one that moved.
      have hback : ∀ x, k ∈ ((c.setThread m (.running (t.exec l w n c.db))).threads x).locks →
          k ∈ (c.threads x).locks ∨ (x = m ∧ k ∈ l (t.view c.db)) := by
        intro x hx
        by_cases hxm : x = m
        · subst hxm
          rw [c.setThread_same] at hx
          rcases List.mem_append.mp hx with hl | ht
          · exact .inr ⟨rfl, hl⟩
          · left
            rw [hrun]
            exact ht
        · rw [c.setThread_ne _ hxm] at hx
          exact .inl hx
      rcases hback i hi with hib | ⟨rfl, hl⟩
      · rcases hback j hj with hjb | ⟨rfl, hl⟩
        · exact ih i j hib hjb
        · by_contra hne
          exact hfree i hne k hl hib
      · rcases hback j hj with hjb | ⟨rfl, _⟩
        · by_contra hne
          exact hfree j (Ne.symm hne) k hl hjb
        · rfl
    | commit | exit | crash =>
      obtain ⟨u, hu, hku⟩ := Status.mem_locks hi
      obtain ⟨v, hv, hkv⟩ := Status.mem_locks hj
      refine ih i j ?_ ?_
      · rwa [(Config.running_ended (by intro t; nofun) hu).2]
      · rwa [(Config.running_ended (by intro t; nofun) hv).2]

section Step
variable {k : κ} {π : σ → ρ} {A : ι → ρ → Prop} {G : ι → ρ → ρ → Prop}
    {c d : Config ι σ κ ε α}

theorem Config.Guarded.others (h : c.Guarded k π A G) {i : ι} {s : Status σ κ ε α}
    (hs : ∀ t, s ≠ .running t) {db : σ} (log : List (ι × Except ε α)) (hdb : π db = π c.db) :
    Config.Guarded k π A G { c.setThread i s with db, log } := by
  intro j u hu
  have hj : c.threads j = .running u := (Config.running_ended hs hu).2
  change _ ∨ u.Inside k π (G j) (π db)
  rw [hdb]
  exact h j u hj

/-- One step of secured bodies: the guarded part stays, or one of them changes it by `G`. -/
theorem Config.Guarded.step (h : c.Guarded k π A G)
    (hone : ∀ i j, k ∈ (c.threads i).locks → k ∈ (c.threads j).locks → i = j) (hs : Step c d)
    (hA : ∀ i, c.Executes d i k → A i (π c.db)) :
    d.Guarded k π A G ∧ (π d.db = π c.db ∨ ∃ i, G i (π c.db) (π d.db)) := by
  cases hs with
  | @exec i t l w n hrun hprog hfree =>
    refine ⟨fun j u hu => ?_, .inl rfl⟩
    rcases Config.running_setThread hu with ⟨rfl, he⟩ | ⟨_, hj⟩
    · cases he
      exact h.exec hrun hprog fun hk => hA j ⟨t, l, w, n, hrun, hprog, hk, rfl⟩
    · exact h j u hj
  | @commit i t a hrun hprog =>
    have hend : ∀ u : Thread σ κ ε α, Status.committed a ≠ .running u := fun _ => nofun
    rcases h i t hrun with ⟨hkeep, _⟩ | ⟨hlock, cur, hpend, hheld⟩
    · exact ⟨h.others hend _ (hkeep c.db), .inl (hkeep c.db)⟩
    · rw [hprog] at hheld
      have hcur : π (t.view c.db) = cur := hpend c.db rfl
      refine ⟨fun j u hu => ?_, .inr ⟨i, ?_⟩⟩
      · obtain ⟨hj, hu⟩ := Config.running_ended hend hu
        rcases h j u hu with hout | ⟨hlockj, _⟩
        · exact .inl hout
        · exact absurd (hone j i (by rwa [hu]) (by rwa [hrun])) hj
      · change G i (π c.db) (π (t.view c.db))
        rw [hcur]
        exact hheld
  | exit hrun hprog => exact ⟨h.others (by intro u; nofun) _ rfl, .inl rfl⟩
  | @crash i t hrun =>
    exact ⟨h.others (by intro u; nofun) c.log rfl, .inl rfl⟩

end Step

section Runs
variable {k : κ} {π : σ → ρ} {A : ι → ρ → Prop} {G : ι → ρ → ρ → Prop}
  {K : Config ι σ κ ε α → Config ι σ κ ε α → Prop} {prog : ι → Prog σ κ ε α} {db : σ}
  {c d : Config ι σ κ ε α}

theorem ReachableWhere.guarded (h : ReachableWhere K prog db c)
    (hp : ∀ i, (prog i).Secured k π (A i) (G i))
    (hA : ∀ c d i, K c d → c.Executes d i k → A i (π c.db)) : c.Guarded k π A G := by
  induction h with
  | initial => exact .initial hp db
  | step prior next meets ih =>
    exact (ih.step (prior.reachable.exclusive k) next fun i => hA _ _ i meets).1

/-- A step of a run of secured bodies leaves the guarded part, or changes it by one `G`. -/
theorem ReachableWhere.changes (h : ReachableWhere K prog db c) (hs : Step c d) (hK : K c d)
    (hp : ∀ i, (prog i).Secured k π (A i) (G i))
    (hA : ∀ c d i, K c d → c.Executes d i k → A i (π c.db)) :
    π d.db = π c.db ∨ ∃ i, G i (π c.db) (π d.db) :=
  ((h.guarded hp hA).step (h.reachable.exclusive k) hs fun i => hA c d i hK).2

/-- What no `G` breaks holds of the guarded part in every run of secured bodies. -/
theorem ReachableWhere.guarded_invariant (h : ReachableWhere K prog db c)
    (hp : ∀ i, (prog i).Secured k π (A i) (G i))
    (hA : ∀ c d i, K c d → c.Executes d i k → A i (π c.db)) {I : ρ → Prop} (h0 : I (π db))
    (hG : ∀ i a b, I a → G i a b → I b) : I (π c.db) := by
  induction h with
  | initial => exact h0
  | step prior next meets ih =>
    rcases prior.changes next meets hp hA with he | ⟨i, hg⟩
    · rwa [he]
    · exact hG i _ _ ih hg

end Runs

end Noxara.Transaction
