import Noxara.TransactionRows

/-! Bodies that look first and lock later. Such a body reads the guarded part without a lock, decides from what
it saw, and writes later. A run is watched: when a transaction takes the lock, what it has seen of the part is
compared with what is committed. Where the comparison holds each time, a commit changes the guarded part by
what one body makes of it. -/
namespace Noxara.Transaction

variable {ι σ κ ε α β ρ : Type}

/-- A row lock, the part of the store that it guards, and what holds of that part all along. -/
structure Guard (σ κ ρ : Type) where
  key : κ
  part : σ → ρ
  inv : ρ → Prop

namespace Prog

/-- Until the body takes the lock it makes `eff` of the guarded part, and `seen` are the parts that its
statements saw, the latest first. Where the part that it locks meets `A` against these, the rest of the body
makes of it something that `G` relates to it. -/
def Rechecks (g : Guard σ κ ρ) (A : List ρ → ρ → Prop) (G : ρ → ρ → Prop) :
    (ρ → ρ) → List ρ → Prog σ κ ε α → Prop
  | eff, _, pure _ => ∀ r, g.inv r → eff r = r
  | _, _, fail _ => True
  | eff, seen, stmt l w n => ∀ v base, g.inv base → eff base = g.part v →
      (g.key ∉ l v → ∃ f : ρ → ρ, (∀ s, g.part (w v s) = f (g.part s)) ∧
        Rechecks g A G (f ∘ eff) (g.part v :: seen) (n v)) ∧
      (g.key ∈ l v → A seen base →
        ∃ next, (∀ s, g.part s = g.part v → g.part (w v s) = next) ∧ (n v).Held g.part (G base) next)

variable {g : Guard σ κ ρ} {A : List ρ → ρ → Prop} {G : ρ → ρ → Prop} {eff : ρ → ρ} {seen : List ρ}

theorem Rechecks.query_bind {h : σ → α} {f : α → Prog σ κ ε β}
    (hf : ∀ v base, g.inv base → eff base = g.part v → (f (h v)).Rechecks g A G eff (g.part v :: seen)) :
    (query h >>= f).Rechecks g A G eff seen :=
  fun v base hbase hv => ⟨fun _ => ⟨fun r => r, fun _ => rfl, hf v base hbase hv⟩,
    fun hk => absurd hk List.not_mem_nil⟩

theorem Rechecks.ofExcept_bind {x : Except ε α} {f : α → Prog σ κ ε β}
    (hf : ∀ a, x = .ok a → (f a).Rechecks g A G eff seen) : (ofExcept x >>= f).Rechecks g A G eff seen := by
  cases x with
  | error e => trivial
  | ok a => exact hf a rfl

theorem Rechecks.okOr_bind {x : Option α} {e : ε} {f : α → Prog σ κ ε β}
    (hf : ∀ a, x = some a → (f a).Rechecks g A G eff seen) : (okOr x e >>= f).Rechecks g A G eff seen := by
  cases x with
  | none => trivial
  | some a => exact hf a rfl

theorem Rechecks.replayOr {γ : Type} {t : AnswerTable σ κ γ} {key : Option String} {scope : String}
    {replay : γ → α}
    {handler : Prog σ κ ε α} (heff : ∀ r, g.inv r → eff r = r)
    (h : ∀ looks, handler.Rechecks g A G eff (looks ++ seen)) :
    (t.replayOr key scope replay handler).Rechecks g A G eff seen := by
  cases key with
  | none => exact h []
  | some k =>
    refine .query_bind fun v _ _ _ => ?_
    split
    · exact heff
    · exact h [g.part v]

theorem Rechecks.require_bind {c : Prop} [Decidable c] {e : ε} {f : Unit → Prog σ κ ε β}
    (hf : c → (f ()).Rechecks g A G eff seen) : (require c e >>= f).Rechecks g A G eff seen := by
  unfold require
  split_ifs with hc
  · exact hf hc
  · trivial

theorem Rechecks.before_bind {l : σ → List κ} {c : σ → Except ε Unit} {w : σ → σ → σ}
    {f : Unit → Prog σ κ ε β}
    {m : ρ → ρ} (hl : ∀ v, g.key ∉ l v) (hw : ∀ v s, g.part (w v s) = m (g.part s))
    (hf : ∀ v, (f ()).Rechecks g A G (m ∘ eff) (g.part v :: seen)) :
    (execute l c w >>= f).Rechecks g A G eff seen := by
  intro v base _ _
  refine ⟨fun _ => ?_, fun hk => absurd hk (hl v)⟩
  cases hc : c v with
  | ok u =>
    refine ⟨m, fun s => ?_, ?_⟩
    · simpa only [hc] using hw v s
    · simp only [hc]
      exact hf v
  | error e =>
    refine ⟨fun r => r, fun s => ?_, ?_⟩
    · simp only [hc]
    · simp only [hc]
      trivial

/-- A write that leaves the guarded part as it is. -/
theorem Rechecks.keeps_bind {l : σ → List κ} {c : σ → Except ε Unit} {w : σ → σ → σ}
    {f : Unit → Prog σ κ ε β}
    (hl : ∀ v, g.key ∉ l v) (hw : ∀ v, Keeps g.part (w v))
    (hf : ∀ v, (f ()).Rechecks g A G eff (g.part v :: seen)) : (execute l c w >>= f).Rechecks g A G eff seen :=
  .before_bind (m := fun r => r) hl (fun v s => hw v s) hf

/-- A body that leaves the lock and the guarded part alone. -/
def Spares (g : Guard σ κ ρ) : Prog σ κ ε α → Prop
  | pure _ => True
  | fail _ => True
  | stmt l w n => ∀ v, g.key ∉ l v ∧ Keeps g.part (w v) ∧ Spares g (n v)

theorem Spares.bind {p : Prog σ κ ε α} {f : α → Prog σ κ ε β} (hp : p.Spares g)
    (hf : ∀ a, (f a).Spares g) :
    (p >>= f).Spares g := by
  induction p with
  | pure a => exact hf a
  | fail e => trivial
  | stmt l w n ih => exact fun v => ⟨(hp v).1, (hp v).2.1, ih v (hp v).2.2⟩

theorem Spares.query (h : σ → α) : (query h : Prog σ κ ε α).Spares g :=
  fun _ => ⟨List.not_mem_nil, fun _ => rfl, trivial⟩

theorem Spares.okOr (x : Option α) (e : ε) : (okOr x e : Prog σ κ ε α).Spares g := by
  cases x with
  | none => trivial
  | some a => trivial

theorem Spares.ofExcept (x : Except ε α) : (ofExcept x : Prog σ κ ε α).Spares g := by
  cases x with
  | error e => trivial
  | ok a => trivial

theorem Spares.require {c : Prop} [Decidable c] {e : ε} : (require c e : Prog σ κ ε Unit).Spares g := by
  unfold Prog.require
  split_ifs <;> trivial

theorem Spares.execute {l : σ → List κ} {c : σ → Except ε Unit} {w : σ → σ → σ}
    (hl : ∀ v, g.key ∉ l v)
    (hw : ∀ v, Keeps g.part (w v)) : (execute l c w : Prog σ κ ε Unit).Spares g := by
  intro v
  refine ⟨hl v, fun s => ?_, ?_⟩
  · cases hc : c v with
    | ok u => simpa only [hc] using hw v s
    | error e => simp only [hc]
  · dsimp only
    split
    · trivial
    · trivial

theorem Spares.each {ι : Type} {f : ι → Prog σ κ ε Unit} (hf : ∀ i, (f i).Spares g) (is : List ι) :
    (each f is).Spares g := by
  induction is with
  | nil => trivial
  | cons i is ih => exact (hf i).bind fun _ => ih

theorem Spares.writes {p : Prog σ κ ε α} (hp : p.Spares g) : p.Writes (Keeps g.part) := by
  induction p with
  | pure a => trivial
  | fail e => trivial
  | stmt l w n ih => exact fun v => ⟨(hp v).2.1, ih v (hp v).2.2⟩

theorem Rechecks.spares_bind {p : Prog σ κ ε α} {f : α → Prog σ κ ε β} (hp : p.Spares g)
    (hf : ∀ a seen, (f a).Rechecks g A G eff seen) : (p >>= f).Rechecks g A G eff seen := by
  induction p generalizing seen with
  | pure a => exact hf a seen
  | fail e => trivial
  | stmt l w n ih =>
    intro v base _ _
    obtain ⟨hfree, hkeeps, hn⟩ := hp v
    exact ⟨fun _ => ⟨fun r => r, hkeeps, ih v hn⟩, fun hk => absurd hk hfree⟩

theorem Rechecks.of_spares {p : Prog σ κ ε α} (hp : p.Spares g) : p.Rechecks g A G (fun r => r) seen := by
  induction p generalizing seen with
  | pure a => exact fun _ _ => rfl
  | fail e => trivial
  | stmt l w n ih =>
    intro v base _ _
    obtain ⟨hfree, hkeeps, hn⟩ := hp v
    exact ⟨fun _ => ⟨fun r => r, hkeeps, ih v hn⟩, fun hk => absurd hk hfree⟩

/-- The write that takes the lock. -/
theorem Rechecks.executeReturning_bind {l : σ → List κ} {c : σ → Except ε α} {w : σ → σ → σ}
    {f : α → Prog σ κ ε β} (hl : ∀ v, g.key ∈ l v)
    (h : ∀ v base a, g.inv base → eff base = g.part v → A seen base → c v = .ok a →
      ∃ next, (∀ s, g.part s = g.part v → g.part (w v s) = next) ∧ (f a).Held g.part (G base) next) :
    (executeReturning l c w >>= f).Rechecks g A G eff seen := by
  intro v base hinv hbase
  refine ⟨fun hk => absurd (hl v) hk, fun _ hA => ?_⟩
  cases hc : c v with
  | ok a =>
    obtain ⟨next, hw, hf⟩ := h v base a hinv hbase hA hc
    refine ⟨next, fun s hs => ?_, ?_⟩
    · simpa only [hc] using hw s hs
    · simp only [hc]
      exact hf
  | error e =>
    refine ⟨g.part v, fun s hs => ?_, ?_⟩
    · simpa only [hc] using hs
    · simp only [hc]
      trivial

theorem Rechecks.execute_bind {l : σ → List κ} {c : σ → Except ε Unit} {w : σ → σ → σ}
    {f : Unit → Prog σ κ ε β}
    (hl : ∀ v, g.key ∈ l v)
    (h : ∀ v base, g.inv base → eff base = g.part v → A seen base → c v = .ok () →
      ∃ next, (∀ s, g.part s = g.part v → g.part (w v s) = next) ∧ (f ()).Held g.part (G base) next) :
    (execute l c w >>= f).Rechecks g A G eff seen := by
  rw [execute_eq]
  exact Rechecks.executeReturning_bind hl fun v base _ => h v base

/-- Until it takes the lock the body leaves what `view` shows of the guarded part as it is. -/
def Reads (g : Guard σ κ ρ) {τ : Type} (view : ρ → τ) : Prog σ κ ε α → Prop
  | pure _ => True
  | fail _ => True
  | stmt l w n => ∀ v, g.key ∉ l v → Keeps (fun s => view (g.part s)) (w v) ∧ Reads g view (n v)

theorem Reads.bind {τ : Type} {view : ρ → τ} {p : Prog σ κ ε α} {f : α → Prog σ κ ε β}
    (hp : p.Reads g view)
    (hf : ∀ a, (f a).Reads g view) : (p >>= f).Reads g view := by
  induction p with
  | pure a => exact hf a
  | fail e => trivial
  | stmt l w n ih => exact fun v hk => ⟨(hp v hk).1, ih v (hp v hk).2⟩

theorem Reads.of_writes {τ : Type} {view : ρ → τ} {p : Prog σ κ ε α}
    (hp : p.Writes (Keeps fun s => view (g.part s))) : p.Reads g view := by
  induction p with
  | pure a => trivial
  | fail e => trivial
  | stmt l w n ih => exact fun v _ => ⟨(hp v).1, ih v (hp v).2⟩

theorem Reads.replayOr {γ τ : Type} {view : ρ → τ} {t : AnswerTable σ κ γ} {key : Option String}
    {scope : String}
    {replay : γ → α} {handler : Prog σ κ ε α} (h : handler.Reads g view) :
    (t.replayOr key scope replay handler).Reads g view := by
  cases key with
  | none => exact h
  | some k =>
    refine .bind (.of_writes (writes_query (Keeps.id _) _)) fun stored => ?_
    cases stored with
    | none => exact h
    | some answer => trivial

/-- The statement that takes the lock, with whatever comes after. -/
theorem Reads.execute_bind {τ : Type} {view : ρ → τ} {l : σ → List κ} {c : σ → Except ε Unit}
    {w : σ → σ → σ}
    {f : Unit → Prog σ κ ε β} (hl : ∀ v, g.key ∈ l v) : (execute l c w >>= f).Reads g view :=
  fun v hk => absurd (hl v) hk

theorem Reads.executeReturning_bind {τ : Type} {view : ρ → τ} {l : σ → List κ} {c : σ → Except ε α}
    {w : σ → σ → σ} {f : α → Prog σ κ ε β} (hl : ∀ v, g.key ∈ l v) :
    (executeReturning l c w >>= f).Reads g view :=
  fun v hk => absurd (hl v) hk

theorem Held.okOr_bind {π : σ → ρ} {G : ρ → Prop} {x : Option α} {e : ε} {f : α → Prog σ κ ε β}
    {cur : ρ}
    (hf : ∀ a, x = some a → (f a).Held π G cur) : (okOr x e >>= f).Held π G cur := by
  cases x with
  | none => trivial
  | some a => exact hf a rfl

/-- Until it takes the lock the body leaves the guarded part as it is, and `seen` are the parts that its statements
saw, the latest first. Where the part that it locks meets `A` against these, the rest of the body makes of it
something that `G` relates to it. -/
def Looks (g : Guard σ κ ρ) (A : List ρ → ρ → Prop) (G : ρ → ρ → Prop) :
    List ρ → Prog σ κ ε α → Prop
  | _, pure _ => True
  | _, fail _ => True
  | seen, stmt l w n => ∀ v,
      (g.key ∉ l v → Keeps g.part (w v) ∧ Looks g A G (g.part v :: seen) (n v)) ∧
      (g.key ∈ l v → A seen (g.part v) →
        ∃ next, (∀ s, g.part s = g.part v → g.part (w v s) = next) ∧ (n v).Held g.part (G (g.part v)) next)

namespace Looks

/-- What holds of every part that is seen may be used at the lock. -/
theorem rechecks {B : List ρ → ρ → Prop} {p : Prog σ κ ε α} (h : p.Looks g B G seen)
    (hB : ∀ seen base, g.inv base → (∀ r ∈ seen, g.inv r) → A seen base → B seen base)
    (hseen : ∀ r ∈ seen, g.inv r) : p.Rechecks g A G (fun r => r) seen := by
  induction p generalizing seen with
  | pure a => exact fun _ _ => rfl
  | fail e => trivial
  | stmt l w n ih =>
    rintro v base hbase rfl
    refine ⟨fun hk => ⟨fun r => r, ((h v).1 hk).1, ?_⟩, fun hk hA => (h v).2 hk (hB seen _ hbase hseen hA)⟩
    exact ih v ((h v).1 hk).2 (List.forall_mem_cons.mpr ⟨hbase, hseen⟩)

theorem reads {p : Prog σ κ ε α} (h : p.Looks g A G seen) : p.Reads g fun r => r := by
  induction p generalizing seen with
  | pure a => trivial
  | fail e => trivial
  | stmt l w n ih => exact fun v hk => ⟨((h v).1 hk).1, ih v ((h v).1 hk).2⟩

theorem query_bind {h : σ → α} {f : α → Prog σ κ ε β}
    (hf : ∀ v, (f (h v)).Looks g A G (g.part v :: seen)) :
    (query h >>= f).Looks g A G seen :=
  fun v => ⟨fun _ => ⟨fun _ => rfl, hf v⟩, fun hk => absurd hk List.not_mem_nil⟩

theorem ofExcept_bind {x : Except ε α} {f : α → Prog σ κ ε β}
    (hf : ∀ a, x = .ok a → (f a).Looks g A G seen) :
    (ofExcept x >>= f).Looks g A G seen := by
  cases x with
  | error e => trivial
  | ok a => exact hf a rfl

theorem okOr_bind {x : Option α} {e : ε} {f : α → Prog σ κ ε β}
    (hf : ∀ a, x = some a → (f a).Looks g A G seen) :
    (okOr x e >>= f).Looks g A G seen := by
  cases x with
  | none => trivial
  | some a => exact hf a rfl

theorem require_bind {c : Prop} [Decidable c] {e : ε} {f : Unit → Prog σ κ ε β}
    (hf : c → (f ()).Looks g A G seen) : (require c e >>= f).Looks g A G seen := by
  unfold require
  split_ifs with hc
  · exact hf hc
  · trivial

/-- The write that takes the lock. -/
theorem executeReturning_bind {l : σ → List κ} {c : σ → Except ε α} {w : σ → σ → σ}
    {f : α → Prog σ κ ε β}
    (hl : ∀ v, g.key ∈ l v)
    (h : ∀ v a, A seen (g.part v) → c v = .ok a →
      ∃ next, (∀ s, g.part s = g.part v → g.part (w v s) = next) ∧ (f a).Held g.part (G (g.part v)) next) :
    (executeReturning l c w >>= f).Looks g A G seen := by
  intro v
  refine ⟨fun hk => absurd (hl v) hk, fun _ hA => ?_⟩
  cases hc : c v with
  | ok a =>
    obtain ⟨next, hw, hf⟩ := h v a hA hc
    refine ⟨next, fun s hs => ?_, ?_⟩
    · simpa only [hc] using hw s hs
    · simp only [hc]
      exact hf
  | error e =>
    refine ⟨g.part v, fun s hs => ?_, ?_⟩
    · simpa only [hc] using hs
    · simp only [hc]
      trivial

theorem execute_bind {l : σ → List κ} {c : σ → Except ε Unit} {w : σ → σ → σ}
    {f : Unit → Prog σ κ ε β}
    (hl : ∀ v, g.key ∈ l v)
    (h : ∀ v, A seen (g.part v) → c v = .ok () →
      ∃ next, (∀ s, g.part s = g.part v → g.part (w v s) = next) ∧ (f ()).Held g.part (G (g.part v)) next) :
    (execute l c w >>= f).Looks g A G seen := by
  rw [execute_eq]
  exact executeReturning_bind hl fun v _ => h v

theorem of_spares {p : Prog σ κ ε α} (hp : p.Spares g) : p.Looks g A G seen := by
  induction p generalizing seen with
  | pure a => trivial
  | fail e => trivial
  | stmt l w n ih => exact fun v => ⟨fun _ => ⟨(hp v).2.1, ih v (hp v).2.2⟩, fun hk => absurd hk (hp v).1⟩

theorem spares_bind {p : Prog σ κ ε α} {f : α → Prog σ κ ε β} (hp : p.Spares g)
    (hf : ∀ a more, (f a).Looks g A G (more ++ seen)) : (p >>= f).Looks g A G seen := by
  induction p generalizing seen with
  | pure a => exact hf a []
  | fail e => trivial
  | stmt l w n ih =>
    refine fun v => ⟨fun _ => ⟨(hp v).2.1, ih v (hp v).2.2 fun a more => ?_⟩, fun hk => absurd hk (hp v).1⟩
    rw [← List.singleton_append, ← List.append_assoc]
    exact hf a (more ++ [g.part v])

/-- What comes after leaves the guarded part alone. -/
theorem bind_spares {p : Prog σ κ ε α} {f : α → Prog σ κ ε β} (hp : p.Looks g A G seen)
    (hf : ∀ a, (f a).Spares g) : (p >>= f).Looks g A G seen := by
  have hheld : ∀ {q : Prog σ κ ε α} {g' : ρ → Prop} {cur : ρ}, q.Held g.part g' cur →
      (q >>= f).Held g.part g' cur := by
    intro q g' cur hq
    induction q generalizing cur with
    | pure a => exact .of_writes (hf a).writes hq
    | fail e => trivial
    | stmt l w n ih =>
      intro v hv
      obtain ⟨next, hw, hn⟩ := hq v hv
      exact ⟨next, hw, ih v hn⟩
  induction p generalizing seen with
  | pure a => exact of_spares (hf a)
  | fail e => trivial
  | stmt l w n ih =>
    refine fun v => ⟨fun hk => ⟨((hp v).1 hk).1, ih v ((hp v).1 hk).2⟩, fun hk hA => ?_⟩
    obtain ⟨next, hw, hn⟩ := (hp v).2 hk hA
    exact ⟨next, hw, hheld hn⟩

end Looks

end Prog

/-- A configuration, what each transaction in flight has seen of the guarded part, the latest first, and the
guarded parts that were committed before each step so far, the oldest first. -/
structure Watch (ι σ κ ε α ρ : Type) where
  config : Config ι σ κ ε α
  seen : ι → List ρ
  past : List ρ

variable [DecidableEq ι]

namespace Watch

def initial (prog : ι → Prog σ κ ε α) (db : σ) : Watch ι σ κ ε α ρ :=
    ⟨.initial prog db, fun _ => [], []⟩

/-- One event of a run. A transaction that takes the lock finds a part that meets `A` against those it saw. -/
inductive Step (g : Guard σ κ ρ) (A : ι → List ρ → ρ → Prop) :
    Watch ι σ κ ε α ρ → Watch ι σ κ ε α ρ → Prop
  | exec {c seen past i t l w n} (running : c.threads i = .running t) (prog : t.prog = .stmt l w n)
      (free : c.Free i (l (t.view c.db)))
      (meets : g.key ∈ l (t.view c.db) → g.key ∉ t.locks → A i (seen i) (g.part c.db)) :
      Step g A ⟨c, seen, past⟩ ⟨c.setThread i (.running (t.exec l w n c.db)),
        Function.update seen i (g.part (t.view c.db) :: seen i), past ++ [g.part c.db]⟩
  | ended {c d seen past} (next : Transaction.Step c d)
      (ended : ∀ i t, d.threads i = .running t → c.threads i = .running t) :
      Step g A ⟨c, seen, past⟩ ⟨d, seen, past ++ [g.part c.db]⟩

/-- How often `p` comes to hold from one part to the next. -/
def rises (p : ρ → Bool) : List ρ → Nat
  | a :: b :: l => (if !p a && p b then 1 else 0) + rises p (b :: l)
  | _ => 0

omit [DecidableEq ι] in
theorem rises_snoc (p : ρ → Bool) (l : List ρ) (a b : ρ) :
    rises p (l ++ [a] ++ [b]) = rises p (l ++ [a]) + if !p a && p b then 1 else 0 := by
  induction l with
  | nil => simp [rises]
  | cons c l ih =>
    cases l with
    | nil => simp [rises]
    | cons d l =>
      simp only [List.cons_append, rises] at ih ⊢
      rw [ih, Nat.add_assoc]

/-- A run that is watched from its start. -/
def Reached (g : Guard σ κ ρ) (A : ι → List ρ → ρ → Prop) (prog : ι → Prog σ κ ε α) (db : σ)
    (W : Watch ι σ κ ε α ρ) : Prop :=
  Relation.ReflTransGen (Step g A) (initial prog db) W

/-- The bodies keep to the lock, and what they make of the guarded part keeps its invariant. -/
structure Disciplined (g : Guard σ κ ρ) (A : ι → List ρ → ρ → Prop) (G : ι → ρ → ρ → Prop)
    (prog : ι → Prog σ κ ε α) (db : σ) : Prop where
  rechecks : ∀ i, (prog i).Rechecks g (A i) (G i) (fun r => r) []
  start : g.inv (g.part db)
  keeps : ∀ i a b, g.inv a → G i a b → g.inv b

section
variable {g : Guard σ κ ρ} {A : ι → List ρ → ρ → Prop} {G : ι → ρ → ρ → Prop}
    {prog : ι → Prog σ κ ε α}
  {db : σ} {W V : Watch ι σ κ ε α ρ}

theorem Step.next (h : Step g A W V) : Transaction.Step W.config V.config := by
  cases h with
  | exec running prog free meets => exact .exec running prog free
  | ended next ended => exact next

theorem Step.past_eq (h : Step g A W V) : V.past = W.past ++ [g.part W.config.db] := by
  cases h <;> rfl

theorem Reached.reachable (h : Reached g A prog db W) : Reachable prog db W.config := by
  induction h with
  | refl => exact .initial
  | tail _ hs ih => exact ih.step hs.next

theorem exists_step (W : Watch ι σ κ ε α ρ) {d : Config ι σ κ ε α} (h : Transaction.Step W.config d) :
    ∃ V, Step g (fun _ _ _ => True) W V ∧ V.config = d := by
  obtain ⟨c, seen, past⟩ := W
  cases h with
  | exec hrun hprog hfree => exact ⟨_, .exec hrun hprog hfree fun _ _ => trivial, rfl⟩
  | commit hrun hprog =>
    exact ⟨_, .ended (.commit hrun hprog) fun _ _ hi => (Config.running_ended (by intro u; nofun) hi).2, rfl⟩
  | exit hrun hprog =>
    exact ⟨_, .ended (.exit hrun hprog) fun _ _ hi => (Config.running_ended (by intro u; nofun) hi).2, rfl⟩
  | crash hrun =>
    exact ⟨_, .ended (.crash hrun) fun _ _ hi => (Config.running_ended (by intro u; nofun) hi).2, rfl⟩

theorem exists_run (W : Watch ι σ κ ε α ρ) {d : Config ι σ κ ε α}
    (h : Relation.ReflTransGen Transaction.Step W.config d) :
    ∃ V, Relation.ReflTransGen (Step g fun _ _ _ => True) W V ∧ V.config = d := by
  induction h with
  | refl => exact ⟨W, .refl, rfl⟩
  | tail _ next ih =>
    obtain ⟨V, hV, rfl⟩ := ih
    obtain ⟨U, hU, hd⟩ := exists_step V next
    exact ⟨U, hV.tail hU, hd⟩

theorem exists_reached {c : Config ι σ κ ε α} (h : Reachable prog db c) :
    ∃ W, Reached g (fun _ _ _ => True) prog db W ∧ W.config = c := by
  induction h with
  | initial => exact ⟨_, .refl, rfl⟩
  | step _ next ih =>
    obtain ⟨W, hW, rfl⟩ := ih
    obtain ⟨V, hV, hd⟩ := exists_step W next
    exact ⟨V, hW.tail hV, hd⟩

/-! Bodies that are safe where the part they lock meets `A`. -/

section Safe
variable {T : ι → Terms σ κ} {Q : ι → Trail σ κ → α → σ → Prop} {I : σ → Prop}

/-- Every transaction in flight is safe from the store committed now, with what it has seen on its trail. -/
def Safe (g : Guard σ κ ρ) (T : ι → Terms σ κ) (Q : ι → Trail σ κ → α → σ → Prop)
    (W : Watch ι σ κ ε α ρ) : Prop :=
  ∀ i t, W.config.threads i = .running t →
    ∃ seen, seen.map g.part = W.seen i ∧ t.prog.Safe (T i) (Q i) ⟨seen, t.locks, t.pend⟩ W.config.db

omit [DecidableEq ι] in
/-- A transaction that is about to commit keeps its promise. -/
theorem Safe.promise (h : W.Safe g T Q) {i : ι} {t : Thread σ κ ε α} {a : α}
    (hrun : W.config.threads i = .running t) (hprog : t.prog = .pure a) :
    ∃ seen, Q i ⟨seen, t.locks, t.pend⟩ a W.config.db := by
  obtain ⟨seen, -, hsafe⟩ := h i t hrun
  rw [hprog] at hsafe
  exact ⟨seen, hsafe.commit⟩

theorem Safe.step (h : W.Safe g T Q) (hs : Step g A W V) (hone : ∀ k i j, k ∈ (W.config.threads i).locks →
      k ∈ (W.config.threads j).locks → i = j)
    (hwhen : ∀ i x ks s, (g.key ∈ ks → g.key ∉ x.locks → A i (x.seen.map g.part) (g.part s)) →
      (T i).when x ks s)
    (hrely : ∀ i j x a ls, i ≠ j → Q i x a W.config.db → (∀ k ∈ x.locks, k ∉ ls) →
      (T j).rely ls W.config.db (x.pend W.config.db)) : V.Safe g T Q := by
  cases hs with
  | @exec c seen past i t l w n hrun hprog hfree hmeets =>
    intro j u hu
    rcases Config.running_setThread hu with ⟨rfl, he⟩ | ⟨hne, hj⟩
    · cases he
      obtain ⟨views, hviews, hsafe⟩ := h j t hrun
      rw [hprog] at hsafe
      refine ⟨t.view c.db :: views, ?_, hsafe c.db ((T j).refl _ _) (hwhen j _ _ _ fun hk hfree => ?_)⟩
      · simp [hviews]
      · rw [hviews]
        exact hmeets hk hfree
    · simpa only [Function.update_of_ne hne, Config.setThread_db] using h j u hj
  | @ended c d seen past hnext hended =>
    cases hnext with
    | commit hrun hprog =>
      obtain ⟨views, hQ⟩ := h.promise hrun hprog
      intro j u hu
      obtain ⟨hj, hju⟩ := Config.running_ended (by intro v; nofun) hu
      obtain ⟨views', hviews, hsafe⟩ := h j u hju
      refine ⟨views', hviews, hsafe.rely
        (hrely _ j _ _ u.locks (Ne.symm hj) hQ fun k hk hku => hj (hone k j _ ?_ ?_))⟩
      · rwa [hju]
      · rwa [hrun]
    | exec hrun hprog hfree => exact fun j u hu => h j u (hended j u hu)
    | exit hrun hprog => exact fun j u hu => h j u (hended j u hu)
    | crash hrun => exact fun j u hu => h j u (hended j u hu)

variable (hp : ∀ i, (prog i).Safe (T i) (Q i) .start db)
  (hwhen : ∀ i x ks s, (g.key ∈ ks → g.key ∉ x.locks → A i (x.seen.map g.part) (g.part s)) →
    (T i).when x ks s)
  (h0 : I db) (hI : ∀ i x a s, I s → Q i x a s → I (x.pend s))
  (hrely : ∀ i j x a ls s, i ≠ j → I s → Q i x a s → (∀ k ∈ x.locks, k ∉ ls) →
    (T j).rely ls s (x.pend s))
include hp hwhen h0 hI hrely

theorem Reached.safe (h : Reached g A prog db W) : W.Safe g T Q ∧ I W.config.db := by
  induction h with
  | refl =>
    refine ⟨fun i t ht => ?_, h0⟩
    cases ht
    exact ⟨[], rfl, hp i⟩
  | @tail U V hprior hs ih =>
    obtain ⟨hsafe, hinv⟩ := ih
    refine ⟨hsafe.step hs ((Reached.reachable hprior).exclusive ·) hwhen
      fun i j x a ls hij => hrely i j x a ls _ hij hinv, ?_⟩
    cases hs with
    | exec => exact hinv
    | ended hnext hended =>
      cases hnext with
      | commit hrun hprog =>
        obtain ⟨views, hQ⟩ := hsafe.promise hrun hprog
        exact hI _ _ _ _ hinv hQ
      | exec | exit | crash => exact hinv

/-- What every kept promise relates holds between any two stores of a run. -/
theorem Reached.leads (h : Reached g A prog db W) (hlater : Relation.ReflTransGen (Step g A) W V)
    {R : σ → σ → Prop} (hrefl : ∀ s, R s s) (htrans : ∀ s t u, R s t → R t u → R s u)
    (hR : ∀ i x a s, I s → Q i x a s → R s (x.pend s)) : R W.config.db V.config.db := by
  induction hlater with
  | refl => exact hrefl _
  | @tail U V hmid hs ih =>
    obtain ⟨hsafe, hinv⟩ := Reached.safe hp hwhen h0 hI hrely (Relation.ReflTransGen.trans h hmid)
    cases hs with
    | exec => exact ih
    | ended hnext hended =>
      cases hnext with
      | commit hrun hprog =>
        obtain ⟨views, hQ⟩ := hsafe.promise hrun hprog
        exact htrans _ _ _ ih (hR _ _ _ _ hinv hQ)
      | exec | exit | crash => exact ih

end Safe

/-- A transaction that has not taken the lock yet. -/
def Awaits (g : Guard σ κ ρ) (A : List ρ → ρ → Prop) (G : ρ → ρ → Prop) (seen : List ρ)
    (t : Thread σ κ ε α) : Prop :=
  g.key ∉ t.locks ∧ ∃ eff : ρ → ρ, (∀ s, g.part (t.pend s) = eff (g.part s)) ∧
    t.prog.Rechecks g A G eff seen

/-- Every transaction in flight waits for the lock, or holds it with what is committed now. -/
structure Guarded (g : Guard σ κ ρ) (A : ι → List ρ → ρ → Prop) (G : ι → ρ → ρ → Prop)
    (W : Watch ι σ κ ε α ρ) : Prop where
  threads : ∀ i t, W.config.threads i = .running t →
    Awaits g (A i) (G i) (W.seen i) t ∨ t.Inside g.key g.part (G i) (g.part W.config.db)
  inv : g.inv (g.part W.config.db)

omit [DecidableEq ι] in
theorem Guarded.initial (h : Disciplined g A G prog db) : (initial prog db).Guarded g A G := by
  refine ⟨fun i t ht => ?_, h.start⟩
  cases ht
  exact .inl ⟨List.not_mem_nil, fun r => r, fun _ => rfl, h.rechecks i⟩

omit [DecidableEq ι] in
/-- A thread after one of its statements. -/
theorem Guarded.exec (h : W.Guarded g A G) {i : ι} {t : Thread σ κ ε α} {l : σ → List κ} {w : σ → σ → σ}
    {n : σ → Prog σ κ ε α} (hrun : W.config.threads i = .running t) (hprog : t.prog = .stmt l w n)
    (hA : g.key ∈ l (t.view W.config.db) → g.key ∉ t.locks → A i (W.seen i) (g.part W.config.db)) :
    Awaits g (A i) (G i) (g.part (t.view W.config.db) :: W.seen i) (t.exec l w n W.config.db) ∨
      (t.exec l w n W.config.db).Inside g.key g.part (G i) (g.part W.config.db) := by
  rcases h.threads i t hrun with ⟨hfree, eff, heff, hre⟩ | ⟨hlock, cur, hpend, hheld⟩
  · rw [hprog] at hre
    have hview : eff (g.part W.config.db) = g.part (t.view W.config.db) := (heff W.config.db).symm
    obtain ⟨hout, hin⟩ := hre (t.view W.config.db) _ h.inv hview
    by_cases hk : g.key ∈ l (t.view W.config.db)
    · obtain ⟨next, hw, hn⟩ := hin hk (hA hk hfree)
      refine .inr ⟨List.mem_append_left _ hk, next, fun s hs => ?_, hn⟩
      refine hw (t.pend s) ?_
      rw [heff, hs, hview]
    · obtain ⟨f, hf, hn⟩ := hout hk
      refine .inl ⟨fun hmem => ?_, f ∘ eff, fun s => ?_, hn⟩
      · rcases List.mem_append.mp hmem with hm | hm
        · exact hk hm
        · exact hfree hm
      · exact (hf (t.pend s)).trans (congrArg f (heff s))
  · rw [hprog] at hheld
    obtain ⟨next, hw, hn⟩ := hheld (t.view W.config.db) (hpend _ rfl)
    exact .inr ⟨List.mem_append_right _ hlock, next, fun s hs => hw _ (hpend s hs), hn⟩

omit [DecidableEq ι] in
theorem Guarded.others (h : W.Guarded g A G)
    (hend : ∀ i t, V.config.threads i = .running t → W.config.threads i = .running t) (hseen : V.seen = W.seen)
    (hdb : g.part V.config.db = g.part W.config.db) : V.Guarded g A G := by
  refine ⟨fun i t ht => ?_, by rw [hdb]; exact h.inv⟩
  rw [hseen, hdb]
  exact h.threads i t (hend i t ht)

/-- One step: the guarded part stays, or one of the bodies changes it by `G`. -/
theorem Guarded.step (h : W.Guarded g A G)
    (hone : ∀ i j, g.key ∈ (W.config.threads i).locks → g.key ∈ (W.config.threads j).locks → i = j)
    (hkeeps : ∀ i a b, g.inv a → G i a b → g.inv b) (hs : Step g A W V) :
    V.Guarded g A G ∧
      (g.part V.config.db = g.part W.config.db ∨ ∃ i, G i (g.part W.config.db) (g.part V.config.db)) := by
  cases hs with
  | @exec c seen past i t l w n hrun hprog hfree hmeets =>
    refine ⟨⟨fun j u hu => ?_, h.inv⟩, .inl rfl⟩
    rcases Config.running_setThread hu with ⟨rfl, he⟩ | ⟨hj, hu⟩
    · cases he
      have hnext := h.exec hrun hprog hmeets
      simpa only [Function.update_self, Config.setThread_db] using hnext
    · have hnext := h.threads j u hu
      simpa only [Function.update_of_ne hj, Config.setThread_db] using hnext
  | @ended c d seen past hnext hended =>
    cases hnext with
    | @exec i t l w n hrun hprog hfree => exact ⟨h.others hended rfl rfl, .inl rfl⟩
    | @commit i t a hrun hprog =>
      rcases h.threads i t hrun with ⟨-, eff, heff, hre⟩ | ⟨hlock, cur, hpend, hheld⟩
      · rw [hprog] at hre
        have hsame : g.part (t.view c.db) = g.part c.db := (heff c.db).trans (hre _ h.inv)
        exact ⟨h.others hended rfl hsame, .inl hsame⟩
      · rw [hprog] at hheld
        have hcur : g.part (t.view c.db) = cur := hpend c.db rfl
        have hG : G i (g.part c.db) (g.part (t.view c.db)) := by
          rw [hcur]
          exact hheld
        refine ⟨⟨fun j u hu => ?_, hkeeps i _ _ h.inv hG⟩, .inr ⟨i, hG⟩⟩
        obtain ⟨hj, hu⟩ := Config.running_ended (by intro v; nofun) hu
        rcases h.threads j u hu with hout | ⟨hlockj, -⟩
        · exact .inl hout
        · refine absurd (hone j i ?_ ?_) hj
          · rwa [hu]
          · rwa [hrun]
    | exit hrun hprog => exact ⟨h.others hended rfl rfl, .inl rfl⟩
    | crash hrun => exact ⟨h.others hended rfl rfl, .inl rfl⟩

theorem Reached.guarded (h : Reached g A prog db W) (hp : Disciplined g A G prog db) : W.Guarded g A G := by
  induction h with
  | refl => exact .initial hp
  | tail hprior hs ih => exact (ih.step ((Reached.reachable hprior).exclusive g.key) hp.keeps hs).1

/-- The invariant of the guarded part holds in every watched run. -/
theorem Reached.inv (h : Reached g A prog db W) (hp : Disciplined g A G prog db) : g.inv (g.part W.config.db) :=
  (h.guarded hp).inv

/-- What a transaction has seen still stands to the part by `R`, if a part stands so to itself and no `G`
ends it. -/
theorem Reached.remembers (h : Reached g A prog db W) (hp : Disciplined g A G prog db) {τ : Type} {view : ρ → τ}
    {R : τ → ρ → Prop} {i : ι} (hi : (prog i).Reads g view) (hself : ∀ r, R (view r) r)
    (hstep : ∀ j x a b, g.inv a → R x a → G j a b → R x b) :
    ∀ t, W.config.threads i = .running t → g.key ∉ t.locks →
      (∀ s, view (g.part (t.pend s)) = view (g.part s)) ∧ t.prog.Reads g view ∧
        ∀ p ∈ W.seen i, R (view p) (g.part W.config.db) := by
  induction h with
  | refl =>
    intro t ht _
    cases ht
    exact ⟨fun _ => rfl, hi, by simp [initial]⟩
  | @tail U V hprior hs ih =>
    have hreach : Reached g A prog db U := hprior
    have hchange := ((hreach.guarded hp).step (hreach.reachable.exclusive g.key) hp.keeps hs).2
    have hlater : ∀ x, R x (g.part U.config.db) → R x (g.part V.config.db) := by
      intro x hx
      rcases hchange with he | ⟨j, hg⟩
      · rwa [he]
      · exact hstep j x _ _ (hreach.guarded hp).inv hx hg
    intro t ht hfree
    cases hs with
    | @exec c seen past j u l w n hrun hprog hfr hmeets =>
      rcases Config.running_setThread ht with ⟨rfl, he⟩ | ⟨hne, hu⟩
      · cases he
        simp only [Thread.exec, List.mem_append, not_or] at hfree
        obtain ⟨hpend, hreads, hseen⟩ := ih u hrun hfree.2
        rw [hprog] at hreads
        obtain ⟨hkeeps, hnext⟩ := hreads _ hfree.1
        refine ⟨fun s => (hkeeps (u.pend s)).trans (hpend s), hnext, fun p hp' => ?_⟩
        simp only [Function.update_self, List.mem_cons] at hp'
        rcases hp' with rfl | hmem
        · have hview : view (g.part (u.view c.db)) = view (g.part c.db) := hpend c.db
          rw [hview]
          exact hself _
        · exact hseen p hmem
      · obtain ⟨hpend, hreads, hseen⟩ := ih t hu hfree
        refine ⟨hpend, hreads, fun p hp' => ?_⟩
        simp only [Function.update_of_ne hne] at hp'
        exact hseen p hp'
    | @ended c d seen past hnext hended =>
      obtain ⟨hpend, hreads, hseen⟩ := ih t (hended i t ht) hfree
      exact ⟨hpend, hreads, fun p hp' => hlater _ (hseen p hp')⟩

/-- A fact about what was seen that holds at every lock may be used there. -/
theorem Reached.strengthen {B : ι → List ρ → ρ → Prop} {A' : ι → List ρ → ρ → Prop}
    (hA' : ∀ i seen r, A' i seen r ↔ A i seen r ∧ B i seen r)
    (hB : ∀ W, Reached g A' prog db W → ∀ i t, W.config.threads i = .running t → g.key ∉ t.locks →
      B i (W.seen i) (g.part W.config.db)) (h : Reached g A prog db W) : Reached g A' prog db W := by
  induction h with
  | refl => exact .refl
  | @tail U V hprior hs ih =>
    refine .tail ih ?_
    cases hs with
    | exec hrun hprog hfr hmeets =>
      refine .exec hrun hprog hfr fun hk hfree => (hA' _ _ _).mpr ⟨hmeets hk hfree, ?_⟩
      exact hB _ ih _ _ hrun hfree
    | ended hnext hended => exact .ended hnext hended

/-- A step of a watched run leaves the guarded part, or changes it by one `G`. -/
theorem Reached.changes (h : Reached g A prog db W) (hs : Step g A W V) (hp : Disciplined g A G prog db) :
    g.part V.config.db = g.part W.config.db ∨ ∃ i, G i (g.part W.config.db) (g.part V.config.db) :=
  ((h.guarded hp).step (h.reachable.exclusive g.key) hp.keeps hs).2

/-- A number that counts how often `p` comes to hold tells it of the whole run. -/
theorem Reached.rises_eq (h : Reached g A prog db W) (hp : Disciplined g A G prog db) {p : ρ → Bool}
    {count : ρ → Nat} (h0 : count (g.part db) = 0)
    (hG : ∀ i a b, g.inv a → G i a b → count b = count a + if !p a && p b then 1 else 0) :
    rises p (W.past ++ [g.part W.config.db]) = count (g.part W.config.db) := by
  induction h with
  | refl => exact h0.symm
  | @tail U V hprior hs ih =>
    have hreach : Reached g A prog db U := hprior
    rw [hs.past_eq, rises_snoc, ih]
    rcases hreach.changes hs hp with he | ⟨i, hg⟩
    · simp [he]
    · exact (hG i _ _ (hreach.inv hp) hg).symm

/-- What no `G` changes of a part stays from then on. -/
theorem Reached.settled (h : Reached g A prog db W) (hlater : Relation.ReflTransGen (Step g A) W V)
    (hp : Disciplined g A G prog db) {τ : Type} {v : ρ → τ} {F : ρ → Prop} (hF : F (g.part W.config.db))
    (hG : ∀ i a b, g.inv a → F a → G i a b → F b ∧ v b = v a) :
    F (g.part V.config.db) ∧ v (g.part V.config.db) = v (g.part W.config.db) := by
  induction hlater with
  | refl => exact ⟨hF, rfl⟩
  | tail hmid hs ih =>
    have hreach : Reached g A prog db _ := h.trans hmid
    rcases hreach.changes hs hp with he | ⟨i, hg⟩
    · rwa [he]
    · obtain ⟨hFb, hview⟩ := hG i _ _ (hreach.inv hp) ih.1 hg
      exact ⟨hFb, hview.trans ih.2⟩

end

section
variable [Fintype ι] [DecidableEq κ]

/-- Play one move while `P` finds the part that is locked in order. -/
def move (g : Guard σ κ ρ) (P : ι → List ρ → ρ → Bool) (W : Watch ι σ κ ε α ρ) (m : Move ι) :
    Option (Watch ι σ κ ε α ρ) :=
  match m with
  | .exec i =>
    match W.config.threads i with
    | .running ⟨.stmt l w n, pend, locks⟩ =>
      if (∀ j, j ≠ i → ∀ x ∈ l (pend W.config.db), x ∉ (W.config.threads j).locks) ∧
          (g.key ∈ l (pend W.config.db) → g.key ∉ locks → P i (W.seen i) (g.part W.config.db) = true) then
        some ⟨W.config.setThread i (.running (Thread.exec ⟨.stmt l w n, pend, locks⟩ l w n W.config.db)),
          Function.update W.seen i (g.part (pend W.config.db) :: W.seen i), W.past ++ [g.part W.config.db]⟩
      else none
    | _ => none
  | .finish i =>
    match W.config.threads i with
    | .running ⟨.pure a, pend, _⟩ =>
      some ⟨{ W.config.setThread i (.committed a) with
        db := pend W.config.db, log := W.config.log ++ [(i, .ok a)] }, W.seen, W.past ++ [g.part W.config.db]⟩
    | .running ⟨.fail e, _, _⟩ =>
      some ⟨{ W.config.setThread i .aborted with log := W.config.log ++ [(i, .error e)] }, W.seen,
        W.past ++ [g.part W.config.db]⟩
    | _ => none
  | .crash i =>
    match W.config.threads i with
    | .running _ => some ⟨W.config.setThread i .aborted, W.seen, W.past ++ [g.part W.config.db]⟩
    | _ => none

theorem move_sound {g : Guard σ κ ρ} {P : ι → List ρ → ρ → Bool} {A : ι → List ρ → ρ → Prop}
    (hP : ∀ i seen r, P i seen r = true → A i seen r) {W V : Watch ι σ κ ε α ρ} {m : Move ι}
    (h : W.move g P m = some V) : Step g A W V := by
  cases m with
  | exec i =>
    simp only [move] at h
    split at h
    · next l w n pend locks hrun =>
      split_ifs at h with hmeets
      cases h
      exact .exec hrun rfl hmeets.1 fun hk hfree => hP _ _ _ (hmeets.2 hk hfree)
    · cases h
  | finish i =>
    simp only [move] at h
    split at h
    · next hrun =>
      cases h
      exact .ended (.commit hrun rfl) fun j t ht => (Config.running_ended (by intro u; nofun) ht).2
    · next hrun =>
      cases h
      exact .ended (.exit hrun rfl) fun j t ht => (Config.running_ended (by intro u; nofun) ht).2
    · cases h
  | crash i =>
    simp only [move] at h
    split at h
    · next hrun =>
      cases h
      exact .ended (.crash hrun) fun j t ht => (Config.running_ended (by intro u; nofun) ht).2
    · cases h

def play (g : Guard σ κ ρ) (P : ι → List ρ → ρ → Bool) (W : Watch ι σ κ ε α ρ) (ms : List (Move ι)) :
    Option (Watch ι σ κ ε α ρ) := ms.foldlM (move g P) W

theorem play_steps {g : Guard σ κ ρ} {P : ι → List ρ → ρ → Bool} {A : ι → List ρ → ρ → Prop}
    (hP : ∀ i seen r, P i seen r = true → A i seen r) {W V : Watch ι σ κ ε α ρ} {ms : List (Move ι)}
    (h : W.play g P ms = some V) : Relation.ReflTransGen (Step g A) W V := by
  induction ms generalizing W with
  | nil =>
    cases h
    exact .refl
  | cons m ms ih =>
    simp only [play, List.foldlM_cons] at h
    obtain ⟨W', hm, hV⟩ := Option.bind_eq_some_iff.mp h
    exact .head (move_sound hP hm) (ih hV)

/-- A watched run found by playing, with what can be computed about it half way and at its end. -/
theorem Reached.of_play {g : Guard σ κ ρ} {P : ι → List ρ → ρ → Bool} {A : ι → List ρ → ρ → Prop}
    (hP : ∀ i seen r, P i seen r = true → A i seen r) (prog : ι → Prog σ κ ε α) (db : σ)
    (ms ms' : List (Move ι)) (Q R : Watch ι σ κ ε α ρ → Bool)
    (h : ((initial prog db).play g P ms).any (fun W => Q W && (W.play g P ms').any R) = true) :
    ∃ W V, Reached g A prog db W ∧ Relation.ReflTransGen (Step g A) W V ∧ Q W = true ∧ R V = true := by
  obtain ⟨W, hW, hQR⟩ := (Option.any_eq_true _ _).mp h
  obtain ⟨hQ, hR⟩ := Bool.and_eq_true_iff.mp hQR
  obtain ⟨V, hV, hRV⟩ := (Option.any_eq_true _ _).mp hR
  exact ⟨W, V, play_steps hP hW, play_steps hP hV, hQ, hRV⟩

end

end Watch

end Noxara.Transaction
