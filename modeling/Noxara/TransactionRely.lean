import Noxara.TransactionLocks

/-! Rely and guarantee for transactions side by side. A body is judged alone: before each of its
statements and before its commit the committed store may have changed in any way it relies on, and
its own commit keeps its promise. When every promise is within what the others rely on, bodies
that are safe alone stay safe in every interleaving. -/
namespace Noxara.Transaction

variable {ι σ κ ε α β : Type}

/-- What a transaction has done so far: the stores its statements saw, the last first, the rows it
locked, and its own writes. -/
structure Trail (σ κ : Type) where
  seen : List σ
  locks : List κ
  pend : σ → σ

namespace Trail

def start : Trail σ κ := ⟨[], [], id⟩

/-- After one more statement on the committed store `s`. -/
def push (x : Trail σ κ) (l : σ → List κ) (w : σ → σ → σ) (s : σ) : Trail σ κ :=
  ⟨x.pend s :: x.seen, l (x.pend s) ++ x.locks, w (x.pend s) ∘ x.pend⟩

/-- After one more plain read. -/
def look (x : Trail σ κ) (s : σ) : Trail σ κ := ⟨x.pend s :: x.seen, x.locks, x.pend⟩

end Trail

/-- What a body may count on: `rely ls` are the changes of the committed store while it holds the
locks `ls`, and `when` is what holds where it executes a statement that asks for given locks. -/
structure Terms (σ κ : Type) where
  rely : List κ → σ → σ → Prop
  when : Trail σ κ → List κ → σ → Prop
  refl : ∀ ls s, rely ls s s
  trans : ∀ {ls s t u}, rely ls s t → rely ls t u → rely ls s u
  anti : ∀ {ls ls' s t}, (∀ k ∈ ls, k ∈ ls') → rely ls' s t → rely ls s t

namespace Prog

/-- What is left of a body whose statements saw these stores, the last first. -/
def afterAll (p : Prog σ κ ε α) (seen : List σ) : Prog σ κ ε α := seen.foldr after p

/-- Every commit of the body keeps the promise `Q`, which relates its trail, its answer and the
store it commits to. -/
def Safe (T : Terms σ κ) (Q : Trail σ κ → α → σ → Prop) : Prog σ κ ε α → Trail σ κ → σ → Prop
  | pure a, x, s => ∀ s', T.rely x.locks s s' → Q x a s'
  | fail _, _, _ => True
  | stmt l w n, x, s => ∀ s', T.rely x.locks s s' → T.when x (l (x.pend s')) s' →
      (n (x.pend s')).Safe T Q (x.push l w s') s'

variable {T : Terms σ κ} {Q : Trail σ κ → α → σ → Prop} {R : Trail σ κ → β → σ → Prop}
  {x : Trail σ κ} {s : σ}

theorem Safe.rely {p : Prog σ κ ε α} (h : p.Safe T Q x s) {s' : σ} (hs : T.rely x.locks s s') :
    p.Safe T Q x s' := by
  cases p with
  | pure a => exact fun u hu => h u (T.trans hs hu)
  | fail e => trivial
  | stmt l w n => exact fun u hu hw => h u (T.trans hs hu) hw

theorem Safe.commit {a : α} (h : (pure a : Prog σ κ ε α).Safe T Q x s) : Q x a s :=
  h s (T.refl _ _)

theorem Safe.bind {p : Prog σ κ ε α} {f : α → Prog σ κ ε β}
    (h : p.Safe T (fun y a u => (f a).Safe T R y u) x s) : (p >>= f).Safe T R x s := by
  induction p generalizing x s with
  | pure a => exact h.commit
  | fail e => trivial
  | stmt l w n ih => exact fun u hu hw => ih _ (h u hu hw)

theorem Safe.mono {Q' : Trail σ κ → α → σ → Prop} {p : Prog σ κ ε α} (h : p.Safe T Q x s)
    (hq : ∀ y a u, Q y a u → Q' y a u) : p.Safe T Q' x s := by
  induction p generalizing x s with
  | pure a => exact fun u hu => hq _ _ _ (h u hu)
  | fail e => trivial
  | stmt l w n ih => exact fun u hu hw => ih _ (h u hu hw)

theorem Safe.pure {a : α} (h : ∀ u, T.rely x.locks s u → Q x a u) :
    (Pure.pure a : Prog σ κ ε α).Safe T Q x s := h

theorem Safe.ofExcept_bind {y : Except ε α} {f : α → Prog σ κ ε β}
    (h : ∀ a, y = .ok a → (f a).Safe T R x s) : (ofExcept y >>= f).Safe T R x s := by
  cases y with
  | error e => trivial
  | ok a => exact h a rfl

theorem Safe.require_bind {c : Prop} [Decidable c] {e : ε} {f : Unit → Prog σ κ ε β}
    (h : c → (f ()).Safe T R x s) : (require c e >>= f).Safe T R x s := by
  unfold require
  split_ifs with hc
  · exact h hc
  · trivial

theorem Safe.okOr_bind {y : Option α} {e : ε} {f : α → Prog σ κ ε β}
    (h : ∀ a, y = some a → (f a).Safe T R x s) : (okOr y e >>= f).Safe T R x s := by
  cases y with
  | none => trivial
  | some a => exact h a rfl

theorem Safe.query_bind {g : σ → α} {f : α → Prog σ κ ε β}
    (h : ∀ u, T.rely x.locks s u → T.when x [] u → (f (g (x.pend u))).Safe T R (x.look u) u) :
    (query g >>= f).Safe T R x s := h

theorem Safe.queryForUpdate_bind {l : σ → List κ} {g : σ → α} {f : α → Prog σ κ ε β}
    (h : ∀ u, T.rely x.locks s u → T.when x (l (x.pend u)) u →
      (f (g (x.pend u))).Safe T R (x.push l (fun _ t => t) u) u) :
    (queryForUpdate l g >>= f).Safe T R x s := h

/-- A write that its check lets through; where the check refuses, the body ends. -/
theorem Safe.executeReturning_bind {l : σ → List κ} {c : σ → Except ε α} {w : σ → σ → σ}
    {f : α → Prog σ κ ε β}
    (h : ∀ u a, T.rely x.locks s u → T.when x (l (x.pend u)) u → c (x.pend u) = .ok a →
      (f a).Safe T R (x.push l w u) u) :
    (executeReturning l c w >>= f).Safe T R x s := by
  intro u hu hw
  have hnext := h u
  simp only [Trail.push] at hnext ⊢
  cases hc : c (x.pend u) with
  | ok a => exact hnext a hu hw hc
  | error e => trivial

theorem Safe.execute_bind {l : σ → List κ} {c : σ → Except ε Unit} {w : σ → σ → σ}
    {f : Unit → Prog σ κ ε β}
    (h : ∀ u, T.rely x.locks s u → T.when x (l (x.pend u)) u → c (x.pend u) = .ok () →
      (f ()).Safe T R (x.push l w u) u) :
    (execute l c w >>= f).Safe T R x s := by
  rw [execute_eq]
  exact Safe.executeReturning_bind fun u _ => h u

/-- A body whose further writes are within `W` commits one of them on top of what it wrote before,
to a store that others changed only as the locks it had then let them. -/
theorem Safe.of_writes {W : (σ → σ) → Prop} (hid : W id) (hcomp : ∀ f g, W f → W g → W (f ∘ g))
    {p : Prog σ κ ε α} (hp : p.Writes W)
    (hq : ∀ y f a u, W f → y.pend = f ∘ x.pend → (∀ k ∈ x.locks, k ∈ y.locks) →
      T.rely x.locks s u → Q y a u) : p.Safe T Q x s := by
  suffices hgo : ∀ (p : Prog σ κ ε α) (y : Trail σ κ) (u : σ) (f : σ → σ), p.Writes W → W f →
      y.pend = f ∘ x.pend → (∀ k ∈ x.locks, k ∈ y.locks) → T.rely x.locks s u → p.Safe T Q y u from
    hgo p x s id hp hid rfl (fun _ hk => hk) (T.refl _ _)
  intro p
  induction p with
  | pure a =>
    intro y u f _ hf hy hk hu u' hu'
    exact hq y f a u' hf hy hk (T.trans hu (T.anti hk hu'))
  | fail e => exact fun _ _ _ _ _ _ _ _ => trivial
  | stmt l w n ih =>
    intro y u f hp hf hy hk hu u' hu' _
    obtain ⟨hw, hn⟩ := hp (y.pend u')
    refine ih _ _ _ (w (y.pend u') ∘ f) hn (hcomp _ _ hw hf) ?_ ?_ (T.trans hu (T.anti hk hu'))
    · change w (y.pend u') ∘ y.pend = _
      rw [hy]
      rfl
    · exact fun k hkx => List.mem_append_right _ (hk k hkx)

/-- A body whose locks freeze the part `π` of the store at `base` commits what it makes of it there. -/
theorem Safe.of_held {ρ : Type} {π : σ → ρ} {g : ρ → Prop} {ks : List κ} {base cur : ρ}
    {p : Prog σ κ ε α} (hp : p.Held π g cur) (hs : π s = base) (hks : ∀ k ∈ ks, k ∈ x.locks)
    (hpend : ∀ t, π t = base → π (x.pend t) = cur)
    (hfrozen : ∀ ls t u, (∀ k ∈ ks, k ∈ ls) → T.rely ls t u → π t = base → π u = base)
    (hq : ∀ y a u, (∀ k ∈ ks, k ∈ y.locks) → π u = base → g (π (y.pend u)) → Q y a u) :
    p.Safe T Q x s := by
  induction p generalizing x s cur with
  | pure a =>
    intro u hu
    have hbase := hfrozen _ _ _ hks hu hs
    refine hq x a u hks hbase ?_
    rw [hpend u hbase]
    exact hp
  | fail e => trivial
  | stmt l w n ih =>
    intro u hu _
    have hbase := hfrozen _ _ _ hks hu hs
    obtain ⟨next, hw, hn⟩ := hp (x.pend u) (hpend u hbase)
    exact ih _ hn hbase (fun k hk => List.mem_append_right _ (hks k hk)) fun t ht => hw _ (hpend t ht)

/-- The trail only grows. -/
theorem Safe.extends {p : Prog σ κ ε α}
    (h : p.Safe T (fun y a u => (∃ more, y.seen = more ++ x.seen) → Q y a u) x s) :
    p.Safe T Q x s := by
  suffices hgo : ∀ (p : Prog σ κ ε α) (y : Trail σ κ) (u : σ), (∃ more, y.seen = more ++ x.seen) →
      p.Safe T (fun y a u => (∃ more, y.seen = more ++ x.seen) → Q y a u) y u → p.Safe T Q y u from
    hgo p x s ⟨[], rfl⟩ h
  intro p
  induction p with
  | pure a => exact fun y u hy hp v hv => hp v hv hy
  | fail e => exact fun _ _ _ _ => trivial
  | stmt l w n ih =>
    rintro y u ⟨more, hmore⟩ hp v hv hw
    refine ih _ _ _ ⟨y.pend v :: more, ?_⟩ (hp v hv hw)
    change y.pend v :: y.seen = _
    rw [hmore]
    rfl

/-- A plain read with what it hands on. -/
theorem afterAll_look {p : Prog σ κ ε α} {x : Trail σ κ} {g : σ → β} {f : β → Prog σ κ ε α}
    (h : p.afterAll x.seen = query g >>= f) (s : σ) :
    p.afterAll (x.look s).seen = f (g (x.pend s)) := by
  change (p.afterAll x.seen).after (x.pend s) = _
  rw [h]
  rfl

theorem afterAll_append (p : Prog σ κ ε α) (xs ys : List σ) :
    p.afterAll (ys ++ xs) = (p.afterAll xs).afterAll ys := List.foldr_append

/-- Every statement of the body meets `A`, which relates what was seen before it, the last first,
to its locks and its write. -/
def Throughout (A : List σ → (σ → List κ) → (σ → σ → σ) → Prop) :
    Prog σ κ ε α → List σ → Prop
  | pure _, _ => True
  | fail _, _ => True
  | stmt l w n, seen => A seen l w ∧ ∀ v, (n v).Throughout A (v :: seen)

section
variable {A : List σ → (σ → List κ) → (σ → σ → σ) → Prop} {xs : List σ}

theorem Throughout.ofExcept_bind {y : Except ε α} {f : α → Prog σ κ ε β}
    (h : ∀ a, y = .ok a → (f a).Throughout A xs) : (ofExcept y >>= f).Throughout A xs := by
  cases y with
  | error e => trivial
  | ok a => exact h a rfl

theorem Throughout.require_bind {c : Prop} [Decidable c] {e : ε} {f : Unit → Prog σ κ ε β}
    (h : (f ()).Throughout A xs) : (require c e >>= f).Throughout A xs := by
  unfold require
  split_ifs
  · exact h
  · trivial

theorem Throughout.query_bind {g : σ → α} {f : α → Prog σ κ ε β}
    (hA : A xs (fun _ => []) fun _ s => s) (h : ∀ u, (f (g u)).Throughout A (u :: xs)) :
    (query g >>= f).Throughout A xs := ⟨hA, h⟩

theorem Throughout.execute_bind {l : σ → List κ} {c : σ → Except ε Unit} {w : σ → σ → σ}
    {f : Unit → Prog σ κ ε β}
    (hA : A xs l fun v s => match c v with | .ok _ => w v s | .error _ => s)
    (h : ∀ u, (f ()).Throughout A (u :: xs)) : (execute l c w >>= f).Throughout A xs := by
  refine ⟨hA, fun u => ?_⟩
  cases hc : c u with
  | ok _ =>
    simp only [hc]
    exact h u
  | error e =>
    simp only [hc]
    trivial

end

/-- So does the statement that a body goes on with. -/
theorem Throughout.afterAll {A : List σ → (σ → List κ) → (σ → σ → σ) → Prop} {p : Prog σ κ ε α}
    {xs seen : List σ} {l : σ → List κ} {w : σ → σ → σ} {n : σ → Prog σ κ ε α}
    (h : p.Throughout A xs) (hp : p.afterAll seen = stmt l w n) : A (seen ++ xs) l w := by
  induction seen using List.reverseRecOn generalizing p xs with
  | nil =>
    obtain rfl : p = stmt l w n := hp
    exact h.1
  | append_singleton ys v ih =>
    rw [afterAll_append] at hp
    rw [List.append_assoc]
    cases p with
    | pure a =>
      exact ih (p := .pure a) trivial hp
    | fail e => exact ih (p := .fail e) trivial hp
    | stmt l' w' n' => exact ih (h.2 v) hp

end Prog

/-- From `c` to `d` the transaction `i`, with trail `x`, executes a statement that asks for the
locks `ks`. -/
def Config.Asks [DecidableEq ι] (prog : ι → Prog σ κ ε α) (c d : Config ι σ κ ε α) (i : ι)
    (x : Trail σ κ) (ks : List κ) : Prop :=
  ∃ t l w n, c.threads i = .running t ∧ t.prog = .stmt l w n ∧ t.prog = (prog i).afterAll x.seen ∧
    x.locks = t.locks ∧ x.pend = t.pend ∧ ks = l (t.view c.db) ∧
    d = c.setThread i (.running (t.exec l w n c.db))

/-- The locks that the next statement of a transaction asks for. -/
def Config.nextLocks (c : Config ι σ κ ε α) (i : ι) : List κ :=
  match c.threads i with
  | .running ⟨.stmt l _ _, pend, _⟩ => l (pend c.db)
  | _ => []

theorem Config.Asks.nextLocks [DecidableEq ι] {prog : ι → Prog σ κ ε α} {c d : Config ι σ κ ε α} {i : ι}
    {x : Trail σ κ} {ks : List κ} (h : c.Asks prog d i x ks) : c.nextLocks i = ks := by
  obtain ⟨⟨p, pend, locks⟩, l, w, n, hrun, hstmt, -, -, -, hks, -⟩ := h
  obtain rfl : p = .stmt l w n := hstmt
  rw [hks, Config.nextLocks, hrun]
  rfl

/-- Every transaction in flight is safe from the store committed now. -/
def Config.Safe (T : ι → Terms σ κ) (Q : ι → Trail σ κ → α → σ → Prop)
    (prog : ι → Prog σ κ ε α)
    (c : Config ι σ κ ε α) : Prop :=
  ∀ i t, c.threads i = .running t → ∃ seen, t.prog = (prog i).afterAll seen ∧
    t.prog.Safe (T i) (Q i) ⟨seen, t.locks, t.pend⟩ c.db

section Runs
variable {T : ι → Terms σ κ} {Q : ι → Trail σ κ → α → σ → Prop} {prog : ι → Prog σ κ ε α}
  {c d : Config ι σ κ ε α}

theorem Config.Safe.initial {db : σ} (hp : ∀ i, (prog i).Safe (T i) (Q i) .start db) :
    (Config.initial prog db).Safe T Q prog := by
  intro i t ht
  cases ht
  exact ⟨[], rfl, hp i⟩

/-- A transaction that is about to commit keeps its promise. -/
theorem Config.Safe.promise (h : c.Safe T Q prog) {i : ι} {t : Thread σ κ ε α} {a : α}
    (hrun : c.threads i = .running t) (hprog : t.prog = .pure a) :
    ∃ x : Trail σ κ, x.locks = t.locks ∧ x.pend = t.pend ∧
      (prog i).afterAll x.seen = .pure a ∧ Q i x a c.db := by
  obtain ⟨seen, hseen, hsafe⟩ := h i t hrun
  rw [hprog] at hsafe hseen
  exact ⟨⟨seen, t.locks, t.pend⟩, rfl, rfl, hseen.symm, hsafe.commit⟩

variable [DecidableEq ι]

/-- Safe transactions after a step, where what one commits is within what the others rely on. -/
theorem Config.Safe.step (h : c.Safe T Q prog) (hone : ∀ k i j, k ∈ (c.threads i).locks →
    k ∈ (c.threads j).locks → i = j) (hs : Step c d)
    (hwhen : ∀ i x ks, c.Asks prog d i x ks → (T i).when x ks c.db)
    (hrely : ∀ i j x a ls, i ≠ j → Q i x a c.db → (∀ k ∈ x.locks, k ∉ ls) →
      (T j).rely ls c.db (x.pend c.db)) : d.Safe T Q prog := by
  cases hs with
  | @exec i t l w n hrun hprog hfree =>
    intro j u hu
    rcases Config.running_setThread hu with ⟨rfl, he⟩ | ⟨_, hj⟩
    · cases he
      obtain ⟨seen, hseen, hsafe⟩ := h j t hrun
      refine ⟨t.view c.db :: seen, ?_, ?_⟩
      · change n (t.view c.db) = ((prog j).afterAll seen).after (t.view c.db)
        rw [← hseen, hprog]
        rfl
      · have hask : c.Asks prog _ j ⟨seen, t.locks, t.pend⟩ (l (t.view c.db)) :=
          ⟨t, l, w, n, hrun, hprog, hseen, rfl, rfl, rfl, rfl⟩
        rw [hprog] at hsafe
        exact hsafe c.db ((T j).refl _ _) (hwhen j _ _ hask)
    · exact h j u hj
  | @commit i t a hrun hprog =>
    intro j u hu
    obtain ⟨hj, hju⟩ := Config.running_ended (s := .committed a) (by intro v; nofun) hu
    obtain ⟨seen, hseen, hsafe⟩ := h j u hju
    obtain ⟨x, hlocks, hpend, _, hQ⟩ := h.promise hrun hprog
    refine ⟨seen, hseen, hsafe.rely ?_⟩
    have hr := hrely i j x a u.locks (Ne.symm hj) hQ fun k hk hku => by
      refine hj (hone k j i ?_ ?_)
      · rwa [hju]
      · rw [hrun]
        rwa [hlocks] at hk
    rwa [hpend] at hr
  | exit hrun hprog =>
    intro j u hu
    exact h j u (Config.running_ended (by intro v; nofun) hu).2
  | crash hrun =>
    intro j u hu
    exact h j u (Config.running_ended (by intro v; nofun) hu).2

variable {K : Config ι σ κ ε α → Config ι σ κ ε α → Prop} {db : σ}

/-- Bodies that are safe alone are safe in every run whose steps meet their premises, and what every
kept promise preserves holds of every store committed there. What others rely on may be promised for
such stores only. -/
theorem ReachableWhere.safe_and_invariant (h : ReachableWhere K prog db c)
    (hp : ∀ i, (prog i).Safe (T i) (Q i) .start db)
    (hwhen : ∀ c d i x ks, K c d → c.Asks prog d i x ks → (T i).when x ks c.db)
    {I : σ → Prop} (h0 : I db) (hI : ∀ i x a s, I s → Q i x a s → I (x.pend s))
    (hrely : ∀ i j x a ls s, i ≠ j → I s → Q i x a s → (∀ k ∈ x.locks, k ∉ ls) →
      (T j).rely ls s (x.pend s)) : c.Safe T Q prog ∧ I c.db := by
  induction h with
  | initial => exact ⟨.initial hp, h0⟩
  | step prior next meets ih =>
    obtain ⟨hsafe, hinv⟩ := ih
    refine ⟨hsafe.step prior.reachable.exclusive next (fun i x ks => hwhen _ _ i x ks meets)
      fun i j x a ls hij => hrely i j x a ls _ hij hinv, ?_⟩
    cases next with
    | commit hrun hprog =>
      obtain ⟨x, _, hpend, _, hQ⟩ := hsafe.promise hrun hprog
      have := hI _ x _ _ hinv hQ
      rwa [hpend] at this
    | exec | exit | crash => exact hinv

theorem ReachableWhere.safe (h : ReachableWhere K prog db c)
    (hp : ∀ i, (prog i).Safe (T i) (Q i) .start db)
    (hwhen : ∀ c d i x ks, K c d → c.Asks prog d i x ks → (T i).when x ks c.db)
    (hrely : ∀ i j x a ls s, i ≠ j → Q i x a s → (∀ k ∈ x.locks, k ∉ ls) →
      (T j).rely ls s (x.pend s)) : c.Safe T Q prog :=
  (h.safe_and_invariant hp hwhen (I := fun _ => True) trivial (fun _ _ _ _ _ _ => trivial)
    fun i j x a ls s hij _ => hrely i j x a ls s hij).1

theorem ReachableWhere.safe_invariant (h : ReachableWhere K prog db c)
    (hp : ∀ i, (prog i).Safe (T i) (Q i) .start db)
    (hwhen : ∀ c d i x ks, K c d → c.Asks prog d i x ks → (T i).when x ks c.db)
    (hrely : ∀ i j x a ls s, i ≠ j → Q i x a s → (∀ k ∈ x.locks, k ∉ ls) →
      (T j).rely ls s (x.pend s)) {I : σ → Prop} (h0 : I db)
    (hI : ∀ i x a s, I s → Q i x a s → I (x.pend s)) : I c.db :=
  (h.safe_and_invariant hp hwhen h0 hI fun i j x a ls s hij _ => hrely i j x a ls s hij).2

end Runs

/-! What holds of the log and the committed store at every commit, where a run only makes commits that meet a
condition on their transaction and on the store they commit to. -/

section Commits
variable [DecidableEq ι]

/-- From `c` to `d` the transaction `i`, with trail `x`, commits with the answer `a`. -/
def Config.Commits (prog : ι → Prog σ κ ε α) (c d : Config ι σ κ ε α) (i : ι) (x : Trail σ κ)
    (a : α) : Prop :=
  ∃ t, c.threads i = .running t ∧ t.prog = .pure a ∧ (prog i).afterAll x.seen = .pure a ∧ x.locks = t.locks ∧
    x.pend = t.pend ∧ d.threads i = .committed a

/-- A transaction that has only to commit. -/
def Config.finishing (c : Config ι σ κ ε α) (i : ι) : Bool :=
  match c.threads i with
  | .running ⟨.pure _, _, _⟩ => true
  | _ => false

omit [DecidableEq ι] in
theorem Config.Commits.finishing {prog : ι → Prog σ κ ε α} {c d : Config ι σ κ ε α} {i : ι}
    {x : Trail σ κ} {a : α}
    (h : c.Commits prog d i x a) : c.finishing i = true := by
  obtain ⟨⟨p, pend, locks⟩, hrun, hpure, -⟩ := h
  obtain rfl : p = .pure a := hpure
  rw [Config.finishing, hrun]

variable {T : ι → Terms σ κ} {Q : ι → Trail σ κ → α → σ → Prop} {prog : ι → Prog σ κ ε α}
    {db : σ}
  {K : Config ι σ κ ε α → Config ι σ κ ε α → Prop} {c : Config ι σ κ ε α}

/-- What kept promises preserve where commits meet their premises `P`, and exits leave, holds of the log and
the store in every run of safe bodies. -/
theorem ReachableWhere.commits_invariant (h : ReachableWhere K prog db c)
    (hsafe : ∀ c, ReachableWhere K prog db c → c.Safe T Q prog) {P : ι → Trail σ κ → α → σ → Prop}
    (hP : ∀ c d i x a, K c d → c.Commits prog d i x a → P i x a c.db)
    {I : List (ι × Except ε α) → σ → Prop} (h0 : I [] db)
    (hI : ∀ i x a log s, I log s → Q i x a s → P i x a s → I (log ++ [(i, .ok a)]) (x.pend s))
    (hexit : ∀ i e log s, I log s → I (log ++ [(i, .error e)]) s) : I c.log c.db := by
  induction h with
  | initial => exact h0
  | @step c d prior next meets ih =>
    cases next with
    | exec => exact ih
    | @commit i t a hrun hprog =>
      obtain ⟨x, hlocks, hpend, hdone, hQ⟩ := (hsafe c prior).promise hrun hprog
      have hcommit : c.Commits prog _ i x a :=
        ⟨t, hrun, hprog, hdone, hlocks, hpend, c.setThread_same i _⟩
      have hnext := hI i x a c.log c.db ih hQ (hP _ _ i x a meets hcommit)
      rwa [hpend] at hnext
    | exit => exact hexit _ _ _ _ ih
    | crash => exact ih

end Commits

end Noxara.Transaction
