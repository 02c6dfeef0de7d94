import Noxara.TransactionCover

/-! Transactions that take effect at their commit. What a statement reads stays as it is, under the locks that the
transaction then holds, until the transaction ends. So the body alone on the store it commits to would answer and
write the same, and the transactions that commit make one after another what they make side by side. -/
namespace Noxara.Transaction

variable {ι σ κ ε α β : Type}

namespace Prog

/-- Alone on what the transaction sees when it commits, the body answers and writes the same. -/
def TakesEffect (T : Terms σ κ) (p : Prog σ κ ε α) (x : Trail σ κ) (s : σ) : Prop :=
  p.Safe T (fun y a t => p.run (x.pend t) = .ok (a, y.pend t)) x s

/-- A statement that, under its locks, would write and hand on the same until the commit. -/
theorem TakesEffect.stmt {T : Terms σ κ} {x : Trail σ κ} {s : σ} {l : σ → List κ} {w : σ → σ → σ}
    {n : σ → Prog σ κ ε α}
    (h : ∀ u, T.rely x.locks s u →
      (∀ t, T.rely (l (x.pend u) ++ x.locks) u t → w (x.pend t) = w (x.pend u) ∧ n (x.pend t) = n (x.pend u)) ∧
        (n (x.pend u)).TakesEffect T (x.push l w u) u) : (Prog.stmt l w n).TakesEffect T x s := by
  intro u hu _
  obtain ⟨hsame, hnext⟩ := h u hu
  have hrely : (n (x.pend u)).Safe T (fun _ _ t => T.rely (l (x.pend u) ++ x.locks) u t) (x.push l w u) u :=
    .of_writes trivial (fun _ _ _ _ => trivial) (writes_any _) fun _ _ _ _ _ _ _ ht => ht
  refine (Safe.and hnext hrely).mono ?_
  rintro y a t ⟨hrun, ht⟩
  obtain ⟨hw, hn⟩ := hsame t ht
  rw [run_stmt, hw, hn]
  exact hrun

end Prog

/-- The answers of the transactions that committed, in the order of their commits. -/
def commits (log : List (ι × Except ε α)) : List (ι × Except ε α) := log.filter fun r => r.2.toBool

theorem commits_ok (log : List (ι × Except ε α)) (i : ι) (a : α) :
    commits (log ++ [(i, .ok a)]) = commits log ++ [(i, .ok a)] := List.filter_append _ _

theorem commits_error (log : List (ι × Except ε α)) (i : ι) (e : ε) :
    commits (log ++ [(i, .error e)]) = commits log := by
  unfold commits
  rw [List.filter_append]
  exact List.append_nil _

section
variable [DecidableEq ι] {T : ι → Terms σ κ} {Q : ι → Trail σ κ → α → σ → Prop}
    {prog : ι → Prog σ κ ε α} {db : σ}
  {K : Config ι σ κ ε α → Config ι σ κ ε α → Prop} {c : Config ι σ κ ε α}

theorem Reachable.not_ended (h : Reachable prog db c) {i : ι} {t : Thread σ κ ε α}
    (hrun : c.threads i = .running t) :
    i ∉ c.log.map Prod.fst := by
  induction h generalizing i t with
  | initial => exact List.not_mem_nil
  | @step c d prior next ih =>
    have hended : ∀ {j : ι} {s : Status σ κ ε α} (r : Except ε α), (∀ u, s ≠ .running u) →
        (c.setThread j s).threads i = .running t → i ∉ (c.log ++ [(j, r)]).map Prod.fst := by
      intro j s r hs hi
      obtain ⟨hne, hi⟩ := Config.running_ended hs hi
      rw [List.map_append, List.mem_append, not_or]
      exact ⟨ih hi, by simpa using hne⟩
    cases next with
    | exec hother _ _ =>
      rcases Config.running_setThread hrun with ⟨rfl, _⟩ | ⟨_, hi⟩
      · exact ih hother
      · exact ih hi
    | commit => exact hended _ (by intro u; nofun) hrun
    | exit => exact hended _ (by intro u; nofun) hrun
    | crash => exact ih (Config.running_ended (by intro u; nofun) hrun).2

/-- Transactions that take effect at their commit make what they make one after another. -/
theorem ReachableWhere.serial (h : ReachableWhere K prog db c)
    (hsafe : ∀ c, ReachableWhere K prog db c → c.Safe T Q prog)
    (hQ : ∀ i x a s, Q i x a s → (prog i).run s = .ok (a, x.pend s)) : Serial prog db (commits c.log) c.db := by
  induction h with
  | initial => exact .nil
  | @step c d prior next _ ih =>
    cases next with
    | exec => exact ih
    | @commit i t a hrun hprog =>
      obtain ⟨x, _, hpend, _, hkept⟩ := (hsafe c prior).promise hrun hprog
      have halone := hQ i x a c.db hkept
      rw [hpend] at halone
      change Serial prog db (commits (c.log ++ [(i, .ok a)])) (t.view c.db)
      rw [commits_ok]
      refine ih.ok (fun hmem => prior.reachable.not_ended hrun ?_) halone
      exact (List.filter_sublist.map _).subset hmem
    | @exit i t e =>
      change Serial prog db (commits (c.log ++ [(i, .error e)])) c.db
      rw [commits_error]
      exact ih
    | crash => exact ih

end

/-- What no transaction changes of the store, and for each lock the part that only its holder changes. -/
structure Locking (σ κ τ : Type) (ρ : κ → Type) where
  fixed : σ → τ
  part : (k : κ) → σ → ρ k

namespace Locking
variable {τ : Type} {ρ : κ → Type} (L : Locking σ κ τ ρ)

/-- The stores have the same parts under these locks. -/
def Agree (ks : List κ) (s t : σ) : Prop := L.fixed t = L.fixed s ∧ ∀ k ∈ ks, L.part k t = L.part k s

/-- A write that changes only parts under these locks. -/
def Obeys (ks : List κ) (f : σ → σ) : Prop :=
  ∀ s, L.fixed (f s) = L.fixed s ∧ ∀ k, k ∉ ks → L.part k (f s) = L.part k s

/-- A write that makes the same of the same parts. -/
def Local (ks : List κ) (f : σ → σ) : Prop := ∀ s t, L.Agree ks s t → L.Agree ks (f s) (f t)

/-- Others leave the parts alone whose locks a transaction holds. -/
def terms : Terms σ κ where
  rely := L.Agree
  when _ _ _ := True
  refl _ _ := ⟨rfl, fun _ _ => rfl⟩
  trans h h' := ⟨h'.1.trans h.1, fun k hk => (h'.2 k hk).trans (h.2 k hk)⟩
  anti h hr := ⟨hr.1, fun k hk => hr.2 k (h k hk)⟩

variable {L} {ks ls : List κ} {f g : σ → σ}

theorem Obeys.id (ks : List κ) : L.Obeys ks id := fun _ => ⟨rfl, fun _ _ => rfl⟩

theorem Obeys.mono (hf : L.Obeys ks f) (h : ∀ k ∈ ks, k ∈ ls) : L.Obeys ls f := fun s =>
  ⟨(hf s).1, fun k hk => (hf s).2 k fun hks => hk (h k hks)⟩

theorem Obeys.comp (hf : L.Obeys ks f) (hg : L.Obeys ks g) : L.Obeys ks (f ∘ g) := fun s =>
  ⟨(hf (g s)).1.trans (hg s).1, fun k hk => ((hf (g s)).2 k hk).trans ((hg s).2 k hk)⟩

theorem Local.id (ks : List κ) : L.Local ks id := fun _ _ h => h

/-- More locks hold more parts, which the write leaves as they are. -/
theorem Local.mono (hf : L.Local ks f) (hobeys : L.Obeys ks f) (h : ∀ k ∈ ks, k ∈ ls) : L.Local ls f := by
  intro s t hst
  obtain ⟨hfixed, hparts⟩ := hf s t (L.terms.anti h hst)
  refine ⟨hfixed, fun k hk => ?_⟩
  by_cases hks : k ∈ ks
  · exact hparts k hks
  · rw [(hobeys t).2 k hks, (hobeys s).2 k hks]
    exact hst.2 k hk

end Locking

namespace Prog
variable {τ : Type} {ρ : κ → Type} (L : Locking σ κ τ ρ)

/-- Each statement of the body reads and writes only what is fixed and the parts under the locks held by then. -/
def Follows : List κ → Prog σ κ ε α → Prop
  | _, pure _ => True
  | _, fail _ => True
  | ks, stmt l w n => ∀ v, L.Obeys (l v ++ ks) (w v) ∧ L.Local (l v ++ ks) (w v) ∧
      (∀ u, L.Agree (l v ++ ks) v u → w u = w v ∧ n u = n v) ∧ Follows (l v ++ ks) (n v)

variable {L} {ks : List κ}

namespace Follows

theorem mono {p : Prog σ κ ε α} (h : p.Follows L ks) {ls : List κ} (hks : ∀ k ∈ ks, k ∈ ls) :
    p.Follows L ls := by
  induction p generalizing ks ls with
  | pure a => trivial
  | fail e => trivial
  | stmt l w n ih =>
    intro v
    obtain ⟨hobeys, hlocal, hsame, hnext⟩ := h v
    have hmore : ∀ k ∈ l v ++ ks, k ∈ l v ++ ls := fun k hk =>
      List.mem_append.mpr ((List.mem_append.mp hk).imp_right (hks k))
    exact ⟨hobeys.mono hmore, hlocal.mono hobeys hmore,
      fun u hu => hsame u (L.terms.anti hmore hu), ih v hnext hmore⟩

theorem bind {p : Prog σ κ ε α} {f : α → Prog σ κ ε β} (hp : p.Follows L ks)
    (hf : ∀ a, (f a).Follows L ks) :
    (p >>= f).Follows L ks := by
  induction p generalizing ks with
  | pure a => exact hf a
  | fail e => trivial
  | stmt l w n ih =>
    intro v
    obtain ⟨hobeys, hlocal, hsame, hnext⟩ := hp v
    refine ⟨hobeys, hlocal, fun u hu => ?_, ih v hnext fun a => (hf a).mono fun k => List.mem_append_right _⟩
    obtain ⟨hw, hn⟩ := hsame u hu
    exact ⟨hw, congrArg (· >>= f) hn⟩

theorem query_bind {g : σ → β} {f : β → Prog σ κ ε α} (hg : ∀ v u, L.Agree ks v u → g u = g v)
    (hf : ∀ b, (f b).Follows L ks) : (query g >>= f).Follows L ks := fun v =>
  ⟨.id _, .id _, fun u hu => ⟨rfl, congrArg f (hg v u hu)⟩, hf (g v)⟩

theorem queryForUpdate_bind {ls : List κ} {g : σ → β} {f : β → Prog σ κ ε α}
    (hg : ∀ v u, L.Agree (ls ++ ks) v u → g u = g v) (hf : ∀ b, (f b).Follows L (ls ++ ks)) :
    (queryForUpdate (fun _ => ls) g >>= f).Follows L ks := fun v =>
  ⟨.id _, .id _, fun u hu => ⟨rfl, congrArg f (hg v u hu)⟩, hf (g v)⟩

/-- A write that its check may refuse. -/
theorem executeReturning_bind {ls : List κ} {c : σ → Except ε β} {w : σ → σ → σ}
    {f : β → Prog σ κ ε α}
    (hsame : ∀ v u, L.Agree (ls ++ ks) v u → c u = c v ∧ w u = w v) (hobeys : ∀ v, L.Obeys (ls ++ ks) (w v))
    (hlocal : ∀ v, L.Local (ls ++ ks) (w v)) (hf : ∀ b, (f b).Follows L (ls ++ ks)) :
    (executeReturning (fun _ => ls) c w >>= f).Follows L ks := by
  intro v
  have hagree : ∀ u, L.Agree (ls ++ ks) v u → c u = c v ∧ w u = w v := hsame v
  cases hc : c v with
  | ok b =>
    refine ⟨by simpa only [hc] using hobeys v, by simpa only [hc] using hlocal v, fun u hu => ?_, ?_⟩
    · obtain ⟨hcheck, hwrite⟩ := hagree u hu
      simp only [hcheck, hwrite, hc, and_self]
    · simp only [hc]
      exact hf b
  | error e =>
    refine ⟨?_, ?_, fun u hu => ?_, ?_⟩
    · simp only [hc]
      exact .id _
    · simp only [hc]
      exact .id _
    · obtain ⟨hcheck, _⟩ := hagree u hu
      simp only [hcheck, hc, and_self]
    · simp only [hc]
      trivial

theorem execute_bind {ls : List κ} {c : σ → Except ε Unit} {w : σ → σ → σ} {f : Unit → Prog σ κ ε α}
    (hsame : ∀ v u, L.Agree (ls ++ ks) v u → c u = c v ∧ w u = w v) (hobeys : ∀ v, L.Obeys (ls ++ ks) (w v))
    (hlocal : ∀ v, L.Local (ls ++ ks) (w v)) (hf : (f ()).Follows L (ls ++ ks)) :
    (execute (fun _ => ls) c w >>= f).Follows L ks := by
  rw [execute_eq]
  exact executeReturning_bind hsame hobeys hlocal fun _ => hf

theorem require_bind {c : Prop} [Decidable c] {e : ε} {f : Unit → Prog σ κ ε α}
    (hf : c → (f ()).Follows L ks) :
    (require c e >>= f).Follows L ks := by
  unfold require
  split_ifs with hc
  · exact hf hc
  · trivial

theorem okOr_bind {y : Option β} {e : ε} {f : β → Prog σ κ ε α}
    (hf : ∀ b, y = some b → (f b).Follows L ks) :
    (okOr y e >>= f).Follows L ks := by
  cases y with
  | none => trivial
  | some b => exact hf b rfl

theorem ofExcept_bind {y : Except ε β} {f : β → Prog σ κ ε α} (hf : ∀ b, y = .ok b → (f b).Follows L ks) :
    (ofExcept y >>= f).Follows L ks := by
  cases y with
  | error e => trivial
  | ok b => exact hf b rfl

theorem query {g : σ → β} (hg : ∀ v u, L.Agree ks v u → g u = g v) :
    (query g : Prog σ κ ε β).Follows L ks := by
  rw [← bind_pure (Prog.query g)]
  exact query_bind hg fun _ => trivial

theorem execute {ls : List κ} {c : σ → Except ε Unit} {w : σ → σ → σ}
    (hsame : ∀ v u, L.Agree (ls ++ ks) v u → c u = c v ∧ w u = w v) (hobeys : ∀ v, L.Obeys (ls ++ ks) (w v))
    (hlocal : ∀ v, L.Local (ls ++ ks) (w v)) : (execute (fun _ => ls) c w).Follows L ks := by
  rw [← bind_pure (Prog.execute _ c w)]
  exact execute_bind hsame hobeys hlocal trivial

theorem require {c : Prop} [Decidable c] {e : ε} : (require c e : Prog σ κ ε Unit).Follows L ks := by
  rw [← bind_pure (Prog.require c e)]
  exact require_bind fun _ => trivial

theorem okOr {y : Option β} {e : ε} : (okOr y e : Prog σ κ ε β).Follows L ks := by
  rw [← bind_pure (Prog.okOr y e)]
  exact okOr_bind fun _ _ => trivial

theorem safe {p : Prog σ κ ε α} {x : Trail σ κ} (h : p.Follows L x.locks) (hobeys : L.Obeys x.locks x.pend)
    (hlocal : L.Local x.locks x.pend) (s : σ) :
    p.TakesEffect L.terms x s ∧ p.Safe L.terms (fun y _ _ => L.Obeys y.locks y.pend) x s := by
  induction p generalizing x s with
  | pure a => exact ⟨fun _ _ => rfl, fun _ _ => hobeys⟩
  | fail e => exact ⟨trivial, trivial⟩
  | stmt l w n ih =>
    have hpush : ∀ u, L.Obeys (x.push l w u).locks (x.push l w u).pend ∧
        L.Local (x.push l w u).locks (x.push l w u).pend := by
      intro u
      obtain ⟨hw, hwlocal, -, -⟩ := h (x.pend u)
      have hmore : ∀ k ∈ x.locks, k ∈ l (x.pend u) ++ x.locks := fun k => List.mem_append_right _
      exact ⟨hw.comp (hobeys.mono hmore), fun s t hst => hwlocal _ _ (hlocal.mono hobeys hmore s t hst)⟩
    constructor
    · refine .stmt fun u _ => ⟨fun t ht => ?_, (ih (x.pend u) (h (x.pend u)).2.2.2 (hpush u).1 (hpush u).2 u).1⟩
      obtain ⟨-, -, hsame, -⟩ := h (x.pend u)
      have hmore : ∀ k ∈ x.locks, k ∈ l (x.pend u) ++ x.locks := fun k => List.mem_append_right _
      exact hsame _ (hlocal.mono hobeys hmore u t ht)
    · exact fun u _ _ => (ih (x.pend u) (h (x.pend u)).2.2.2 (hpush u).1 (hpush u).2 u).2

end Follows

end Prog

/-- Side by side, bodies that read and write under their locks make what those that commit make one after another. -/
theorem Reachable.serial_of_locking [DecidableEq ι] {τ : Type} {ρ : κ → Type} {L : Locking σ κ τ ρ}
    {prog : ι → Prog σ κ ε α} {db : σ} {c : Config ι σ κ ε α} (h : Reachable prog db c)
    (hp : ∀ i, (prog i).Follows L []) : Serial prog db (commits c.log) c.db := by
  refine h.unconditional.serial (T := fun _ => L.terms)
    (Q := fun i x a s => (prog i).run s = .ok (a, x.pend s) ∧ L.Obeys x.locks x.pend) (fun c hc => ?_)
      fun _ _ _ _ hQ => hQ.1
  refine hc.safe (fun i => ?_) (fun _ _ _ _ _ _ _ => trivial) fun i j x a ls s _ hQ hlocks => ?_
  · obtain ⟨heffect, hobeys⟩ := (hp i).safe (x := .start) (.id _) (.id _) db
    exact Prog.Safe.and heffect hobeys
  · obtain ⟨hfixed, hparts⟩ := hQ.2 s
    exact ⟨hfixed, fun k hk => hparts k fun hx => hlocks k hx hk⟩

end Noxara.Transaction
