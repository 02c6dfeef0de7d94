import Noxara.TransactionCalls

/-! Jobs that run one transaction after another and go on when one of them fails. The database may refuse any
statement and any commit; what the open transaction has written is then gone, and the job decides what to do. A job
that crashes does nothing more. -/
namespace Noxara.Transaction

/-- `failed` is what the job does when the database refuses the statement or the commit. -/
inductive Job (σ κ ε α : Type) : Type
  | pure (a : α)
  | fail (e : ε)
  | stmt (locks : σ → List κ) (write : σ → σ → σ) (next : σ → Job σ κ ε α)
    (failed : String → Job σ κ ε α)
  | commit (next : Job σ κ ε α) (failed : String → Job σ κ ε α)
  | rollback (next : Job σ κ ε α)

variable {ι σ κ ε α β : Type}

/-- A body as a transaction of its own: it commits with its answer, and is rolled back when it exits. -/
def Job.transaction (refused : String → ε) (k : Except ε β → Job σ κ ε α) :
    Prog σ κ ε β → Job σ κ ε α
  | .pure b => .commit (k (.ok b)) fun m => k (.error (refused m))
  | .fail e => .rollback (k (.error e))
  | .stmt l w n => .stmt l w (fun v => Job.transaction refused k (n v)) fun m => k (.error (refused m))

/-- The commits of one job: the store before each and after it. -/
abbrev Past (σ : Type) := List (σ × σ)

/-- A job in flight: what is left of it, and its open transaction. -/
structure Task (σ κ ε α : Type) where
  rest : Job σ κ ε α
  tx : Open σ κ

/-- `log` tells how jobs ended, the oldest first. -/
structure Jobs (ι σ κ ε α : Type) where
  db : σ
  tasks : ι → Option (Task σ κ ε α)
  past : ι → Past σ
  log : List (ι × Except ε α)

namespace Jobs

def initial (jobs : ι → Job σ κ ε α) (db : σ) : Jobs ι σ κ ε α :=
    ⟨db, fun i => some ⟨jobs i, .start⟩, fun _ => [], []⟩

def locks (c : Jobs ι σ κ ε α) (i : ι) : List κ := ((c.tasks i).map fun t => t.tx.locks).getD []

/-- No other job in flight holds one of the rows `ks`. -/
def Free (c : Jobs ι σ κ ε α) (i : ι) (ks : List κ) : Prop := ∀ j, j ≠ i → ∀ k ∈ ks, k ∉ c.locks j

theorem mem_locks {c : Jobs ι σ κ ε α} {i : ι} {k : κ} :
    k ∈ c.locks i ↔ ∃ t, c.tasks i = some t ∧ k ∈ t.tx.locks := by
  unfold locks
  cases c.tasks i with
  | none => simp
  | some t => simp

variable [DecidableEq ι]

def setTask (c : Jobs ι σ κ ε α) (i : ι) (t : Option (Task σ κ ε α)) : Jobs ι σ κ ε α :=
  { c with tasks := Function.update c.tasks i t }

@[simp] theorem setTask_db (c : Jobs ι σ κ ε α) (i : ι) (t : Option (Task σ κ ε α)) :
    (c.setTask i t).db = c.db := rfl

@[simp] theorem setTask_past (c : Jobs ι σ κ ε α) (i : ι) (t : Option (Task σ κ ε α)) :
    (c.setTask i t).past = c.past := rfl

@[simp] theorem setTask_log (c : Jobs ι σ κ ε α) (i : ι) (t : Option (Task σ κ ε α)) :
    (c.setTask i t).log = c.log := rfl

theorem tasks_setTask {c : Jobs ι σ κ ε α} {i j : ι} {t : Option (Task σ κ ε α)} {u : Task σ κ ε α}
    (h : (c.setTask i t).tasks j = some u) : (j = i ∧ t = some u) ∨ (j ≠ i ∧ c.tasks j = some u) := by
  by_cases hj : j = i
  · subst hj
    exact .inl ⟨rfl, by simpa [setTask] using h⟩
  · exact .inr ⟨hj, by simpa [setTask, hj] using h⟩

def commitOf (c : Jobs ι σ κ ε α) (i : ι) (x : Open σ κ) (n : Job σ κ ε α) : Jobs ι σ κ ε α :=
  { c.setTask i (some ⟨n, .start⟩) with
    db := x.pend c.db
    past := Function.update c.past i (c.past i ++ [(c.db, x.pend c.db)]) }

/-- One event. A job may be refused or crash where its commits so far meet `P`. -/
inductive Step (P : Past σ → Prop) : Jobs ι σ κ ε α → Jobs ι σ κ ε α → Prop
  | exec {c i x l w n f} (running : c.tasks i = some ⟨.stmt l w n f, x⟩) (free : c.Free i (l (x.pend c.db))) :
      Step P c (c.setTask i (some ⟨n (x.pend c.db), x.push l w c.db⟩))
  | refused {c i x l w n f} (m : String) (running : c.tasks i = some ⟨.stmt l w n f, x⟩) (may : P (c.past i)) :
      Step P c (c.setTask i (some ⟨f m, .start⟩))
  | commit {c i x n f} (running : c.tasks i = some ⟨.commit n f, x⟩) : Step P c (c.commitOf i x n)
  | commitRefused {c i x n f} (m : String) (running : c.tasks i = some ⟨.commit n f, x⟩) (may : P (c.past i)) :
      Step P c (c.setTask i (some ⟨f m, .start⟩))
  | rollback {c i x n} (running : c.tasks i = some ⟨.rollback n, x⟩) : Step P c (c.setTask i (some ⟨n, .start⟩))
  | finish {c i x a} (running : c.tasks i = some ⟨.pure a, x⟩) :
      Step P c { c.setTask i none with log := c.log ++ [(i, .ok a)] }
  | exit {c i x e} (running : c.tasks i = some ⟨.fail e, x⟩) :
      Step P c { c.setTask i none with log := c.log ++ [(i, .error e)] }
  | crash {c i t} (running : c.tasks i = some t) (may : P (c.past i)) : Step P c (c.setTask i none)

def Reached (P : Past σ → Prop) (jobs : ι → Job σ κ ε α) (db : σ) (c : Jobs ι σ κ ε α) : Prop :=
  Relation.ReflTransGen (Step P) (.initial jobs db) c

variable {P : Past σ → Prop} {c d : Jobs ι σ κ ε α}

/-- Who holds a lock after a step held it before, or is the one that moved and found it free. -/
theorem Step.locks_of (h : Step P c d) :
    ∃ m, ∀ j k, k ∈ d.locks j → k ∈ c.locks j ∨ (j = m ∧ ∀ i, i ≠ m → k ∉ c.locks i) := by
  have hkept : ∀ (m : ι) (t : Option (Task σ κ ε α)),
    (∀ u k, t = some u → k ∈ u.tx.locks → k ∈ c.locks m) →
      ∀ j k, k ∈ (c.setTask m t).locks j → k ∈ c.locks j := by
    intro m t ht j k hk
    obtain ⟨u, hu, hku⟩ := mem_locks.mp hk
    rcases tasks_setTask hu with ⟨rfl, he⟩ | ⟨_, hj⟩
    · exact ht u k he hku
    · exact mem_locks.mpr ⟨u, hj, hku⟩
  have hnone : ∀ (m : ι) (n : Job σ κ ε α) u k, some (⟨n, .start⟩ : Task σ κ ε α) = some u →
    k ∈ u.tx.locks →
      k ∈ c.locks m := by
    intro m n u k he hk
    cases he
    cases hk
  cases h with
  | @exec m x l w n f running free =>
    refine ⟨m, fun j k hk => ?_⟩
    obtain ⟨t, ht, hkt⟩ := mem_locks.mp hk
    rcases tasks_setTask ht with ⟨rfl, he⟩ | ⟨_, hj⟩
    · cases he
      rcases List.mem_append.mp hkt with hl | hx
      · exact .inr ⟨rfl, fun i hi => free i hi k hl⟩
      · exact .inl (mem_locks.mpr ⟨_, running, hx⟩)
    · exact .inl (mem_locks.mpr ⟨t, hj, hkt⟩)
  | @refused m => exact ⟨m, fun j k hk => .inl (hkept m _ (hnone m _) j k hk)⟩
  | @commit m => exact ⟨m, fun j k hk => .inl (hkept m _ (hnone m _) j k hk)⟩
  | @commitRefused m => exact ⟨m, fun j k hk => .inl (hkept m _ (hnone m _) j k hk)⟩
  | @rollback m => exact ⟨m, fun j k hk => .inl (hkept m _ (hnone m _) j k hk)⟩
  | @finish m | @exit m | @crash m => exact ⟨m, fun j k hk => .inl (hkept m none (by simp) j k hk)⟩

theorem Reached.exclusive {jobs : ι → Job σ κ ε α} {db : σ} (h : Reached P jobs db c) (k : κ) (i j : ι)
    (hi : k ∈ c.locks i) (hj : k ∈ c.locks j) : i = j := by
  induction h with
  | refl => cases hi
  | tail _ hs ih =>
    obtain ⟨m, hm⟩ := hs.locks_of
    by_contra hne
    rcases hm i k hi with hib | ⟨rfl, hothers⟩
    · rcases hm j k hj with hjb | ⟨rfl, hothers⟩
      · exact hne (ih hib hjb)
      · exact hothers i hne hib
    · rcases hm j k hj with hjb | ⟨rfl, _⟩
      · exact hothers j (Ne.symm hne) hjb
      · exact hne rfl

end Jobs

/-- What one job may count on, given its commits so far: `rely h ls` are the changes that others make of the store
while it holds the locks `ls`, and `keeps h ls` the changes that its own commit may make. -/
structure Pledge (σ κ : Type) where
  rely : Past σ → List κ → σ → σ → Prop
  keeps : Past σ → List κ → σ → σ → Prop
  refl : ∀ h ls s, rely h ls s s
  trans : ∀ {h ls s t u}, rely h ls s t → rely h ls t u → rely h ls s u
  anti : ∀ {h ls ls' s t}, (∀ k ∈ ls, k ∈ ls') → rely h ls' s t → rely h ls s t

theorem Pledge.free (D : Pledge σ κ) {h : Past σ} {ls : List κ} {s t : σ} (hst : D.rely h ls s t) :
    D.rely h [] s t :=
  D.anti (fun _ hk => absurd hk List.not_mem_nil) hst

def Pledge.terms (D : Pledge σ κ) (h : Past σ) : Terms σ κ where
  rely := D.rely h
  when _ _ _ := True
  refl := D.refl h
  trans := D.trans
  anti := D.anti

namespace Job

/-- Every commit of the job keeps its pledge, whatever the database refuses where the job may fail; with an answer
the job ends in `Q`, and with an error in `E`. -/
def Safe (P : Past σ → Prop) (D : Pledge σ κ) (Q : α → Past σ → σ → Prop)
    (E : ε → Past σ → σ → Prop) :
    Job σ κ ε α → Past σ → Open σ κ → σ → Prop
  | pure a, h, _, s => ∀ s', D.rely h [] s s' → Q a h s'
  | fail e, h, _, s => ∀ s', D.rely h [] s s' → E e h s'
  | stmt l w n f, h, x, s => ∀ s', D.rely h x.locks s s' →
      (n (x.pend s')).Safe P D Q E h (x.push l w s') s' ∧ (P h → ∀ m, (f m).Safe P D Q E h .start s')
  | commit n f, h, x, s => ∀ s', D.rely h x.locks s s' → D.keeps h x.locks s' (x.pend s') ∧
      n.Safe P D Q E (h ++ [(s', x.pend s')]) .start (x.pend s') ∧ (P h → ∀ m, (f m).Safe P D Q E h .start s')
  | rollback n, h, x, s => ∀ s', D.rely h x.locks s s' → n.Safe P D Q E h .start s'

variable {P : Past σ → Prop} {D : Pledge σ κ} {Q : α → Past σ → σ → Prop}
    {E : ε → Past σ → σ → Prop} {h : Past σ}
  {s : σ}

theorem Safe.rely {j : Job σ κ ε α} {x : Open σ κ} (hj : j.Safe P D Q E h x s) {s' : σ}
    (hs : D.rely h x.locks s s') : j.Safe P D Q E h x s' := by
  cases j with
  | pure a | fail e => exact fun u hu => hj u (D.trans (D.free hs) hu)
  | stmt l w n f | commit n f | rollback n => exact fun u hu => hj u (D.trans hs hu)

/-- A transaction: its body keeps the pledge when it commits and the job goes on from there, and the job goes on
from an error at any time. -/
theorem Safe.transaction {refused : String → ε} {k : Except ε β → Job σ κ ε α} {p : Prog σ κ ε β}
    {x : Trail σ κ}
    (hp : p.Safe (D.terms h) (fun y b u => D.keeps h y.locks u (y.pend u) ∧
      (k (.ok b)).Safe P D Q E (h ++ [(u, y.pend u)]) .start (y.pend u)) x s)
    (hk : ∀ e u, D.rely h [] s u → (k (.error e)).Safe P D Q E h .start u) :
    (Job.transaction refused k p).Safe P D Q E h ⟨x.locks, x.pend⟩ s := by
  induction p generalizing x s with
  | pure b =>
    intro u hu
    obtain ⟨hkeeps, hnext⟩ := hp u hu
    exact ⟨hkeeps, hnext, fun _ m => hk _ u (D.free hu)⟩
  | fail e => exact fun u hu => hk e u (D.free hu)
  | stmt l w n ih =>
    intro u hu
    have hnext := ih _ (hp u hu trivial) fun e v hv => hk e v (D.trans (D.free hu) hv)
    exact ⟨hnext, fun _ m => hk _ u (D.free hu)⟩

/-- A transaction of a job that may no longer fail, in a store that nobody else changes, is its body run alone. -/
theorem Safe.transaction_alone {refused : String → ε} {k : Except ε β → Job σ κ ε α} {p : Prog σ κ ε β}
    (hstill : ∀ ls s', D.rely h ls s s' → s' = s) (hP : ¬P h)
    (hok : ∀ b t, p.run s = .ok (b, t) →
      (∀ ls, D.keeps h ls s t) ∧ (k (.ok b)).Safe P D Q E (h ++ [(s, t)]) .start t)
    (herror : ∀ e, p.run s = .error e → (k (.error e)).Safe P D Q E h .start s) :
    (Job.transaction refused k p).Safe P D Q E h .start s := by
  suffices hgo : ∀ (p : Prog σ κ ε β) (x : Open σ κ),
      (∀ b t, p.run (x.pend s) = .ok (b, t) →
        (∀ ls, D.keeps h ls s t) ∧ (k (.ok b)).Safe P D Q E (h ++ [(s, t)]) .start t) →
      (∀ e, p.run (x.pend s) = .error e → (k (.error e)).Safe P D Q E h .start s) →
      (Job.transaction refused k p).Safe P D Q E h x s from hgo p .start hok herror
  intro p
  induction p with
  | pure b =>
    intro x hok _ u hu
    obtain rfl := hstill _ _ hu
    obtain ⟨hkeeps, hnext⟩ := hok b _ rfl
    exact ⟨hkeeps _, hnext, fun hmay => absurd hmay hP⟩
  | fail e =>
    intro x _ herror u hu
    obtain rfl := hstill _ _ hu
    exact herror e rfl
  | stmt l w n ih =>
    intro x hok herror u hu
    obtain rfl := hstill _ _ hu
    exact ⟨ih _ _ hok herror, fun hmay => absurd hmay hP⟩

end Job

namespace Jobs
variable [DecidableEq ι] {P : Past σ → Prop} {c d : Jobs ι σ κ ε α} {D : Pledge σ κ}
  {Q : α → Past σ → σ → Prop} {E : ε → Past σ → σ → Prop}

/-- What one job commits is within what the others rely on, and keeps the invariant of all. -/
def Fit (D : Pledge σ κ) (I : (ι → Past σ) → σ → Prop) : Prop :=
  ∀ past s i ls s', I past s → D.keeps (past i) ls s s' →
    I (Function.update past i (past i ++ [(s, s')])) s' ∧
      ∀ j ls', j ≠ i → (∀ k ∈ ls, k ∉ ls') → D.rely (past j) ls' s s'

/-- The jobs in flight are safe, and those that ended with an answer or an error ended as they should. -/
structure Settled (P : Past σ → Prop) (D : Pledge σ κ) (Q : α → Past σ → σ → Prop)
    (E : ε → Past σ → σ → Prop)
    (c : Jobs ι σ κ ε α) : Prop where
  safe : ∀ i t, c.tasks i = some t → t.rest.Safe P D Q E (c.past i) t.tx c.db
  answered : ∀ i a, (i, .ok a) ∈ c.log → c.tasks i = none ∧ ∀ s, D.rely (c.past i) [] c.db s →
    Q a (c.past i) s
  failed : ∀ i e, (i, .error e) ∈ c.log → c.tasks i = none ∧ ∀ s, D.rely (c.past i) [] c.db s →
    E e (c.past i) s
  ended : ∀ i, c.tasks i = none → (∃ r, (i, r) ∈ c.log) ∨ P (c.past i)

omit [DecidableEq ι] in
theorem Settled.initial {jobs : ι → Job σ κ ε α} {db : σ} (h : ∀ i, (jobs i).Safe P D Q E [] .start db) :
    (Jobs.initial jobs db).Settled P D Q E where
  safe i t ht := by
    cases ht
    exact h i
  answered i a hlog := by cases hlog
  failed i e hlog := by cases hlog
  ended i hnone := by cases hnone

theorem Settled.move (h : c.Settled P D Q E) {i : ι} {u : Task σ κ ε α} (running : c.tasks i = some u)
    {t : Option (Task σ κ ε α)} {r : List (Except ε α)}
    (hsafe : ∀ v, t = some v → v.rest.Safe P D Q E (c.past i) v.tx c.db)
    (hok : ∀ a, .ok a ∈ r → t = none ∧ ∀ s, D.rely (c.past i) [] c.db s → Q a (c.past i) s)
    (herror : ∀ e, .error e ∈ r → t = none ∧ ∀ s, D.rely (c.past i) [] c.db s → E e (c.past i) s)
    (hended : t = none → r ≠ [] ∨ P (c.past i)) :
    ({ c.setTask i t with log := c.log ++ r.map (Prod.mk i) } : Jobs ι σ κ ε α).Settled P D Q E := by
  have hother : ∀ j, c.tasks j = none → (c.setTask i t).tasks j = none := by
    intro j hj
    have hne : j ≠ i := by
      rintro rfl
      rw [running] at hj
      cases hj
    simpa [setTask, hne] using hj
  constructor
  · intro j v hv
    rcases tasks_setTask hv with ⟨rfl, he⟩ | ⟨_, hj⟩
    · exact hsafe v he
    · exact h.safe j v hj
  · intro j a hlog
    rcases List.mem_append.mp hlog with hlog | hlog
    · obtain ⟨hnone, hq⟩ := h.answered j a hlog
      exact ⟨hother j hnone, hq⟩
    · obtain ⟨r, hr, he⟩ := List.mem_map.mp hlog
      cases he
      obtain ⟨hnone, hq⟩ := hok a hr
      exact ⟨by simp [setTask, hnone], hq⟩
  · intro j e hlog
    rcases List.mem_append.mp hlog with hlog | hlog
    · obtain ⟨hnone, hq⟩ := h.failed j e hlog
      exact ⟨hother j hnone, hq⟩
    · obtain ⟨r, hr, he⟩ := List.mem_map.mp hlog
      cases he
      obtain ⟨hnone, hq⟩ := herror e hr
      exact ⟨by simp [setTask, hnone], hq⟩
  · intro j hj
    by_cases hji : j = i
    · subst hji
      have hnone : t = none := by simpa [setTask] using hj
      rcases hended hnone with hrs | hmay
      · obtain ⟨r, hr⟩ := List.exists_mem_of_ne_nil _ hrs
        exact .inl ⟨r, List.mem_append_right _ (List.mem_map.mpr ⟨r, hr, rfl⟩)⟩
      · exact .inr hmay
    · have hnone : c.tasks j = none := by simpa [setTask, hji] using hj
      rcases h.ended j hnone with ⟨r, hr⟩ | hmay
      · exact .inl ⟨r, List.mem_append_left _ hr⟩
      · exact .inr hmay

theorem Settled.goOn (h : c.Settled P D Q E) {i : ι} {u v : Task σ κ ε α} (running : c.tasks i = some u)
    (hsafe : v.rest.Safe P D Q E (c.past i) v.tx c.db) : (c.setTask i (some v)).Settled P D Q E := by
  have hmove := h.move running (t := some v) (r := []) (fun w he => by cases he; exact hsafe) (by simp) (by simp)
    (by simp)
  simpa [setTask] using hmove

theorem Settled.step {I : (ι → Past σ) → σ → Prop} (h : c.Settled P D Q E) (hI : I c.past c.db)
    (hfit : Fit D I)
    (hone : ∀ k i j, k ∈ c.locks i → k ∈ c.locks j → i = j) (hs : Step P c d) :
    d.Settled P D Q E ∧ I d.past d.db := by
  cases hs with
  | exec running _ =>
    obtain ⟨hnext, _⟩ := h.safe _ _ running c.db (D.refl _ _ _)
    exact ⟨h.goOn running hnext, hI⟩
  | refused m running may =>
    obtain ⟨_, hfailed⟩ := h.safe _ _ running c.db (D.refl _ _ _)
    exact ⟨h.goOn running (hfailed may m), hI⟩
  | commitRefused m running may =>
    obtain ⟨_, _, hfailed⟩ := h.safe _ _ running c.db (D.refl _ _ _)
    exact ⟨h.goOn running (hfailed may m), hI⟩
  | rollback running => exact ⟨h.goOn running (h.safe _ _ running c.db (D.refl _ _ _)), hI⟩
  | @finish i x a running =>
    refine ⟨h.move running (r := [.ok a]) (by simp) ?_ (by simp) (by simp), hI⟩
    intro b hb
    obtain rfl : b = a := by simpa using hb
    exact ⟨rfl, h.safe _ _ running⟩
  | @exit i x e running =>
    refine ⟨h.move running (r := [.error e]) (by simp) (by simp) ?_ (by simp), hI⟩
    intro b hb
    obtain rfl : b = e := by simpa using hb
    exact ⟨rfl, h.safe _ _ running⟩
  | crash running may =>
    have hmove := h.move running (t := none) (r := []) (by simp) (by simp) (by simp) (fun _ => .inr may)
    exact ⟨by simpa [setTask] using hmove, hI⟩
  | @commit i x n f running =>
    obtain ⟨hkeeps, hnext, _⟩ := h.safe _ _ running c.db (D.refl _ _ _)
    obtain ⟨hinv, hrely⟩ := hfit c.past c.db i x.locks _ hI hkeeps
    refine ⟨?_, hinv⟩
    have hpast : ∀ j, j ≠ i → (c.commitOf i x n).past j = c.past j := by
      intro j hj
      simp [commitOf, hj]
    have hidle : ∀ j, c.tasks j = none → j ≠ i := by
      rintro j hj rfl
      rw [running] at hj
      cases hj
    have hothers : ∀ j, j ≠ i → (c.commitOf i x n).tasks j = c.tasks j := by
      intro j hj
      simp [commitOf, setTask, hj]
    have hfree : ∀ j, j ≠ i → D.rely (c.past j) [] c.db (x.pend c.db) :=
      fun j hj => hrely j [] hj fun _ _ => List.not_mem_nil
    constructor
    · intro j t ht
      rcases tasks_setTask ht with ⟨rfl, he⟩ | ⟨hj, hjt⟩
      · cases he
        simpa [commitOf] using hnext
      · rw [hpast j hj]
        refine (h.safe j t hjt).rely (hrely j t.tx.locks hj fun k hk hkt => ?_)
        exact hj (hone k j i (mem_locks.mpr ⟨t, hjt, hkt⟩) (mem_locks.mpr ⟨_, running, hk⟩))
    · intro j a hlog
      obtain ⟨hnone, hq⟩ := h.answered j a hlog
      have hj := hidle j hnone
      rw [hothers j hj, hpast j hj]
      exact ⟨hnone, fun s hs => hq s (D.trans (hfree j hj) hs)⟩
    · intro j e hlog
      obtain ⟨hnone, hq⟩ := h.failed j e hlog
      have hj := hidle j hnone
      rw [hothers j hj, hpast j hj]
      exact ⟨hnone, fun s hs => hq s (D.trans (hfree j hj) hs)⟩
    · intro j hj
      have hji : j ≠ i := by
        rintro rfl
        simp [commitOf, setTask] at hj
      rw [hothers j hji] at hj
      rw [hpast j hji]
      exact h.ended j hj

/-- Jobs that are safe alone end as they should in every run. -/
theorem Reached.settled {jobs : ι → Job σ κ ε α} {db : σ} {I : (ι → Past σ) → σ → Prop}
    (h : Reached P jobs db c)
    (hfit : Fit D I) (hjobs : ∀ i, (jobs i).Safe P D Q E [] .start db) (h0 : I (fun _ => []) db) :
    c.Settled P D Q E ∧ I c.past c.db := by
  induction h with
  | refl => exact ⟨.initial hjobs, h0⟩
  | tail hprior hs ih => exact ih.1.step ih.2 hfit (fun k i j => Reached.exclusive hprior k i j) hs

inductive Move (ι : Type)
  | advance (i : ι)
  | refuse (i : ι)
  | crash (i : ι)

/-- Play one move, where a job may fail when its commits so far meet `L`. -/
def move [Fintype ι] [DecidableEq κ] (L : Past σ → Bool) (c : Jobs ι σ κ ε α) :
    Move ι → Option (Jobs ι σ κ ε α)
  | .advance i =>
    match c.tasks i with
    | some ⟨.stmt l w n _, x⟩ =>
      if ∀ j, j ≠ i → ∀ k ∈ l (x.pend c.db), k ∉ c.locks j then
        some (c.setTask i (some ⟨n (x.pend c.db), x.push l w c.db⟩))
      else none
    | some ⟨.commit n _, x⟩ => some (c.commitOf i x n)
    | some ⟨.rollback n, _⟩ => some (c.setTask i (some ⟨n, .start⟩))
    | some ⟨.pure a, _⟩ => some { c.setTask i none with log := c.log ++ [(i, .ok a)] }
    | some ⟨.fail e, _⟩ => some { c.setTask i none with log := c.log ++ [(i, .error e)] }
    | none => none
  | .refuse i =>
    match c.tasks i with
    | some ⟨.stmt _ _ _ f, _⟩ | some ⟨.commit _ f, _⟩ =>
      if L (c.past i) then some (c.setTask i (some ⟨f "connection lost", .start⟩)) else none
    | _ => none
  | .crash i =>
    match c.tasks i with
    | some _ => if L (c.past i) then some (c.setTask i none) else none
    | none => none

def play [Fintype ι] [DecidableEq κ] (L : Past σ → Bool) (c : Jobs ι σ κ ε α) (ms : List (Move ι)) :
    Option (Jobs ι σ κ ε α) := ms.foldlM (move L) c

section
variable [Fintype ι] [DecidableEq κ] {L : Past σ → Bool}

theorem move_sound (hL : ∀ h, L h = true → P h) {m : Move ι} (h : c.move L m = some d) : Step P c d := by
  cases m with
  | advance i =>
    simp only [move] at h
    split at h
    · next hrun =>
      split_ifs at h with hfree
      cases h
      exact .exec hrun hfree
    · next hrun =>
      cases h
      exact .commit hrun
    · next hrun =>
      cases h
      exact .rollback hrun
    · next hrun =>
      cases h
      exact .finish hrun
    · next hrun =>
      cases h
      exact .exit hrun
    · cases h
  | refuse i =>
    simp only [move] at h
    split at h
    · next hrun =>
      split_ifs at h with hmay
      cases h
      exact .refused _ hrun (hL _ hmay)
    · next hrun =>
      split_ifs at h with hmay
      cases h
      exact .commitRefused _ hrun (hL _ hmay)
    · cases h
  | crash i =>
    simp only [move] at h
    split at h
    · next hrun =>
      split_ifs at h with hmay
      cases h
      exact .crash hrun (hL _ hmay)
    · cases h

/-- A run found by playing, with what can be computed about its end. -/
theorem Reached.of_play (hL : ∀ h, L h = true → P h) (jobs : ι → Job σ κ ε α) (db : σ) (ms : List (Move ι))
    (R : Jobs ι σ κ ε α → Bool) (h : ((initial jobs db).play L ms).any R = true) :
    ∃ c, Reached P jobs db c ∧ R c = true := by
  obtain ⟨c, hc, hR⟩ := (Option.any_eq_true _ _).mp h
  refine ⟨c, ?_, hR⟩
  have hgo : ∀ (b : Jobs ι σ κ ε α), b.play L ms = some c → Relation.ReflTransGen (Step P) b c := by
    clear h hc
    induction ms with
    | nil =>
      intro b hb
      cases hb
      exact .refl
    | cons m ms ih =>
      intro b hb
      simp only [play, List.foldlM_cons] at hb
      obtain ⟨b', hm, hrest⟩ := Option.bind_eq_some_iff.mp hb
      exact .head (move_sound hL hm) (ih b' hrest)
  exact hgo _ hc

end

end Jobs

end Noxara.Transaction
