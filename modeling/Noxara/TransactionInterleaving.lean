import Mathlib.Data.Fintype.Basic
import Mathlib.Logic.Relation
import Noxara.TransactionProgram

/-! Interleavings of transactions under READ COMMITTED. Any number of bodies run side by
side, one statement at a time in any order. A statement sees the committed store under the
transaction's own writes and blocks while another transaction in flight holds a row lock it
needs; a waiting statement looks at the rows only once it has their locks, which is when it is
executed here. Row locks last until the transaction ends. -/
namespace Noxara.Transaction

/-- A transaction in flight: what is left of its body, its own uncommitted writes, and the
row locks it holds. -/
structure Thread (σ κ ε α : Type) where
  prog : Prog σ κ ε α
  pend : σ → σ
  locks : List κ

inductive Status (σ κ ε α : Type)
  | running (t : Thread σ κ ε α)
  | committed (a : α)
  | aborted

variable {ι σ κ ε α : Type}

def Status.locks : Status σ κ ε α → List κ
  | running t => t.locks
  | _ => []

/-- The transaction, while it is in flight. -/
def Status.thread? : Status σ κ ε α → Option (Thread σ κ ε α)
  | running t => some t
  | _ => none

def Status.answer : Status σ κ ε α → Option α
  | committed a => some a
  | _ => none

/-- `log` records how the transactions ended, oldest first: the answer of each that
committed and the exit of each that gave up. -/
structure Config (ι σ κ ε α : Type) where
  db : σ
  threads : ι → Status σ κ ε α
  log : List (ι × Except ε α)

def Thread.fresh (p : Prog σ κ ε α) : Thread σ κ ε α := ⟨p, id, []⟩

def Config.initial (prog : ι → Prog σ κ ε α) (db : σ) : Config ι σ κ ε α :=
  ⟨db, fun i => .running (.fresh (prog i)), []⟩

/-- What the transaction sees now. -/
def Thread.view (t : Thread σ κ ε α) (db : σ) : σ := t.pend db

/-- No other transaction in flight holds one of the rows `ks`. -/
def Config.Free (c : Config ι σ κ ε α) (i : ι) (ks : List κ) : Prop :=
  ∀ j, j ≠ i → ∀ k ∈ ks, k ∉ (c.threads j).locks

/-- The transaction after one statement executed on what it sees. -/
def Thread.exec (t : Thread σ κ ε α) (l : σ → List κ) (w : σ → σ → σ)
    (n : σ → Prog σ κ ε α) (db : σ) : Thread σ κ ε α :=
  ⟨n (t.view db), w (t.view db) ∘ t.pend, l (t.view db) ++ t.locks⟩

/-- The bodies run one after another, each alone: those that fail leave no trace. -/
inductive Serial (prog : ι → Prog σ κ ε α) (db : σ) : List (ι × Except ε α) → σ → Prop
  | nil : Serial prog db [] db
  | ok {log s i a t} (prior : Serial prog db log s) (fresh : i ∉ log.map Prod.fst)
      (run : (prog i).run s = .ok (a, t)) : Serial prog db (log ++ [(i, .ok a)]) t
  | error {log s i e} (prior : Serial prog db log s) (fresh : i ∉ log.map Prod.fst)
      (run : (prog i).run s = .error e) : Serial prog db (log ++ [(i, .error e)]) s

/-- What every body that succeeds alone preserves holds after every serial run. -/
theorem Serial.invariant {prog : ι → Prog σ κ ε α} {db s : σ} {log : List (ι × Except ε α)}
    (h : Serial prog db log s) {I : σ → Prop} (h0 : I db)
    (hs : ∀ i s a t, I s → (prog i).run s = .ok (a, t) → I t) : I s := by
  induction h with
  | nil => exact h0
  | ok _ _ hr ih => exact hs _ _ _ _ ih hr
  | error _ _ _ ih => exact ih

variable [DecidableEq ι]

def Config.setThread (c : Config ι σ κ ε α) (i : ι) (s : Status σ κ ε α) : Config ι σ κ ε α :=
  { c with threads := Function.update c.threads i s }

/-- One event: a statement, a commit, an exit with its rollback, or a crash (lost
connection, deadlock victim) at any point. -/
inductive Step : Config ι σ κ ε α → Config ι σ κ ε α → Prop
  | exec {c i t l w n} (running : c.threads i = .running t) (prog : t.prog = .stmt l w n)
      (free : c.Free i (l (t.view c.db))) :
      Step c (c.setThread i (.running (t.exec l w n c.db)))
  | commit {c i t a} (running : c.threads i = .running t) (prog : t.prog = .pure a) :
      Step c { c.setThread i (.committed a) with
        db := t.view c.db, log := c.log ++ [(i, .ok a)] }
  | exit {c i t e} (running : c.threads i = .running t) (prog : t.prog = .fail e) :
      Step c { c.setThread i .aborted with log := c.log ++ [(i, .error e)] }
  | crash {c i t} (running : c.threads i = .running t) : Step c (c.setThread i .aborted)

/-- The configurations some interleaving of the bodies reaches from the store `db`. -/
inductive Reachable (prog : ι → Prog σ κ ε α) (db : σ) : Config ι σ κ ε α → Prop
  | initial : Reachable prog db (.initial prog db)
  | step {c d} (prior : Reachable prog db c) (next : Step c d) : Reachable prog db d

@[simp] theorem Config.setThread_db (c : Config ι σ κ ε α) (i : ι) (s : Status σ κ ε α) :
    (c.setThread i s).db = c.db := rfl

@[simp] theorem Config.setThread_log (c : Config ι σ κ ε α) (i : ι) (s : Status σ κ ε α) :
    (c.setThread i s).log = c.log := rfl

@[simp] theorem Config.setThread_same (c : Config ι σ κ ε α) (i : ι) (s : Status σ κ ε α) :
    (c.setThread i s).threads i = s := Function.update_self ..

theorem Config.setThread_ne (c : Config ι σ κ ε α) {i j : ι} (s : Status σ κ ε α) (h : j ≠ i) :
    (c.setThread i s).threads j = c.threads j := Function.update_of_ne h ..

/-- A running thread after `i` changed its status is `i` itself or was running before. -/
theorem Config.running_setThread {c : Config ι σ κ ε α} {i j : ι} {s : Status σ κ ε α}
    {t : Thread σ κ ε α} (h : (c.setThread i s).threads j = .running t) :
    (j = i ∧ s = .running t) ∨ (j ≠ i ∧ c.threads j = .running t) := by
  by_cases hj : j = i
  · subst hj
    exact .inl ⟨rfl, by simpa using h⟩
  · exact .inr ⟨hj, by rwa [c.setThread_ne s hj] at h⟩

@[simp] theorem Config.setThread_setThread (c : Config ι σ κ ε α) (i : ι) (s u : Status σ κ ε α) :
    (c.setThread i s).setThread i u = c.setThread i u := by
  simp [Config.setThread]

theorem Config.setThread_self {c : Config ι σ κ ε α} {i : ι} {s : Status σ κ ε α}
    (h : c.threads i = s) : c.setThread i s = c := by
  subst h
  simp [Config.setThread]

/-- The configurations reached by steps that all meet `K`. -/
inductive ReachableWhere (K : Config ι σ κ ε α → Config ι σ κ ε α → Prop) (prog : ι → Prog σ κ ε α)
    (db : σ) : Config ι σ κ ε α → Prop
  | initial : ReachableWhere K prog db (.initial prog db)
  | step {c d} (prior : ReachableWhere K prog db c) (next : Step c d) (meets : K c d) :
      ReachableWhere K prog db d

variable {K : Config ι σ κ ε α → Config ι σ κ ε α → Prop} {prog : ι → Prog σ κ ε α} {db : σ}

theorem ReachableWhere.reachable {c : Config ι σ κ ε α} (h : ReachableWhere K prog db c) :
    Reachable prog db c := by
  induction h with
  | initial => exact .initial
  | step _ next _ ih => exact ih.step next

/-- Every step meets the empty condition. -/
theorem Reachable.unconditional {c : Config ι σ κ ε α} (h : Reachable prog db c) :
    ReachableWhere (fun _ _ => True) prog db c := by
  induction h with
  | initial => exact .initial
  | step _ next ih => exact ih.step next trivial

/-- A transaction that succeeds alone runs through and commits while no other holds a lock. -/
theorem ReachableWhere.through {c : Config ι σ κ ε α} (hc : ReachableWhere K prog db c) {i : ι}
    {t : Thread σ κ ε α} (hrun : c.threads i = .running t)
    (hfree : ∀ j, j ≠ i → (c.threads j).locks = []) {a : α} {s : σ}
    (hok : t.prog.run (t.view c.db) = .ok (a, s))
    (hexec : ∀ u v, K (c.setThread i (.running u)) (c.setThread i (.running v)))
    (hcommit : ∀ u, u.view c.db = s → K (c.setThread i (.running u))
      { c.setThread i (.committed a) with db := s, log := c.log ++ [(i, .ok a)] }) :
    ReachableWhere K prog db
      { c.setThread i (.committed a) with db := s, log := c.log ++ [(i, .ok a)] } := by
  rw [← Config.setThread_self hrun] at hc
  clear hrun
  obtain ⟨p, pend, locks⟩ := t
  induction p generalizing pend locks with
  | pure b =>
    cases hok
    have hstep := Step.commit (c := c.setThread i (.running ⟨.pure a, pend, locks⟩)) (i := i)
      (c.setThread_same i _) rfl
    simp only [Config.setThread_setThread] at hstep
    exact hc.step hstep (hcommit _ rfl)
  | fail e => cases hok
  | stmt l w n ih =>
    have hstep := Step.exec (c := c.setThread i (.running ⟨.stmt l w n, pend, locks⟩)) (i := i)
      (c.setThread_same i _) rfl (by
        intro j hj k _
        rw [c.setThread_ne _ hj, hfree j hj]
        exact List.not_mem_nil)
    simp only [Config.setThread_setThread] at hstep
    exact ih _ _ _ (hc.step hstep (hexec _ _)) hok

/-- If the statements of every body write within `W`, a set of effects that holds the
identity and is closed under composition, then so are the pending writes of every
transaction in flight and what is left of its body. -/
theorem Reachable.writes {prog : ι → Prog σ κ ε α} {db : σ} {c : Config ι σ κ ε α}
    (h : Reachable prog db c) {W : ι → (σ → σ) → Prop} (hid : ∀ i, W i id)
    (hcomp : ∀ i f g, W i f → W i g → W i (f ∘ g)) (hp : ∀ i, (prog i).Writes (W i)) :
    ∀ i t, c.threads i = .running t → W i t.pend ∧ t.prog.Writes (W i) := by
  induction h with
  | initial =>
    intro i t ht
    cases ht
    exact ⟨hid i, hp i⟩
  | @step c d _ hs ih =>
    intro i t ht
    cases hs with
    | @exec j t' l w n hrun hprog _ =>
      rcases Config.running_setThread ht with ⟨rfl, he⟩ | ⟨_, hi⟩
      · cases he
        obtain ⟨hw, hb⟩ := ih i t' hrun
        rw [hprog] at hb
        exact ⟨hcomp _ (w (t'.view c.db)) t'.pend (hb (t'.view c.db)).1 hw, (hb (t'.view c.db)).2⟩
      · exact ih i t hi
    | commit | exit | crash =>
      rcases Config.running_setThread ht with ⟨_, he⟩ | ⟨_, hi⟩
      · cases he
      · exact ih i t hi

/-- The three moves a scheduler has on a transaction. -/
inductive Move (ι : Type)
  | exec (i : ι)
  | finish (i : ι)
  | crash (i : ι)

/-- Play one move; `none` when the transaction cannot make it. -/
def Config.move [Fintype ι] [DecidableEq κ] (c : Config ι σ κ ε α) :
    Move ι → Option (Config ι σ κ ε α)
  | .exec i =>
    match c.threads i with
    | .running ⟨.stmt l w n, pend, locks⟩ =>
      if ∀ j, j ≠ i → ∀ k ∈ l (pend c.db), k ∉ (c.threads j).locks then
        some (c.setThread i (.running (Thread.exec ⟨.stmt l w n, pend, locks⟩ l w n c.db)))
      else none
    | _ => none
  | .finish i =>
    match c.threads i with
    | .running ⟨.pure a, pend, _⟩ =>
      some { c.setThread i (.committed a) with db := pend c.db, log := c.log ++ [(i, .ok a)] }
    | .running ⟨.fail e, _, _⟩ =>
      some { c.setThread i .aborted with log := c.log ++ [(i, .error e)] }
    | _ => none
  | .crash i =>
    match c.threads i with
    | .running _ => some (c.setThread i .aborted)
    | _ => none

def Config.play [Fintype ι] [DecidableEq κ] (c : Config ι σ κ ε α) (ms : List (Move ι)) :
    Option (Config ι σ κ ε α) := ms.foldlM Config.move c

theorem Config.move_sound [Fintype ι] [DecidableEq κ] {c d : Config ι σ κ ε α} {m : Move ι}
    (h : c.move m = some d) : Step c d := by
  cases m with
  | exec i =>
    simp only [move] at h
    split at h
    · next l w n pend locks hrun =>
      split_ifs at h with hfree
      cases h
      exact .exec hrun rfl hfree
    · cases h
  | finish i =>
    simp only [move] at h
    split at h
    · next hrun => cases h; exact .commit hrun rfl
    · next hrun => cases h; exact .exit hrun rfl
    · cases h
  | crash i =>
    simp only [move] at h
    split at h
    · next hrun => cases h; exact .crash hrun
    · cases h

theorem Reachable.play [Fintype ι] [DecidableEq κ] {prog : ι → Prog σ κ ε α} {db : σ}
    {c d : Config ι σ κ ε α} (hc : Reachable prog db c) {ms : List (Move ι)}
    (h : c.play ms = some d) : Reachable prog db d := by
  induction ms generalizing c with
  | nil =>
    cases h
    exact hc
  | cons m ms ih =>
    simp only [Config.play, List.foldlM_cons] at h
    obtain ⟨c', hm, hd⟩ := Option.bind_eq_some_iff.mp h
    exact ih (hc.step (Config.move_sound hm)) hd

/-- A configuration found by playing, with what can be computed about it. -/
theorem Reachable.of_play [Fintype ι] [DecidableEq κ] (prog : ι → Prog σ κ ε α) (db : σ)
    (ms : List (Move ι)) (P : Config ι σ κ ε α → Bool)
    (h : ((Config.initial prog db).play ms).any P = true) :
    ∃ c, Reachable prog db c ∧ P c = true := by
  obtain ⟨c, hp, hP⟩ := (Option.any_eq_true _ _).mp h
  exact ⟨c, Reachable.initial.play hp, hP⟩

/-- Play a schedule while the configurations it passes meet `P`. -/
def Config.playWhile [Fintype ι] [DecidableEq κ] (P : Config ι σ κ ε α → Bool) (c : Config ι σ κ ε α)
    (ms : List (Move ι)) : Option (Config ι σ κ ε α) :=
  ms.foldlM (fun c m => if P c then c.move m else none) c

/-- A run whose steps meet `K`, found by playing, with what can be computed about its end. -/
theorem ReachableWhere.of_play [Fintype ι] [DecidableEq κ] (prog : ι → Prog σ κ ε α) (db : σ)
    (P Q : Config ι σ κ ε α → Bool)
    (hP : ∀ c d, P c = true → K c d) (ms : List (Move ι))
    (h : ((Config.initial prog db).playWhile P ms).any Q = true) :
    ∃ c, ReachableWhere K prog db c ∧ Q c = true := by
  obtain ⟨c, hc, hQ⟩ := (Option.any_eq_true _ _).mp h
  have hplay : ∀ b, ReachableWhere K prog db b → b.playWhile P ms = some c →
      ReachableWhere K prog db c := by
    clear h hc
    induction ms with
    | nil =>
      intro b hb hbc
      cases hbc
      exact hb
    | cons m ms ih =>
      intro b hb hbc
      simp only [Config.playWhile, List.foldlM_cons] at hbc
      obtain ⟨b', hm, hd⟩ := Option.bind_eq_some_iff.mp hbc
      split_ifs at hm with hPb
      exact ih b' (hb.step (Config.move_sound hm) (hP b b' hPb)) hd
  exact ⟨c, hplay _ .initial hc, hQ⟩

/-- A schedule leads from where it is played to where it ends. -/
theorem Config.play_steps [Fintype ι] [DecidableEq κ] {c d : Config ι σ κ ε α} {ms : List (Move ι)}
    (h : c.play ms = some d) : Relation.ReflTransGen Step c d := by
  induction ms generalizing c with
  | nil =>
    cases h
    exact .refl
  | cons m ms ih =>
    simp only [Config.play, List.foldlM_cons] at h
    obtain ⟨c', hm, hd⟩ := Option.bind_eq_some_iff.mp h
    exact .head (Config.move_sound hm) (ih hd)

/-- Two configurations of one run found by playing. -/
theorem Reachable.of_play_twice [Fintype ι] [DecidableEq κ] (prog : ι → Prog σ κ ε α) (db : σ)
    (ms ms' : List (Move ι)) (P Q : Config ι σ κ ε α → Bool)
    (h : ((Config.initial prog db).play ms).any (fun c => P c && (c.play ms').any Q) = true) :
    ∃ c d, Reachable prog db c ∧ Relation.ReflTransGen Step c d ∧ P c = true ∧ Q d = true := by
  obtain ⟨c, hc, hPQ⟩ := (Option.any_eq_true _ _).mp h
  obtain ⟨hP, hQ⟩ := (Bool.and_eq_true_iff).mp hPQ
  obtain ⟨d, hd, hQd⟩ := (Option.any_eq_true _ _).mp hQ
  exact ⟨c, d, Reachable.initial.play hc, Config.play_steps hd, hP, hQd⟩

abbrev left : Fin 2 := 0

abbrev right : Fin 2 := 1

theorem mem_left_right (i : Fin 2) : i ∈ [left, right] := by
  revert i
  decide

def sideBySide {β : Type} (a b : β) (i : Fin 2) : β := if i = left then a else b

/-- The moves that run a transaction of `n` statements to its end. -/
def Move.through (i : ι) (n : Nat) : List (Move ι) := List.replicate n (.exec i) ++ [.finish i]

end Noxara.Transaction
