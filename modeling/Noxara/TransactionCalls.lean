import Noxara.TransactionRows

/-! Requests that run transactions and call services outside of the database. A statement sees the committed
store under what the open transaction has written; what a call does is there at once and for everybody, and it
stays when the transaction is rolled back. A request that ends leaves its open transaction to be rolled back. -/
namespace Noxara.Transaction

/-- `call effect` works on the store as everybody sees it. -/
inductive Request (σ κ ε α : Type) : Type
  | pure (a : α)
  | fail (e : ε)
  | stmt (locks : σ → List κ) (write : σ → σ → σ) (next : σ → Request σ κ ε α)
  | call (effect : σ → σ) (next : σ → Request σ κ ε α)
  | commit (next : Request σ κ ε α)

/-- An open transaction: the rows it has locked and what it has written. -/
structure Open (σ κ : Type) where
  locks : List κ
  pend : σ → σ

def Open.start {σ κ : Type} : Open σ κ := ⟨[], id⟩

/-- After one more statement on the committed store `s`. -/
def Open.push {σ κ : Type} (x : Open σ κ) (l : σ → List κ) (w : σ → σ → σ) (s : σ) : Open σ κ :=
  ⟨l (x.pend s) ++ x.locks, w (x.pend s) ∘ x.pend⟩

namespace Request
variable {σ κ ε α β : Type}

def bind : Request σ κ ε α → (α → Request σ κ ε β) → Request σ κ ε β
  | pure a, f => f a
  | fail e, _ => fail e
  | stmt l w n, f => stmt l w fun v => (n v).bind f
  | call e n, f => call e fun s => (n s).bind f
  | commit n, f => commit (n.bind f)

instance : Monad (Request σ κ ε) where
  pure := pure
  bind := bind

/-- Statements of the open transaction. -/
def ofProg : Prog σ κ ε α → Request σ κ ε α
  | .pure a => pure a
  | .fail e => fail e
  | .stmt l w n => stmt l w fun v => ofProg (n v)

instance : MonadLift (Prog σ κ ε) (Request σ κ ε) := ⟨ofProg⟩

def okOr (x : Option α) (e : ε) : Request σ κ ε α :=
  match x with | some a => pure a | none => fail e

def ofExcept (x : Except ε α) : Request σ κ ε α :=
  match x with | .ok a => pure a | .error e => fail e

/-- Call a service that answers and changes, or refuses and does not. -/
def ask (service : σ → Except ε (α × σ)) : Request σ κ ε α :=
  call (fun s => match service s with | .ok r => r.2 | .error _ => s) fun s =>
    match service s with | .ok r => pure r.1 | .error e => fail e

/-- `tx.commit()`. -/
def commitTx : Request σ κ ε Unit := commit (pure ())

/-- The request alone, with what its open transaction has written: its answer and the store it leaves. -/
def run : Request σ κ ε α → (σ → σ) → σ → Except ε α × σ
  | pure a, _, s => (.ok a, s)
  | fail e, _, s => (.error e, s)
  | stmt _ w n, f, s => (n (f s)).run (w (f s) ∘ f) s
  | call e n, f, s => (n s).run f (e s)
  | commit n, f, s => n.run id (f s)

section
variable {f : σ → σ} {s : σ}

@[simp] theorem run_pure (a : α) : (Pure.pure a : Request σ κ ε α).run f s = (.ok a, s) := rfl

theorem run_query_bind (g : σ → α) (h : α → Request σ κ ε β) :
    (liftM (Prog.query g : Prog σ κ ε α) >>= h : Request σ κ ε β).run f s = (h (g (f s))).run f s := rfl

theorem run_require_bind {c : Prop} [Decidable c] (hc : c) (e : ε) (h : Unit → Request σ κ ε β) :
    (liftM (Prog.require c e : Prog σ κ ε Unit) >>= h : Request σ κ ε β).run f s = (h ()).run f s := by
  rw [Prog.require, if_pos hc]
  rfl

theorem run_ofExcept_bind {x : Except ε α} {a : α} (hx : x = .ok a) (h : α → Request σ κ ε β) :
    (ofExcept x >>= h).run f s = (h a).run f s := by
  subst hx
  rfl

theorem run_executeReturning_bind {l : σ → List κ} {c : σ → Except ε α} {w : σ → σ → σ} {a : α}
    (hc : c (f s) = .ok a) (h : α → Request σ κ ε β) :
    (liftM (Prog.executeReturning l c w : Prog σ κ ε α) >>= h : Request σ κ ε β).run f s =
      (h a).run (w (f s) ∘ f) s := by
  unfold Prog.executeReturning
  change ((ofProg (match c (f s) with | .ok a => .pure a | .error e => .fail e)).bind h).run _ s = _
  simp only [hc]
  rfl

theorem run_execute_bind {l : σ → List κ} {c : σ → Except ε Unit} {w : σ → σ → σ} (hc : c (f s) = .ok ())
    (h : Unit → Request σ κ ε β) :
    (liftM (Prog.execute l c w : Prog σ κ ε Unit) >>= h : Request σ κ ε β).run f s =
      (h ()).run (w (f s) ∘ f) s := by
  rw [Prog.execute_eq]
  exact run_executeReturning_bind hc h

theorem run_ask_bind {service : σ → Except ε (α × σ)} {a : α} {t : σ} (hs : service s = .ok (a, t))
    (h : α → Request σ κ ε β) : (ask service >>= h).run f s = (h a).run f t := by
  change ((match service s with | .ok r => pure r.1 | .error e => fail e).bind h).run f
    (match service s with | .ok r => r.2 | .error _ => s) = _
  simp only [hs]
  rfl

end

end Request

variable {ι σ κ ε α β : Type}

/-- A request in flight: what is left of it, and its open transaction. -/
structure InFlight (σ κ ε α : Type) where
  rest : Request σ κ ε α
  tx : Open σ κ

/-- `commits` tells who has committed, and `log` how requests ended, both the oldest first. -/
structure Traffic (ι σ κ ε α : Type) where
  db : σ
  flights : ι → Option (InFlight σ κ ε α)
  commits : List ι
  log : List (ι × Except ε α)

def Traffic.initial (reqs : ι → Request σ κ ε α) (db : σ) : Traffic ι σ κ ε α :=
  ⟨db, fun i => some ⟨reqs i, .start⟩, [], []⟩

/-- What a run may be asked to meet: at a commit of `i`, with what it holds and the committed store, and at a
call of `i`, with the store before and after it. -/
structure Premises (ι σ κ : Type) where
  commit : ι → Open σ κ → σ → Prop
  call : ι → σ → σ → Prop

/-- Nothing is asked. -/
def Premises.none : Premises ι σ κ := ⟨fun _ _ _ => True, fun _ _ _ => True⟩

namespace Traffic

/-- The locks that `i` holds. -/
def locks (c : Traffic ι σ κ ε α) (i : ι) : List κ := ((c.flights i).map fun t => t.tx.locks).getD []

/-- No other request in flight holds one of the rows `ks`. -/
def Free (c : Traffic ι σ κ ε α) (i : ι) (ks : List κ) : Prop := ∀ j, j ≠ i → ∀ k ∈ ks, k ∉ c.locks j

variable [DecidableEq ι]

def setFlight (c : Traffic ι σ κ ε α) (i : ι) (t : Option (InFlight σ κ ε α)) : Traffic ι σ κ ε α :=
  { c with flights := Function.update c.flights i t }

@[simp] theorem setFlight_db (c : Traffic ι σ κ ε α) (i : ι) (t : Option (InFlight σ κ ε α)) :
    (c.setFlight i t).db = c.db := rfl

@[simp] theorem setFlight_commits (c : Traffic ι σ κ ε α) (i : ι) (t : Option (InFlight σ κ ε α)) :
    (c.setFlight i t).commits = c.commits := rfl

/-- One event: a statement, a call, a commit, the end of a request, or a crash at any point. -/
inductive Step (P : Premises ι σ κ) : Traffic ι σ κ ε α → Traffic ι σ κ ε α → Prop
  | exec {c i x l w n} (running : c.flights i = some ⟨.stmt l w n, x⟩) (free : c.Free i (l (x.pend c.db))) :
      Step P c (c.setFlight i (some ⟨n (x.pend c.db), x.push l w c.db⟩))
  | call {c i x e n} (running : c.flights i = some ⟨.call e n, x⟩) (meets : P.call i c.db (e c.db)) :
      Step P c { c.setFlight i (some ⟨n c.db, x⟩) with db := e c.db }
  | commit {c i x n} (running : c.flights i = some ⟨.commit n, x⟩) (meets : P.commit i x c.db) :
      Step P c { c.setFlight i (some ⟨n, .start⟩) with db := x.pend c.db, commits := c.commits ++ [i] }
  | finish {c i x a} (running : c.flights i = some ⟨.pure a, x⟩) :
      Step P c { c.setFlight i none with log := c.log ++ [(i, .ok a)] }
  | exit {c i x e} (running : c.flights i = some ⟨.fail e, x⟩) :
      Step P c { c.setFlight i none with log := c.log ++ [(i, .error e)] }
  | crash {c i t} (running : c.flights i = some t) : Step P c (c.setFlight i none)

abbrev Steps (P : Premises ι σ κ) : Traffic ι σ κ ε α → Traffic ι σ κ ε α → Prop :=
  Relation.ReflTransGen (Step P)

/-- What some run of the requests that meets `P` reaches. -/
def Reached (P : Premises ι σ κ) (reqs : ι → Request σ κ ε α) (db : σ) (c : Traffic ι σ κ ε α) : Prop :=
  Steps P (.initial reqs db) c

variable {P : Premises ι σ κ} {c d : Traffic ι σ κ ε α}

theorem Step.mono {P' : Premises ι σ κ} (hcommit : ∀ i x s, P.commit i x s → P'.commit i x s)
    (hcall : ∀ i s s', P.call i s s' → P'.call i s s') (h : Step P c d) : Step P' c d := by
  cases h with
  | exec running free => exact .exec running free
  | call running meets => exact .call running (hcall _ _ _ meets)
  | commit running meets => exact .commit running (hcommit _ _ _ meets)
  | finish running => exact .finish running
  | exit running => exact .exit running
  | crash running => exact .crash running

theorem Steps.mono {P' : Premises ι σ κ} (hcommit : ∀ i x s, P.commit i x s → P'.commit i x s)
    (hcall : ∀ i s s', P.call i s s' → P'.call i s s') (h : Steps P c d) : Steps P' c d := by
  induction h with
  | refl => exact .refl
  | tail _ hs ih => exact ih.tail (hs.mono hcommit hcall)

theorem flights_setFlight {i j : ι} {t : Option (InFlight σ κ ε α)} {u : InFlight σ κ ε α}
    (h : (c.setFlight i t).flights j = some u) : (j = i ∧ t = some u) ∨ (j ≠ i ∧ c.flights j = some u) := by
  by_cases hj : j = i
  · subst hj
    left
    exact ⟨rfl, by simpa [setFlight] using h⟩
  · right
    exact ⟨hj, by simpa [setFlight, hj] using h⟩

omit [DecidableEq ι] in
theorem mem_locks {i : ι} {k : κ} : k ∈ c.locks i ↔ ∃ t, c.flights i = some t ∧ k ∈ t.tx.locks := by
  unfold locks
  cases c.flights i with
  | none => simp
  | some t => simp

/-- Who holds a lock after a step held it before, or is the one that moved and found it free. -/
theorem Step.locks_of (h : Step P c d) :
    ∃ m, ∀ j k, k ∈ d.locks j → k ∈ c.locks j ∨ (j = m ∧ ∀ i, i ≠ m → k ∉ c.locks i) := by
  have hkept : ∀ (t : InFlight σ κ ε α) (j : ι) (k : κ), c.flights j = some t → k ∈ t.tx.locks →
      k ∈ c.locks j := fun t j k ht hk => mem_locks.mpr ⟨t, ht, hk⟩
  cases h with
  | @exec m x l w n running free =>
    refine ⟨m, fun j k hk => ?_⟩
    obtain ⟨t, ht, hkt⟩ := mem_locks.mp hk
    rcases flights_setFlight ht with ⟨rfl, he⟩ | ⟨_, hj⟩
    · cases he
      rcases List.mem_append.mp hkt with hl | hx
      · exact .inr ⟨rfl, fun i hi => free i hi k hl⟩
      · exact .inl (hkept _ _ _ running hx)
    · exact .inl (hkept _ _ _ hj hkt)
  | @call m x e n running =>
    refine ⟨m, fun j k hk => .inl ?_⟩
    obtain ⟨t, ht, hkt⟩ := mem_locks.mp hk
    rcases flights_setFlight ht with ⟨rfl, he⟩ | ⟨_, hj⟩
    · cases he
      exact hkept _ _ _ running hkt
    · exact hkept _ _ _ hj hkt
  | @commit m x n running =>
    refine ⟨m, fun j k hk => .inl ?_⟩
    obtain ⟨t, ht, hkt⟩ := mem_locks.mp hk
    rcases flights_setFlight ht with ⟨rfl, he⟩ | ⟨_, hj⟩
    · cases he
      cases hkt
    · exact hkept _ _ _ hj hkt
  | @finish m | @exit m | @crash m =>
    refine ⟨m, fun j k hk => .inl ?_⟩
    obtain ⟨t, ht, hkt⟩ := mem_locks.mp hk
    rcases flights_setFlight ht with ⟨_, he⟩ | ⟨_, hj⟩
    · cases he
    · exact hkept _ _ _ hj hkt

/-- No two requests in flight hold the lock of one row. -/
theorem Reached.exclusive {reqs : ι → Request σ κ ε α} {db : σ} (h : Reached P reqs db c) (k : κ) (i j : ι)
    (hi : k ∈ c.locks i) (hj : k ∈ c.locks j) : i = j := by
  induction h with
  | refl => cases hi
  | tail _ hs ih =>
    obtain ⟨m, hm⟩ := hs.locks_of
    rcases hm i k hi with hib | ⟨rfl, hothers⟩
    · rcases hm j k hj with hjb | ⟨rfl, hothers⟩
      · exact ih hib hjb
      · by_contra hne
        exact hothers i hne hib
    · rcases hm j k hj with hjb | ⟨rfl, _⟩
      · by_contra hne
        exact hothers j (Ne.symm hne) hjb
      · rfl

end Traffic

/-- The two ways in which a request changes what everybody sees. -/
inductive Act
  | call
  | commit

/-- What one request may count on: `rely ls` are the changes that others make of the store while it holds the
locks `ls`, and `commit` and `call` what a run asks of its commits and its calls. `keeps act ls` are the
changes it may make itself. -/
structure Duty (σ κ : Type) where
  rely : List κ → σ → σ → Prop
  commit : Open σ κ → σ → Prop
  call : σ → σ → Prop
  keeps : Act → List κ → σ → σ → Prop
  refl : ∀ ls s, rely ls s s
  trans : ∀ {ls s t u}, rely ls s t → rely ls t u → rely ls s u

/-- The others do what `keeps` lets each of them do where `I` holds, with locks of their own. -/
def Duty.among (keeps : ι → Act → List κ → σ → σ → Prop) (I : σ → Prop) (P : Premises ι σ κ)
    (i : ι) : Duty σ κ where
  rely ls := Relation.ReflTransGen fun s t =>
    ∃ j act ls', j ≠ i ∧ (∀ k ∈ ls', k ∉ ls) ∧ I s ∧ keeps j act ls' s t
  commit := P.commit i
  call := P.call i
  keeps := keeps i
  refl _ _ := .refl
  trans h h' := h.trans h'

theorem Duty.among_preserves {keeps : ι → Act → List κ → σ → σ → Prop} {I : σ → Prop}
    {P : Premises ι σ κ} {i : ι}
    {ls : List κ} (F : σ → Prop)
    (hF : ∀ j act ls' s t, j ≠ i → (∀ k ∈ ls', k ∉ ls) → I s → keeps j act ls' s t → F s → F t)
      {s t : σ}
    (h : (Duty.among keeps I P i).rely ls s t) (hs : F s) : F t := by
  induction h with
  | refl => exact hs
  | tail _ hstep ih =>
    obtain ⟨j, act, ls', hj, hls, hI, hkeeps⟩ := hstep
    exact hF j act ls' _ _ hj hls hI hkeeps ih

namespace Request

/-- Every commit and every call of the request is one that it may make; it ends in `Q`. -/
def Safe (D : Duty σ κ) (Q : α → Open σ κ → σ → Prop) : Request σ κ ε α → Open σ κ → σ → Prop
  | pure a, x, s => ∀ s', D.rely x.locks s s' → Q a x s'
  | fail _, _, _ => True
  | stmt l w n, x, s => ∀ s', D.rely x.locks s s' → (n (x.pend s')).Safe D Q (x.push l w s') s'
  | call e n, x, s => ∀ s', D.rely x.locks s s' → D.call s' (e s') →
      D.keeps .call x.locks s' (e s') ∧ (n s').Safe D Q x (e s')
  | commit n, x, s => ∀ s', D.rely x.locks s s' → D.commit x s' →
      D.keeps .commit x.locks s' (x.pend s') ∧ n.Safe D Q .start (x.pend s')

variable {D : Duty σ κ} {Q : α → Open σ κ → σ → Prop} {R : β → Open σ κ → σ → Prop}
    {x : Open σ κ} {s : σ}

theorem Safe.rely {r : Request σ κ ε α} (h : r.Safe D Q x s) {s' : σ} (hs : D.rely x.locks s s') :
    r.Safe D Q x s' := by
  cases r with
  | fail e => trivial
  | pure a | stmt l w n | call e n | commit n => exact fun u hu => h u (D.trans hs hu)

theorem Safe.mono {Q' : α → Open σ κ → σ → Prop} {r : Request σ κ ε α} (h : r.Safe D Q x s)
    (hq : ∀ a y u, Q a y u → Q' a y u) : r.Safe D Q' x s := by
  induction r generalizing x s with
  | pure a => exact fun u hu => hq _ _ _ (h u hu)
  | fail e => trivial
  | stmt l w n ih => exact fun u hu => ih _ (h u hu)
  | call e n ih => exact fun u hu hcall => ⟨(h u hu hcall).1, ih _ (h u hu hcall).2⟩
  | commit n ih => exact fun u hu hcommit => ⟨(h u hu hcommit).1, ih (h u hu hcommit).2⟩

theorem Safe.bind {r : Request σ κ ε α} {f : α → Request σ κ ε β}
    (h : r.Safe D (fun a y u => (f a).Safe D R y u) x s) : (r >>= f).Safe D R x s := by
  induction r generalizing x s with
  | pure a => exact h s (D.refl _ _)
  | fail e => trivial
  | stmt l w n ih => exact fun u hu => ih _ (h u hu)
  | call e n ih => exact fun u hu hcall => ⟨(h u hu hcall).1, ih _ (h u hu hcall).2⟩
  | commit n ih => exact fun u hu hcommit => ⟨(h u hu hcommit).1, ih (h u hu hcommit).2⟩

theorem Safe.query_bind {g : σ → α} {f : α → Request σ κ ε β}
    (h : ∀ u, D.rely x.locks s u → (f (g (x.pend u))).Safe D R x u) :
    (liftM (Prog.query g : Prog σ κ ε α) >>= f : Request σ κ ε β).Safe D R x s := h

theorem Safe.executeReturning_bind {l : σ → List κ} {c : σ → Except ε α} {w : σ → σ → σ}
    {f : α → Request σ κ ε β}
    (h : ∀ u a, D.rely x.locks s u → c (x.pend u) = .ok a → (f a).Safe D R (x.push l w u) u) :
    (liftM (Prog.executeReturning l c w : Prog σ κ ε α) >>= f : Request σ κ ε β).Safe D R x s := by
  intro u hu
  have hnext := h u
  simp only [Open.push] at hnext ⊢
  change ((ofProg (match c (x.pend u) with | .ok a => .pure a | .error e => .fail e)).bind f).Safe D R _ u
  cases hc : c (x.pend u) with
  | ok a => exact hnext a hu hc
  | error e => trivial

theorem Safe.execute_bind {l : σ → List κ} {c : σ → Except ε Unit} {w : σ → σ → σ}
    {f : Unit → Request σ κ ε β}
    (h : ∀ u, D.rely x.locks s u → c (x.pend u) = .ok () → (f ()).Safe D R (x.push l w u) u) :
    (liftM (Prog.execute l c w : Prog σ κ ε Unit) >>= f : Request σ κ ε β).Safe D R x s := by
  rw [Prog.execute_eq]
  exact Safe.executeReturning_bind fun u _ hu hc => h u hu hc

theorem Safe.require_bind {c : Prop} [Decidable c] {e : ε} {f : Unit → Request σ κ ε β}
    (h : c → (f ()).Safe D R x s) :
    (liftM (Prog.require c e : Prog σ κ ε Unit) >>= f : Request σ κ ε β).Safe D R x s := by
  unfold Prog.require
  split_ifs with hc
  · exact h hc
  · trivial

theorem Safe.okOr_bind {y : Option α} {e : ε} {f : α → Request σ κ ε β}
    (h : ∀ a, y = some a → (f a).Safe D R x s) : (okOr y e >>= f).Safe D R x s := by
  cases y with
  | none => trivial
  | some a => exact h a rfl

theorem Safe.ofExcept_bind {y : Except ε α} {f : α → Request σ κ ε β}
    (h : ∀ a, y = .ok a → (f a).Safe D R x s) : (ofExcept y >>= f).Safe D R x s := by
  cases y with
  | error e => trivial
  | ok a => exact h a rfl

theorem Safe.ask_bind {service : σ → Except ε (α × σ)} {f : α → Request σ κ ε β}
    (herror : ∀ u e, D.rely x.locks s u → service u = .error e → D.keeps .call x.locks u u)
    (h : ∀ u a t, D.rely x.locks s u → service u = .ok (a, t) → D.call u t →
      D.keeps .call x.locks u t ∧ (f a).Safe D R x t) : (ask service >>= f).Safe D R x s := by
  intro u hu
  dsimp only
  intro hcall
  change _ ∧ ((match service u with | .ok r => pure r.1 | .error e => fail e).bind f).Safe D R x _
  cases hs : service u with
  | ok r =>
    simp only [hs] at hcall ⊢
    exact h u r.1 r.2 hu hs hcall
  | error e => exact ⟨herror u e hu hs, trivial⟩

theorem Safe.commitTx_bind {f : Unit → Request σ κ ε β}
    (h : ∀ u, D.rely x.locks s u → D.commit x u →
      D.keeps .commit x.locks u (x.pend u) ∧ (f ()).Safe D R .start (x.pend u)) : (commitTx >>= f).Safe D R x s := h

theorem Safe.done {a : α} : (Pure.pure a : Request σ κ ε α).Safe D (fun _ _ _ => True) x s :=
  fun _ _ => trivial

theorem Safe.executeReturning {l : σ → List κ} {c : σ → Except ε α} {w : σ → σ → σ}
    {Q : α → Open σ κ → σ → Prop}
    (h : ∀ u v a, D.rely x.locks s u → c (x.pend u) = .ok a → D.rely (x.push l w u).locks u v →
      Q a (x.push l w u) v) :
    (liftM (Prog.executeReturning l c w : Prog σ κ ε α) : Request σ κ ε α).Safe D Q x s := by
  intro u hu
  have hnext := h u
  simp only [Open.push] at hnext ⊢
  change (ofProg (match c (x.pend u) with | .ok a => .pure a | .error e => .fail e)).Safe D Q _ u
  cases hc : c (x.pend u) with
  | ok a => exact fun v hv => hnext v a hu hc hv
  | error e => trivial

theorem Safe.execute {l : σ → List κ} {c : σ → Except ε Unit} {w : σ → σ → σ}
    {Q : Unit → Open σ κ → σ → Prop}
    (h : ∀ u v, D.rely x.locks s u → c (x.pend u) = .ok () → D.rely (x.push l w u).locks u v →
      Q () (x.push l w u) v) :
    (liftM (Prog.execute l c w : Prog σ κ ε Unit) : Request σ κ ε Unit).Safe D Q x s := by
  rw [Prog.execute_eq]
  exact Safe.executeReturning fun u v _ hu hc hv => h u v hu hc hv

theorem ofProg_bind (p : Prog σ κ ε α) (f : α → Prog σ κ ε β) :
    (ofProg (p.bind f) : Request σ κ ε β) = (ofProg p).bind fun a => ofProg (f a) := by
  induction p with
  | pure a => rfl
  | fail e => rfl
  | stmt l w n ih => exact congrArg (stmt l w) (funext ih)

theorem bind_bind {γ : Type} (r : Request σ κ ε α) (f : α → Request σ κ ε β)
    (g : β → Request σ κ ε γ) :
    (r.bind f).bind g = r.bind fun a => (f a).bind g := by
  induction r with
  | pure a => rfl
  | fail e => rfl
  | stmt l w n ih => exact congrArg (stmt l w) (funext ih)
  | call e n ih => exact congrArg (call e) (funext ih)
  | commit n ih => exact congrArg commit ih

/-- A fact about the items that are left, which the body for each of them brings to the next, holds when none
is left. -/
theorem Safe.each_bind {τ : Type} {p : τ → Prog σ κ ε Unit} {N : List τ → Open σ κ → σ → Prop}
    {f : Unit → Request σ κ ε β}
    (hp : ∀ i is y u, N (i :: is) y u → (ofProg (p i)).Safe D (fun _ => N is) y u)
    (hf : ∀ y u, N [] y u → (f ()).Safe D R y u) {is : List τ} (h : N is x s) :
    (liftM (Prog.each p is : Prog σ κ ε Unit) >>= f : Request σ κ ε β).Safe D R x s := by
  induction is generalizing x s with
  | nil => exact hf x s h
  | cons i is ih =>
    have hsplit : (liftM (Prog.each p (i :: is) : Prog σ κ ε Unit) >>= f : Request σ κ ε β) =
        (ofProg (p i)).bind fun _ => (ofProg (Prog.each p is)).bind f := by
      change (ofProg ((p i).bind fun _ => Prog.each p is)).bind f = _
      rw [ofProg_bind, bind_bind]
    rw [hsplit]
    have hnext := (hp i is x s h).mono fun _ y u hy => ih hy
    exact .bind (f := fun _ => (ofProg (Prog.each p is)).bind f) hnext

/-- `UPDATE .. WHERE`, with a fact about the rows that are left. -/
theorem Safe.updateRows_bind {τ : Type} {select : σ → List τ} {lock : τ → κ} {still : σ → τ → Bool}
    {change : τ → σ → σ} {N : List τ → Open σ κ → σ → Prop} {f : Unit → Request σ κ ε β}
    (hselect : ∀ u, D.rely x.locks s u → N (select (x.pend u)) x u)
    (hrow : ∀ i is y u v w, N (i :: is) y u → D.rely y.locks u v →
      D.rely (lock i :: y.locks) v w →
      N is (y.push (fun _ => [lock i]) (fun a b => if still a i then change i b else b) v) w)
    (hf : ∀ y u, N [] y u → (f ()).Safe D R y u) :
    (liftM (Prog.updateRows select lock still change : Prog σ κ ε Unit) >>= f : Request σ κ ε β).Safe D R x
      s := by
  change (liftM (Prog.query select : Prog σ κ ε (List τ)) >>= fun rows =>
    liftM (Prog.each (Prog.updateRow lock still change) rows : Prog σ κ ε Unit) >>= f :
      Request σ κ ε β).Safe D R x s
  refine .query_bind fun u hu => .each_bind (N := N) (fun i is y v hN => ?_) hf (hselect u hu)
  exact .execute fun w w' hw _ hw' => hrow i is y v w w' hN hw hw'

end Request

namespace Traffic
variable [DecidableEq ι] {P : Premises ι σ κ} {D : ι → Duty σ κ} {c d : Traffic ι σ κ ε α}

/-- Every request in flight is safe from the store as it is now. -/
def Safe (D : ι → Duty σ κ) (c : Traffic ι σ κ ε α) : Prop :=
  ∀ i t, c.flights i = some t → t.rest.Safe (D i) (fun _ _ _ => True) t.tx c.db

/-- The duties fit together: the run asks what they assume, what one may do the others count on, and all of it
keeps `I`. -/
structure Fit (P : Premises ι σ κ) (D : ι → Duty σ κ) (I : σ → Prop) : Prop where
  commit : ∀ i x s, P.commit i x s → (D i).commit x s
  call : ∀ i s s', P.call i s s' → (D i).call s s'
  inv : ∀ i act ls s s', I s → (D i).keeps act ls s s' → I s'
  rely : ∀ i j act ls ls' s s', i ≠ j → I s → (D i).keeps act ls s s' → (∀ k ∈ ls, k ∉ ls') →
    (D j).rely ls' s s'

omit [DecidableEq ι] in
/-- Each request counts on the others to do no more than they may. -/
theorem Fit.among {I : σ → Prop} {keeps : ι → Act → List κ → σ → σ → Prop}
    (h : ∀ i act ls s s', I s → keeps i act ls s s' → I s') : Fit P (Duty.among keeps I P) I where
  commit _ _ _ h := h
  call _ _ _ h := h
  inv := h
  rely i _ act ls _ _ _ hij hI hkeeps hls := .single ⟨i, act, ls, hij, hls, hI, hkeeps⟩

/-- What a step does to the store, by whom, and whether that was a commit. -/
theorem Safe.step_keeps {I : σ → Prop} (h : c.Safe D) (hfit : Fit P D I) (hs : Step P c d) :
    (d.db = c.db ∧ d.commits = c.commits) ∨
      ∃ i ls, (∀ k ∈ ls, k ∈ c.locks i) ∧ ((D i).keeps .call ls c.db d.db ∧ d.commits = c.commits ∨
        (D i).keeps .commit ls c.db d.db ∧ d.commits = c.commits ++ [i]) := by
  cases hs with
  | exec | finish | exit | crash => exact .inl ⟨rfl, rfl⟩
  | @call i x e n running meets =>
    have hsafe := h i _ running c.db ((D i).refl _ _) (hfit.call i _ _ meets)
    exact .inr ⟨i, x.locks, fun k hk => mem_locks.mpr ⟨_, running, hk⟩, .inl ⟨hsafe.1, rfl⟩⟩
  | @commit i x n running meets =>
    have hsafe := h i _ running c.db ((D i).refl _ _) (hfit.commit i _ _ meets)
    exact .inr ⟨i, x.locks, fun k hk => mem_locks.mpr ⟨_, running, hk⟩, .inr ⟨hsafe.1, rfl⟩⟩

theorem Safe.step {I : σ → Prop} (h : c.Safe D) (hfit : Fit P D I) (hI : I c.db)
    (hone : ∀ k i j, k ∈ c.locks i → k ∈ c.locks j → i = j) (hs : Step P c d) : d.Safe D := by
  -- What one that did not move counts on still holds.
  have hothers : ∀ i act ls s', (D i).keeps act ls c.db s' → (∀ k ∈ ls, k ∈ c.locks i) →
    ∀ j t, j ≠ i →
      c.flights j = some t → t.rest.Safe (D j) (fun _ _ _ => True) t.tx s' := by
    intro i act ls s' hkeeps hls j t hj ht
    refine (h j t ht).rely (hfit.rely i j act ls t.tx.locks _ _ (Ne.symm hj) hI hkeeps fun k hk hkt => ?_)
    exact hj (hone k j i (mem_locks.mpr ⟨t, ht, hkt⟩) (hls k hk))
  cases hs with
  | @exec i x l w n running free =>
    intro j t ht
    rcases flights_setFlight ht with ⟨rfl, he⟩ | ⟨_, hj⟩
    · cases he
      exact h j _ running c.db ((D j).refl _ _)
    · exact h j t hj
  | @call i x e n running meets =>
    obtain ⟨hkeeps, hnext⟩ := h i _ running c.db ((D i).refl _ _) (hfit.call i _ _ meets)
    intro j t ht
    rcases flights_setFlight ht with ⟨rfl, he⟩ | ⟨hne, hj⟩
    · cases he
      exact hnext
    · exact hothers i _ x.locks _ hkeeps (fun k hk => mem_locks.mpr ⟨_, running, hk⟩) j t hne hj
  | @commit i x n running meets =>
    obtain ⟨hkeeps, hnext⟩ := h i _ running c.db ((D i).refl _ _) (hfit.commit i _ _ meets)
    intro j t ht
    rcases flights_setFlight ht with ⟨rfl, he⟩ | ⟨hne, hj⟩
    · cases he
      exact hnext
    · exact hothers i _ x.locks _ hkeeps (fun k hk => mem_locks.mpr ⟨_, running, hk⟩) j t hne hj
  | finish | exit | crash =>
    intro j t ht
    rcases flights_setFlight ht with ⟨_, he⟩ | ⟨_, hj⟩
    · cases he
    · exact h j t hj

/-- Requests that are safe alone stay safe in every run, and what all of them keep holds of every store. -/
theorem Reached.safe_and_invariant {reqs : ι → Request σ κ ε α} {db : σ} {I : σ → Prop}
    (h : Reached P reqs db c) (hfit : Fit P D I) (hreq : ∀ i, (reqs i).Safe (D i) (fun _ _ _ => True) .start db)
    (h0 : I db) : c.Safe D ∧ I c.db := by
  induction h with
  | refl =>
    refine ⟨fun i t ht => ?_, h0⟩
    cases ht
    exact hreq i
  | tail hprior hs ih =>
    obtain ⟨hsafe, hI⟩ := ih
    refine ⟨hsafe.step hfit hI (fun k i j => Reached.exclusive hprior k i j) hs, ?_⟩
    rcases hsafe.step_keeps hfit hs with ⟨hdb, _⟩ | ⟨i, ls, _, ⟨hkeeps, _⟩ | ⟨hkeeps, _⟩⟩
    · rwa [hdb]
    · exact hfit.inv i _ ls _ _ hI hkeeps
    · exact hfit.inv i _ ls _ _ hI hkeeps

/-- The next thing that `i` does, where a commit meets `C` and a call `S`. -/
def move [Fintype ι] [DecidableEq κ] (C : ι → Open σ κ → σ → Bool) (S : ι → σ → σ → Bool)
    (c : Traffic ι σ κ ε α) (i : ι) : Option (Traffic ι σ κ ε α) :=
  match c.flights i with
  | some ⟨.stmt l w n, x⟩ =>
    if ∀ j, j ≠ i → ∀ k ∈ l (x.pend c.db), k ∉ c.locks j then
      some (c.setFlight i (some ⟨n (x.pend c.db), x.push l w c.db⟩))
    else none
  | some ⟨.call e n, x⟩ =>
    if S i c.db (e c.db) then some { c.setFlight i (some ⟨n c.db, x⟩) with db := e c.db } else none
  | some ⟨.commit n, x⟩ =>
    if C i x c.db then
      some { c.setFlight i (some ⟨n, .start⟩) with db := x.pend c.db, commits := c.commits ++ [i] }
    else none
  | some ⟨.pure a, _⟩ => some { c.setFlight i none with log := c.log ++ [(i, .ok a)] }
  | some ⟨.fail e, _⟩ => some { c.setFlight i none with log := c.log ++ [(i, .error e)] }
  | none => none

def play [Fintype ι] [DecidableEq κ] (C : ι → Open σ κ → σ → Bool) (S : ι → σ → σ → Bool)
    (c : Traffic ι σ κ ε α) (is : List ι) : Option (Traffic ι σ κ ε α) := is.foldlM (move C S) c

section
variable [Fintype ι] [DecidableEq κ] {C : ι → Open σ κ → σ → Bool} {S : ι → σ → σ → Bool}

theorem move_sound (hC : ∀ i x s, C i x s = true → P.commit i x s) (hS : ∀ i s s', S i s s' = true →
    P.call i s s')
    {i : ι} (h : c.move C S i = some d) : Step P c d := by
  unfold move at h
  split at h
  · next l w n x hrun =>
    split_ifs at h with hfree
    cases h
    exact .exec hrun hfree
  · next e n x hrun =>
    split_ifs at h with hcall
    cases h
    exact .call hrun (hS _ _ _ hcall)
  · next n x hrun =>
    split_ifs at h with hcommit
    cases h
    exact .commit hrun (hC _ _ _ hcommit)
  · next hrun =>
    cases h
    exact .finish hrun
  · next hrun =>
    cases h
    exact .exit hrun
  · cases h

theorem play_steps (hC : ∀ i x s, C i x s = true → P.commit i x s)
    (hS : ∀ i s s', S i s s' = true → P.call i s s') {is : List ι} (h : c.play C S is = some d) : Steps P c d := by
  induction is generalizing c with
  | nil =>
    cases h
    exact .refl
  | cons i is ih =>
    simp only [play, List.foldlM_cons] at h
    obtain ⟨c', hm, hd⟩ := Option.bind_eq_some_iff.mp h
    exact .head (move_sound hC hS hm) (ih hd)

/-- A run found by playing, with what can be computed about it half way and at its end. -/
theorem Reached.of_play (hC : ∀ i x s, C i x s = true → P.commit i x s)
    (hS : ∀ i s s', S i s s' = true → P.call i s s') (reqs : ι → Request σ κ ε α) (db : σ) (is js : List ι)
    (Q R : Traffic ι σ κ ε α → Bool)
    (h : ((initial reqs db).play C S is).any (fun c => Q c && (c.play C S js).any R) = true) :
    ∃ c d, Reached P reqs db c ∧ Steps P c d ∧ Q c = true ∧ R d = true := by
  obtain ⟨c, hc, hQR⟩ := (Option.any_eq_true _ _).mp h
  obtain ⟨hQ, hR⟩ := Bool.and_eq_true_iff.mp hQR
  obtain ⟨d, hd, hRd⟩ := (Option.any_eq_true _ _).mp hR
  exact ⟨c, d, play_steps hC hS hc, play_steps hC hS hd, hQ, hRd⟩

end

end Traffic

end Noxara.Transaction
