import Noxara.TransactionRely

/-! Updates of many rows. `UPDATE .. WHERE` takes the rows that its snapshot has, then locks them one
after another and changes those that still qualify; a row that another transaction adds in between is
missed. -/
namespace Noxara.Transaction.Prog

variable {σ κ ε α β ι : Type}

/-- The body for each of the items, in order. -/
def each (f : ι → Prog σ κ ε Unit) : List ι → Prog σ κ ε Unit
  | [] => pure ()
  | i :: is => (f i).bind fun _ => each f is

theorem each_cons_bind (f : ι → Prog σ κ ε Unit) (i : ι) (is : List ι) (g : Unit → Prog σ κ ε β) :
    (each f (i :: is) >>= g) = (f i >>= fun _ => each f is >>= g) :=
  bind_bind (f i) _ g

def updateRow (lock : ι → κ) (still : σ → ι → Bool) (change : ι → σ → σ) (i : ι) :
    Prog σ κ ε Unit :=
  execute (fun _ => [lock i]) (fun _ => .ok ()) fun v s => if still v i then change i s else s

/-- `UPDATE .. WHERE`. -/
def updateRows (select : σ → List ι) (lock : ι → κ) (still : σ → ι → Bool) (change : ι → σ → σ) :
    Prog σ κ ε Unit := do
  let rows ← query select
  each (updateRow lock still change) rows

theorem run_updateRow (lock : ι → κ) (still : σ → ι → Bool) (change : ι → σ → σ) (i : ι) (s : σ) :
    (updateRow lock still change i : Prog σ κ ε Unit).run s =
      .ok ((), if still s i then change i s else s) := by
  simp [updateRow, run_execute, Except.map]

theorem run_each {f : ι → Prog σ κ ε Unit} {g : ι → σ → σ} (h : ∀ i s, (f i).run s = .ok ((), g i s))
    (is : List ι) (s : σ) : (each f is).run s = .ok ((), is.foldl (fun t i => g i t) s) := by
  induction is generalizing s with
  | nil => rfl
  | cons i is ih =>
    have hi := run_bind (f i) (fun _ => each f is) s
    rw [h i s] at hi
    exact hi.trans (ih (g i s))

theorem run_updateRows (select : σ → List ι) (lock : ι → κ) (still : σ → ι → Bool)
    (change : ι → σ → σ) (s : σ) :
    (updateRows select lock still change : Prog σ κ ε Unit).run s =
      .ok ((), (select s).foldl (fun t i => if still t i then change i t else t) s) := by
  rw [updateRows, run_query_bind]
  exact run_each (fun i s => run_updateRow lock still change i s) (select s) s

/-- Afterwards no row that was taken still qualifies, nor does one that did not before. -/
theorem updateRows_done {select : σ → List ι} {lock : ι → κ} {still : σ → ι → Bool}
    {change : ι → σ → σ} (hdo : ∀ i s, still (change i s) i = false)
    (hkeep : ∀ i j s, still s i = false → still (change j s) i = false) {s t : σ} {u : Unit}
    (h : (updateRows select lock still change : Prog σ κ ε Unit).run s = .ok (u, t)) {i : ι}
    (hi : i ∈ select s ∨ still s i = false) : still t i = false := by
  rw [run_updateRows] at h
  cases h
  generalize select s = is at hi
  induction is generalizing s with
  | nil => simpa using hi
  | cons j is ih =>
    rw [List.foldl_cons]
    refine ih ?_
    rcases hi with hi | hi
    · rcases List.mem_cons.mp hi with rfl | hi
      · right
        cases hs : still s i with
        | true => simpa only [hs, if_true] using hdo i s
        | false => exact hs
      · exact .inl hi
    · right
      cases hs : still s j with
      | true => simpa only [hs, if_true] using hkeep i j s hi
      | false => exact hi

/-- Afterwards no row is taken any more, where the change of a row ends that it is taken and starts it for none. -/
theorem updateRows_none {select : σ → List ι} [∀ s i, Decidable (i ∈ select s)] {lock : ι → κ}
    {change : ι → σ → σ} (hdo : ∀ i s, i ∉ select (change i s))
    (hkeep : ∀ i j s, i ∉ select s → i ∉ select (change j s)) {s t : σ} {u : Unit}
    (h : (updateRows select lock (fun v i => i ∈ select v) change : Prog σ κ ε Unit).run s = .ok (u, t)) :
    select t = [] := by
  rw [List.eq_nil_iff_forall_not_mem]
  intro i
  have htaken : i ∈ select s ∨ decide (i ∈ select s) = false := by
    by_cases hi : i ∈ select s
    · exact .inl hi
    · exact .inr (decide_eq_false hi)
  refine of_decide_eq_false (updateRows_done (fun i s => ?_) (fun i j s hi => ?_) h htaken)
  · exact decide_eq_false (hdo i s)
  · exact decide_eq_false (hkeep i j s (of_decide_eq_false hi))

theorem writes_each {W : (σ → σ) → Prop} {f : ι → Prog σ κ ε Unit} (h : ∀ i, (f i).Writes W)
    (is : List ι) : (each f is).Writes W := by
  induction is with
  | nil => trivial
  | cons i is ih => exact (h i).bind fun _ => ih

theorem writes_updateRows {W : (σ → σ) → Prop} (hid : W id) {select : σ → List ι} {lock : ι → κ}
    {still : σ → ι → Bool} {change : ι → σ → σ} (h : ∀ i, W (change i)) :
    (updateRows select lock still change : Prog σ κ ε Unit).Writes W := by
  refine .bind (writes_query hid select) fun rows => writes_each (fun i => ?_) rows
  refine writes_execute hid fun v _ => ?_
  cases hv : still v i with
  | true => simpa using h i
  | false => exact hid

end Noxara.Transaction.Prog

/-! Bodies by the writes they make: those that change a part of the store in one statement, whose pending writes
are that one change or nothing to the part, and those whose writes do not depend on what they saw. -/
namespace Noxara.Transaction

variable {ι σ κ ε ε' α β : Type}

namespace Prog

/-- All statements write within `K`, but for one at most, which writes within `U`. -/
def ChangesOnce (K U : (σ → σ) → Prop) : Prog σ κ ε α → Prop
  | pure _ => True
  | fail _ => True
  | stmt _ w n => ∀ v, (K (w v) ∧ (n v).ChangesOnce K U) ∨ (U (w v) ∧ (n v).Writes K)

variable {K U : (σ → σ) → Prop}

theorem ChangesOnce.of_writes {p : Prog σ κ ε α} (hp : p.Writes K) : p.ChangesOnce K U := by
  induction p with
  | pure a => trivial
  | fail e => trivial
  | stmt l w n ih => exact fun v => .inl ⟨(hp v).1, ih v (hp v).2⟩

theorem ChangesOnce.after {p : Prog σ κ ε α} {f : α → Prog σ κ ε β} (hp : p.Writes K)
    (hf : ∀ a, (f a).ChangesOnce K U) : (p >>= f).ChangesOnce K U := by
  induction p with
  | pure a => exact hf a
  | fail e => trivial
  | stmt l w n ih => exact fun v => .inl ⟨(hp v).1, ih v (hp v).2⟩

theorem ChangesOnce.before {p : Prog σ κ ε α} {f : α → Prog σ κ ε β} (hp : p.ChangesOnce K U)
    (hf : ∀ a, (f a).Writes K) : (p >>= f).ChangesOnce K U := by
  induction p with
  | pure a => exact .of_writes (hf a)
  | fail e => trivial
  | stmt l w n ih =>
    intro v
    rcases hp v with ⟨hw, hn⟩ | ⟨hw, hn⟩
    · exact .inl ⟨hw, ih v hn⟩
    · exact .inr ⟨hw, hn.bind hf⟩

theorem ChangesOnce.mapError (g : ε → ε') {p : Prog σ κ ε α} (hp : p.ChangesOnce K U) :
    (p.mapError g).ChangesOnce K U := by
  induction p with
  | pure a => trivial
  | fail e => trivial
  | stmt l w n ih =>
    intro v
    rcases hp v with ⟨hw, hn⟩ | ⟨hw, hn⟩
    · exact .inl ⟨hw, ih v hn⟩
    · exact .inr ⟨hw, hn.mapError g⟩

theorem changesOnce_execute (hid : K id) {l : σ → List κ} {c : σ → Except ε Unit} {w : σ → σ → σ}
    (hw : ∀ v, c v = .ok () → U (w v)) : (execute l c w).ChangesOnce K U := by
  intro v
  have hwv := hw v
  cases hc : c v with
  | ok u =>
    right
    simp only [hc]
    exact ⟨hwv hc, trivial⟩
  | error e =>
    left
    simp only [hc]
    exact ⟨hid, trivial⟩

end Prog

variable {K U : ι → (σ → σ) → Prop}

/-- Every transaction in flight has changed the part at most once, and does not change it again. -/
theorem Reachable.changesOnce [DecidableEq ι] {prog : ι → Prog σ κ ε α} {db : σ} {c : Config ι σ κ ε α}
    (h : Reachable prog db c) (hid : ∀ i, K i id) (hcomp : ∀ i f g, K i f → K i g → K i (f ∘ g))
    (hleft : ∀ i f g, K i f → U i g → U i (f ∘ g)) (hright : ∀ i f g, U i f → K i g → U i (f ∘ g))
    (hp : ∀ i, (prog i).ChangesOnce (K i) (U i)) :
    ∀ i t, c.threads i = .running t →
      (K i t.pend ∧ t.prog.ChangesOnce (K i) (U i)) ∨ (U i t.pend ∧ t.prog.Writes (K i)) := by
  induction h with
  | initial =>
    intro i t ht
    cases ht
    exact .inl ⟨hid i, hp i⟩
  | @step c d _ hs ih =>
    intro i t ht
    cases hs with
    | @exec j t' l w n hrun hprog _ =>
      rcases Config.running_setThread ht with ⟨rfl, he⟩ | ⟨_, hi⟩
      · cases he
        have hbefore := ih i t' hrun
        rw [hprog] at hbefore
        rcases hbefore with ⟨hpend, hrest⟩ | ⟨hpend, hrest⟩
        · rcases hrest (t'.view c.db) with ⟨hw, hn⟩ | ⟨hw, hn⟩
          · exact .inl ⟨hcomp _ (w (t'.view c.db)) t'.pend hw hpend, hn⟩
          · exact .inr ⟨hright _ (w (t'.view c.db)) t'.pend hw hpend, hn⟩
        · have hw := hrest (t'.view c.db)
          exact .inr ⟨hleft _ (w (t'.view c.db)) t'.pend hw.1 hpend, hw.2⟩
      · exact ih i t hi
    | commit | exit | crash =>
      rcases Config.running_setThread ht with ⟨_, he⟩ | ⟨_, hi⟩
      · cases he
      · exact ih i t hi

namespace Prog

/-- Whatever it sees, the body makes `f` of the store and ends with the answer `a`. -/
inductive Blind : (σ → σ) → α → Prog σ κ ε α → Prop
  | pure (a : α) : Blind id a (.pure a)
  | stmt {l : σ → List κ} {w : σ → σ → σ} {n : σ → Prog σ κ ε α} {f g : σ → σ} {a : α}
    (write : ∀ v, w v = g)
      (next : ∀ v, Blind f a (n v)) : Blind (f ∘ g) a (.stmt l w n)

section
variable {T : Terms σ κ} {Q : Trail σ κ → α → σ → Prop} {x : Trail σ κ} {s : σ} {f g : σ → σ}

theorem Blind.bind {a : α} {b : β} {p : Prog σ κ ε α} {k : α → Prog σ κ ε β} (hp : p.Blind f a)
    (hk : (k a).Blind g b) :
    (p >>= k).Blind (g ∘ f) b := by
  induction hp with
  | pure a => exact hk
  | @stmt l w n f' g' a hw _ ih => exact Blind.stmt (f := g ∘ f') (g := g') hw fun v => ih v hk

theorem Blind.seq {a : α} {b : β} {p : Prog σ κ ε α} {q : Prog σ κ ε β} (hp : p.Blind f a)
    (hq : q.Blind g b) :
    (p >>= fun _ => q).Blind (g ∘ f) b := hp.bind hq

/-- A write that nothing refuses. -/
theorem blind_execute (l : σ → List κ) (f : σ → σ) :
    (execute l (fun _ => .ok ()) fun _ => f : Prog σ κ ε Unit).Blind f () :=
  Blind.stmt (f := id) (g := f) (fun _ => rfl) fun _ => .pure ()

/-- Such a body commits what it writes on top of what was written before. -/
theorem Safe.of_blind {a : α} {p : Prog σ κ ε α} (hp : p.Blind f a)
    (hq : ∀ y u, y.pend = f ∘ x.pend → (∀ k ∈ x.locks, k ∈ y.locks) → T.rely x.locks s u → Q y a u) :
    p.Safe T Q x s := by
  induction hp generalizing x s with
  | pure a => exact fun u hu => hq x u rfl (fun _ hk => hk) hu
  | @stmt l w n f g a hw _ ih =>
    intro u hu _
    refine ih _ fun y u' hpend hlocks hu' => ?_
    refine hq y u' ?_ (fun k hk => hlocks k (List.mem_append_right _ hk)) ?_
    · rw [hpend]
      change f ∘ (w (x.pend u) ∘ x.pend) = _
      rw [hw]
      rfl
    · exact T.trans hu (T.anti (fun k hk => List.mem_append_right _ hk) hu')

end

end Prog

end Noxara.Transaction
