import Noxara.TransactionInterleaving

/-! Bodies that all lock one common row first. Whatever the interleaving, such transactions
take effect one after another: from the moment one holds the row until it ends, no other gets
past its first statement. So every reachable committed store is the result of a serial run. -/
namespace Noxara.Transaction

variable {ι σ κ ε α : Type}

/-- A gated transaction in flight has not started, or holds the gate and goes on as it would
alone on the store committed now. -/
def Thread.GateState (g : κ) (p : Prog σ κ ε α) (db : σ) (t : Thread σ κ ε α) : Prop :=
  t = .fresh p ∨ (g ∈ t.locks ∧ t.prog.run (t.view db) = p.run db)

structure GateInv (g : κ) (prog : ι → Prog σ κ ε α) (db : σ) (c : Config ι σ κ ε α) : Prop where
  serial : Serial prog db c.log c.db
  ended : ∀ i t, c.threads i = .running t → i ∉ c.log.map Prod.fst
  answered : ∀ i a, c.threads i = .committed a ↔ (i, .ok a) ∈ c.log
  state : ∀ i t, c.threads i = .running t → t.GateState g (prog i) c.db
  unique : ∀ i j, g ∈ (c.threads i).locks → g ∈ (c.threads j).locks → i = j

theorem Status.mem_locks {s : Status σ κ ε α} {k : κ} (h : k ∈ s.locks) :
    ∃ t, s = .running t ∧ k ∈ t.locks := by
  cases s with
  | running t => exact ⟨t, rfl, h⟩
  | committed a => cases h
  | aborted => cases h

theorem GateInv.initial (g : κ) (prog : ι → Prog σ κ ε α) (db : σ) :
    GateInv g prog db (.initial prog db) where
  serial := .nil
  ended i t _ := by simp [Config.initial]
  answered i a := by simp [Config.initial]
  state i t h := by cases h; exact .inl rfl
  unique i j h _ := by cases h

private theorem answered_self {g : κ} {prog : ι → Prog σ κ ε α} {db : σ}
    {c : Config ι σ κ ε α} (h : GateInv g prog db c) {i : ι} {t : Thread σ κ ε α}
    (hrun : c.threads i = .running t) (x : Except ε α) : (i, x) ∉ c.log := fun hm =>
  h.ended i t hrun (List.mem_map_of_mem hm)

variable [DecidableEq ι]

private theorem answered_setThread {g : κ} {prog : ι → Prog σ κ ε α} {db : σ}
    {c : Config ι σ κ ε α} (h : GateInv g prog db c) {i j : ι} {s : Status σ κ ε α} {a : α}
    (hj : j ≠ i) : (c.setThread i s).threads j = .committed a ↔ (j, .ok a) ∈ c.log := by
  rw [c.setThread_ne s hj]
  exact h.answered j a

theorem Config.running_ended {c : Config ι σ κ ε α} {i j : ι} {s : Status σ κ ε α}
    {u : Thread σ κ ε α} (hs : ∀ t, s ≠ .running t)
    (h : (c.setThread i s).threads j = .running u) : j ≠ i ∧ c.threads j = .running u := by
  rcases Config.running_setThread h with ⟨_, he⟩ | hj
  · exact absurd he (hs u)
  · exact hj

theorem GateInv.unique_ended {g : κ} {prog : ι → Prog σ κ ε α} {db : σ} {c : Config ι σ κ ε α}
    (h : GateInv g prog db c) {i : ι} {s : Status σ κ ε α} (hs : ∀ t, s ≠ .running t) (j k : ι)
    (hj : g ∈ ((c.setThread i s).threads j).locks)
    (hk : g ∈ ((c.setThread i s).threads k).locks) : j = k := by
  obtain ⟨u, hu, hgu⟩ := Status.mem_locks hj
  obtain ⟨v, hv, hgv⟩ := Status.mem_locks hk
  refine h.unique j k ?_ ?_
  · rwa [(Config.running_ended hs hu).2]
  · rwa [(Config.running_ended hs hv).2]

theorem GateInv.exec {g : κ} {prog : ι → Prog σ κ ε α} {db : σ} {c : Config ι σ κ ε α}
    (h : GateInv g prog db c) (hg : ∀ i, (prog i).Gated g) {i : ι} {t : Thread σ κ ε α}
    {l : σ → List κ} {w : σ → σ → σ} {n : σ → Prog σ κ ε α} (hrun : c.threads i = .running t)
    (hprog : t.prog = .stmt l w n) (hfree : c.Free i (l (t.view c.db))) :
    GateInv g prog db (c.setThread i (.running (t.exec l w n c.db))) := by
  -- After a statement the thread holds the gate: it held it before, or this was its first.
  have hlock : g ∈ (t.exec l w n c.db).locks := by
    rcases h.state i t hrun with rfl | ⟨hgt, _⟩
    · have hgi := hg i
      rw [show prog i = .stmt l w n from hprog] at hgi
      exact List.mem_append_left _ (hgi _)
    · exact List.mem_append_right _ hgt
  have hsole : ∀ j, j ≠ i → g ∉ (c.threads j).locks := by
    intro j hj hgj
    rcases h.state i t hrun with rfl | ⟨hgt, _⟩
    · have hgi := hg i
      rw [show prog i = .stmt l w n from hprog] at hgi
      exact hfree j hj g (hgi _) hgj
    · exact hj (h.unique j i hgj (by rwa [hrun]))
  refine ⟨h.serial, fun j u hu => ?_, fun j a => ?_, fun j u hu => ?_, fun j k hj hk => ?_⟩
  · rcases Config.running_setThread hu with ⟨rfl, _⟩ | ⟨_, hj⟩
    · exact h.ended j t hrun
    · exact h.ended j u hj
  · by_cases hj : j = i
    · subst hj
      simpa using answered_self h hrun (.ok a)
    · exact answered_setThread h hj
  · rcases Config.running_setThread hu with ⟨rfl, he⟩ | ⟨_, hj⟩
    · cases he
      refine .inr ⟨hlock, ?_⟩
      have hstep : t.prog.run (t.view c.db) = (n (t.view c.db)).run (w (t.view c.db) (t.view c.db)) := by
        rw [hprog, Prog.run_stmt]
      rcases h.state j t hrun with rfl | ⟨_, he⟩
      · exact hstep.symm
      · exact hstep.symm.trans he
    · exact h.state j u hj
  · have hone : ∀ m, g ∈ ((c.setThread i (.running (t.exec l w n c.db))).threads m).locks → m = i := by
      intro m hm
      by_contra hne
      rw [c.setThread_ne _ hne] at hm
      exact hsole m hne hm
    rw [hone j hj, hone k hk]

theorem GateInv.commit {g : κ} {prog : ι → Prog σ κ ε α} {db : σ} {c : Config ι σ κ ε α}
    (h : GateInv g prog db c) {i : ι} {t : Thread σ κ ε α} {a : α}
    (hrun : c.threads i = .running t) (hprog : t.prog = .pure a) :
    GateInv g prog db { c.setThread i (.committed a) with
      db := t.view c.db, log := c.log ++ [(i, .ok a)] } := by
  have halone : (prog i).run c.db = .ok (a, t.view c.db) := by
    rcases h.state i t hrun with rfl | ⟨_, he⟩
    · rw [show prog i = .pure a from hprog]; rfl
    · rw [← he, hprog]; rfl
  -- The others have not started, or nothing was written and the store is the old one.
  have hothers : ∀ j u, j ≠ i → c.threads j = .running u → u = .fresh (prog j) ∨ t.view c.db = c.db := by
    intro j u hj hu
    rcases h.state i t hrun with rfl | ⟨hgt, _⟩
    · exact .inr rfl
    · rcases h.state j u hu with hfresh | ⟨hgu, _⟩
      · exact .inl hfresh
      · exact absurd (h.unique j i (by rwa [hu]) (by rwa [hrun])) hj
  have hs : ∀ u : Thread σ κ ε α, Status.committed a ≠ .running u := fun _ => nofun
  refine ⟨h.serial.ok (h.ended i t hrun) halone, fun j u hu => ?_, fun j b => ?_, fun j u hu => ?_,
    h.unique_ended hs⟩
  · obtain ⟨hj, hu⟩ := Config.running_ended hs hu
    simpa [hj] using h.ended j u hu
  · by_cases hj : j = i
    · subst hj
      simp [answered_self h hrun, eq_comm]
    · have hh : (c.setThread i (.committed a)).threads j = .committed b ↔ _ := answered_setThread h hj
      simpa [hj] using hh
  · obtain ⟨hj, hu⟩ := Config.running_ended hs hu
    rcases hothers j u hj hu with rfl | he
    · exact .inl rfl
    · exact he.symm ▸ h.state j u hu

theorem GateInv.step {g : κ} {prog : ι → Prog σ κ ε α} {db : σ} {c d : Config ι σ κ ε α}
    (h : GateInv g prog db c) (hg : ∀ i, (prog i).Gated g) (hs : Step c d) :
    GateInv g prog db d := by
  have hend : ∀ u : Thread σ κ ε α, Status.aborted ≠ .running u := fun _ => nofun
  cases hs with
  | exec hrun hprog hfree => exact h.exec hg hrun hprog hfree
  | commit hrun hprog => exact h.commit hrun hprog
  | @exit i t e hrun hprog =>
    have halone : (prog i).run c.db = .error e := by
      rcases h.state i t hrun with rfl | ⟨_, he⟩
      · rw [show prog i = .fail e from hprog]; rfl
      · rw [← he, hprog]; rfl
    refine ⟨h.serial.error (h.ended i t hrun) halone, fun j u hu => ?_, fun j b => ?_,
      fun j u hu => h.state j u (Config.running_ended hend hu).2, h.unique_ended hend⟩
    · obtain ⟨hj, hu⟩ := Config.running_ended hend hu
      simpa [hj] using h.ended j u hu
    · by_cases hj : j = i
      · subst hj
        simpa using answered_self h hrun (.ok b)
      · have hh : (c.setThread i .aborted).threads j = .committed b ↔ _ := answered_setThread h hj
        simpa [hj] using hh
  | @crash i t hrun =>
    refine ⟨h.serial, fun j u hu => h.ended j u (Config.running_ended hend hu).2, fun j b => ?_,
      fun j u hu => h.state j u (Config.running_ended hend hu).2, h.unique_ended hend⟩
    by_cases hj : j = i
    · subst hj
      simpa using answered_self h hrun (.ok b)
    · exact answered_setThread h hj

theorem Reachable.gateInv {g : κ} {prog : ι → Prog σ κ ε α} {db : σ} {c : Config ι σ κ ε α}
    (h : Reachable prog db c) (hg : ∀ i, (prog i).Gated g) : GateInv g prog db c := by
  induction h with
  | initial => exact .initial g prog db
  | step _ hs ih => exact ih.step hg hs

/-- Every committed store that gated transactions reach in any interleaving is the result of
running, one after another, those that ended so far. -/
theorem Reachable.serial {g : κ} {prog : ι → Prog σ κ ε α} {db : σ} {c : Config ι σ κ ε α}
    (h : Reachable prog db c) (hg : ∀ i, (prog i).Gated g) : Serial prog db c.log c.db :=
  (h.gateInv hg).serial

/-- What every body preserves when it runs alone holds of every committed store that gated
transactions reach. -/
theorem Reachable.gated_invariant {g : κ} {prog : ι → Prog σ κ ε α} {db : σ}
    {c : Config ι σ κ ε α} (h : Reachable prog db c) (hg : ∀ i, (prog i).Gated g)
    {I : σ → Prop} (h0 : I db)
    (hs : ∀ i s a t, I s → (prog i).run s = .ok (a, t) → I t) : I c.db :=
  (h.serial hg).invariant h0 hs

end Noxara.Transaction
