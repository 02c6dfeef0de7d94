import Noxara.ApprovalSteps

/-! The process in the workflow engine beside the approval in the store. They go together until a
timeout finds the last step: the process ends there, escalated, while the approval goes on. -/
namespace Noxara.Approvals

open Transaction
open Finance (Uuid Formats parsePublicId canonicalFormats)

inductive ProcessEvent
  | decide (approve : Bool)
  | timeout
  deriving DecidableEq

def ProcessEvent.IsDecide : ProcessEvent → Prop
  | decide _ => True
  | timeout => False

namespace ProcessState

def apply (p : ProcessState) : ProcessEvent → Bool × ProcessState
  | .decide approve => p.applyDecide approve
  | .timeout => p.applySlaTimeout

/-- Which events the process accepts, and where they lead. -/
def play (p : ProcessState) : List ProcessEvent → List Bool × ProcessState
  | [] => ([], p)
  | e :: es => ((p.apply e).1 :: ((p.apply e).2.play es).1, ((p.apply e).2.play es).2)

theorem apply_ended {p : ProcessState} (h : p.Ended) (e : ProcessEvent) : p.apply e = (false, p) := by
  cases e with
  | decide approve => exact if_pos h
  | timeout => exact if_pos h

theorem play_ended {p : ProcessState} (h : p.Ended) (es : List ProcessEvent) :
    p.play es = (es.map fun _ => false, p) := by
  induction es with
  | nil => rfl
  | cons e es ih => simp [play, apply_ended h, ih]

end ProcessState

/-- Did the request enter a decision into the log? -/
def recorded (s t : Db) : Bool := decide (s.decisions.length < t.decisions.length)

theorem recorded_self (s : Db) : recorded s s = false := by simp [recorded]

variable [Formats]

/-- The events as requests on one approval, each let through, and which of them it accepted. -/
inductive Stored (id : String) : Db → List ProcessEvent → List Bool → Db → Prop
  | nil (s : Db) : Stored id s [] [] s
  | decide {s t u : Db} {ctx : RequestCtx} {body : DecideApprovalRequest} {r : Response}
      {es : List ProcessEvent} {flags : List Bool}
      (run : (decideApproval ctx id body).run s = .ok (r, t)) (rest : Stored id t es flags u) :
      Stored id s (.decide body.approve :: es) (recorded s t :: flags) u
  | timeout {s t u : Db} {ctx : RequestCtx} {r : Response} {es : List ProcessEvent} {flags : List Bool}
      (run : (escalateApproval ctx id).run s = .ok (r, t)) (rest : Stored id t es flags u) :
      Stored id s (.timeout :: es) (recorded s t :: flags) u

section
variable {id : String} {approvalId : Uuid}

omit [Formats] in
/-- The approval is pending at its step `current` of the steps from 1 to `n`, and no decision on
it is stored for replay. -/
structure Db.PendingAt (db : Db) (id : String) (approvalId : Uuid) (n : Nat) (current : Int)
    (row : ApprovalRow) : Prop where
  found : db.approvals.find? approvalId = some row
  pending : row.status = .pending
  current : row.currentStep = current
  steps : ∀ o, db.HasStep approvalId o ↔ 1 ≤ o ∧ o ≤ n
  fresh : ∀ k, db.idempotency.find? (decideScope id, k) = none

omit [Formats] in
theorem Db.PendingAt.maxStep {db : Db} {n : Nat} {current : Int} {row : ApprovalRow}
    (h : db.PendingAt id approvalId n current row) (hn : 1 ≤ n) : db.maxStep approvalId = n := by
  have hlast : db.HasStep approvalId n := (h.steps n).mpr (by omega)
  obtain ⟨hmax, hle⟩ := Db.maxStep_spec hlast
  have h1 := ((h.steps _).mp hmax).2
  have h2 := hle _ hlast
  omega

/-- The first decision is taken. -/
theorem Db.PendingAt.decide {s t : Db} {n : Nat} {current : Int} {row : ApprovalRow}
    (h : s.PendingAt id approvalId n current row) (hid : parsePublicId .approval id = .ok approvalId)
    {ctx : RequestCtx} {body : DecideApprovalRequest} {r : Response}
    (hrun : (decideApproval ctx id body).run s = .ok (r, t)) :
    recorded s t = true ∧ t.approvals.find? approvalId = some (row.decide ctx body) := by
  obtain ⟨a, ha, ⟨_, k, _, _, hstored⟩ | ⟨found, hfound, ⟨hne, _⟩ | ⟨_, hd⟩⟩⟩ :=
    decideApproval_ok hrun
  · rw [h.fresh k] at hstored
    cases hstored
  · cases hid.symm.trans ha
    cases h.found.symm.trans hfound
    exact absurd h.pending hne
  · cases hid.symm.trans ha
    cases h.found.symm.trans hfound
    refine ⟨?_, hd.row_eq h.found⟩
    obtain ⟨_, _, rfl⟩ := hd
    simp [recorded]

/-- A timeout moves on, or stays at the last step. -/
theorem Db.PendingAt.timeout {s t : Db} {n : Nat} {current : Int} {row : ApprovalRow}
    (h : s.PendingAt id approvalId n current row) (hn : 1 ≤ n)
    (hid : parsePublicId .approval id = .ok approvalId) {ctx : RequestCtx} {r : Response}
    (hrun : (escalateApproval ctx id).run s = .ok (r, t)) :
    recorded s t = true ∧
      ∃ row', t.PendingAt id approvalId n (if current < n then current + 1 else current) row' := by
  obtain ⟨a, found, ha, hfound, ⟨hne, _⟩ | ⟨_, rfl⟩⟩ := escalateApproval_ok hrun
  · cases hid.symm.trans ha
    cases h.found.symm.trans hfound
    exact absurd h.pending hne
  · cases hid.symm.trans ha
    cases h.found.symm.trans hfound
    obtain ⟨hlog, hidem⟩ := s.escalated_log ctx approvalId row
    obtain ⟨row', hrow', hpending, _, hcur⟩ := Db.escalated_row ctx h.found h.pending
    refine ⟨by simp [recorded, hlog], row', hrow', hpending, ?_, fun o => ?_, fun k => ?_⟩
    · rw [hcur, Db.nextStep, h.maxStep hn, h.current]
    · rw [Db.escalated_hasStep]
      exact h.steps o
    · rw [hidem]
      exact h.fresh k

theorem Stored.ended {s t : Db} {es : List ProcessEvent} {flags : List Bool} {row : ApprovalRow}
    (h : Stored id s es flags t) (hid : parsePublicId .approval id = .ok approvalId)
    (hrow : s.approvals.find? approvalId = some row) (hne : row.status ≠ .pending) :
    t = s ∧ flags = es.map fun _ => false := by
  induction h with
  | nil => exact ⟨rfl, rfl⟩
  | @decide s u t ctx body r es flags hrun _ ih =>
    have hu : u = s := by
      obtain ⟨a, ha, ⟨hu, _⟩ | ⟨found, hfound, ⟨_, hu⟩ | ⟨hp, _⟩⟩⟩ := decideApproval_ok hrun
      · exact hu
      · exact hu
      · cases hid.symm.trans ha
        cases hrow.symm.trans hfound
        exact absurd hp hne
    subst hu
    obtain ⟨ht, hf⟩ := ih hrow
    exact ⟨ht, by rw [recorded_self, hf]; rfl⟩
  | @timeout s u t ctx r es flags hrun _ ih =>
    have hu : u = s := by
      obtain ⟨a, found, ha, hfound, ⟨_, hu⟩ | ⟨hp, _⟩⟩ := escalateApproval_ok hrun
      · exact hu
      · cases hid.symm.trans ha
        cases hrow.symm.trans hfound
        exact absurd hp hne
    subst hu
    obtain ⟨ht, hf⟩ := ih hrow
    exact ⟨ht, by rw [recorded_self, hf]; rfl⟩

end

omit [Formats] in
/-- The process and the approval tell the same. -/
def ProcessState.Matches (p : ProcessState) (approvalId : Uuid) (db : Db) : Prop :=
  ∃ row, db.approvals.find? approvalId = some row ∧ (p.status = .approved ↔ row.status = .approved) ∧
    (p.status = .rejected ↔ row.status = .rejected) ∧ p.currentStep = row.currentStep

/-- The process waits at its step `current` of `n`. -/
structure ProcessState.WaitsAt (p : ProcessState) (n : Nat) (current : Int) : Prop where
  pending : p.status = .pending
  undecided : p.decided = false
  current : p.currentStep = current
  last : p.maxStep = n

section Waiting
variable {p : ProcessState} {n : Nat} {current : Int}

omit [Formats] in
theorem ProcessState.WaitsAt.not_ended (h : p.WaitsAt n current) : ¬p.Ended := by
  simp [ProcessState.Ended, h.pending, h.undecided]

omit [Formats] in
theorem ProcessState.WaitsAt.decide (h : p.WaitsAt n current) (approve : Bool) :
    p.apply (.decide approve) =
      (true, { p with decided := true, status := if approve then .approved else .rejected }) :=
  if_neg h.not_ended

omit [Formats] in
theorem ProcessState.WaitsAt.timeout (h : p.WaitsAt n current) :
    (p.apply .timeout).1 = true ∧
      (if current < n then (p.apply .timeout).2.WaitsAt n (current + 1)
        else (p.apply .timeout).2.Ended ∧ (p.apply .timeout).2.status = .escalated ∧
          (p.apply .timeout).2.currentStep = current) := by
  have happly : p.apply .timeout = p.applySlaTimeout := rfl
  rw [happly, applySlaTimeout, if_neg h.not_ended, h.current, h.last]
  split_ifs with hlt
  · exact ⟨rfl, rfl, h.undecided, rfl, rfl⟩
  · exact ⟨rfl, .inr (by simp), rfl, rfl⟩

end Waiting

section Agreement
variable {id : String} {approvalId : Uuid} {n : Nat}

/-- After a decision both stay as they are. -/
theorem agree_decided {s t u : Db} {current : Int} {row : ApprovalRow} {p : ProcessState}
    (hs : s.PendingAt id approvalId n current row) (hp : p.WaitsAt n current)
    (hid : parsePublicId .approval id = .ok approvalId) {ctx : RequestCtx}
    {body : DecideApprovalRequest} {r : Response} {es : List ProcessEvent} {flags : List Bool}
    (hrun : (decideApproval ctx id body).run s = .ok (r, t)) (hrest : Stored id t es flags u) :
    (p.play (.decide body.approve :: es)).1 = recorded s t :: flags ∧
      (p.play (.decide body.approve :: es)).2.Matches approvalId u := by
  obtain ⟨hrec, hrow⟩ := hs.decide hid hrun
  have hne : (row.decide ctx body).status ≠ .pending := by
    cases hb : body.approve <;> simp [ApprovalRow.decide, DecideApprovalRequest.newStatus, hb]
  obtain ⟨rfl, rfl⟩ := hrest.ended hid hrow hne
  have hend : ProcessState.Ended
      { p with decided := true, status := if body.approve then .approved else .rejected } := .inl rfl
  rw [ProcessState.play, hp.decide, ProcessState.play_ended hend, hrec]
  refine ⟨rfl, row.decide ctx body, hrow, ?_, ?_, hp.current.trans hs.current.symm⟩
  · cases hb : body.approve <;> simp [ApprovalRow.decide, DecideApprovalRequest.newStatus, hb]
  · cases hb : body.approve <;> simp [ApprovalRow.decide, DecideApprovalRequest.newStatus, hb]

/-- After a timeout at the last step the process accepts nothing and the approval everything. -/
theorem agree_escalated {s t : Db} {row : ApprovalRow} {p : ProcessState}
    (hs : s.PendingAt id approvalId n n row) (hn : 1 ≤ n) (hp : p.Ended) (hst : p.status = .escalated)
    (hcur : p.currentStep = n) (hid : parsePublicId .approval id = .ok approvalId)
    {es : List ProcessEvent} {flags : List Bool} (h : Stored id s es flags t) :
    ((p.play es).1 = flags ∧ (p.play es).2.Matches approvalId t) ↔ es = [] := by
  rw [ProcessState.play_ended hp]
  cases h with
  | nil =>
    refine ⟨fun _ => rfl, fun _ => ⟨rfl, row, hs.found, ?_, ?_, hcur.trans hs.current.symm⟩⟩
    · simp [hst, hs.pending]
    · simp [hst, hs.pending]
  | decide hrun _ => simp [(hs.decide hid hrun).1]
  | timeout hrun _ => simp [(hs.timeout hn hid hrun).1]

/-- From a step with `k` timeouts to come, the two agree on `k` events, and on more where one of
the first `k` decides. -/
theorem agree_iff {s t : Db} {es : List ProcessEvent} {flags : List Bool} {current : Int}
    {row : ApprovalRow} {p : ProcessState} {k : Nat} (h : Stored id s es flags t)
    (hid : parsePublicId .approval id = .ok approvalId) (hs : s.PendingAt id approvalId n current row)
    (hp : p.WaitsAt n current) (hn : 1 ≤ n) (hk : current + k = n + 1) (hle : current ≤ n) :
    ((p.play es).1 = flags ∧ (p.play es).2.Matches approvalId t) ↔
      es.length ≤ k ∨ ∃ e ∈ es.take k, e.IsDecide := by
  induction h generalizing current row p k with
  | nil =>
    refine iff_of_true ⟨rfl, row, hs.found, ?_, ?_, hp.current.trans hs.current.symm⟩ (.inl k.zero_le)
    · simp [ProcessState.play, hp.pending, hs.pending]
    · simp [ProcessState.play, hp.pending, hs.pending]
  | @decide s u t ctx body r es flags hrun hrest ih =>
    refine iff_of_true (agree_decided hs hp hid hrun hrest) (.inr ⟨.decide body.approve, ?_, trivial⟩)
    obtain ⟨j, rfl⟩ : ∃ j, k = j + 1 := ⟨k - 1, by omega⟩
    simp
  | @timeout s u t ctx r es flags hrun hrest ih =>
    obtain ⟨hrec, row', hu⟩ := hs.timeout hn hid hrun
    obtain ⟨haccept, hnext⟩ := hp.timeout
    obtain ⟨j, rfl⟩ : ∃ j, k = j + 1 := ⟨k - 1, by omega⟩
    have hplay : ((p.play (.timeout :: es)).1 = recorded s u :: flags ∧
        (p.play (.timeout :: es)).2.Matches approvalId t) ↔
          ((p.apply .timeout).2.play es).1 = flags ∧
            ((p.apply .timeout).2.play es).2.Matches approvalId t := by
      simp [ProcessState.play, haccept, hrec]
    have hfirst : ((ProcessEvent.timeout :: es).length ≤ j + 1 ∨
        ∃ e ∈ (ProcessEvent.timeout :: es).take (j + 1), e.IsDecide) ↔
          es.length ≤ j ∨ ∃ e ∈ es.take j, e.IsDecide := by
      simp [ProcessEvent.IsDecide]
    rw [hplay, hfirst]
    by_cases hlt : current < n
    · rw [if_pos hlt] at hu hnext
      exact ih hu hnext (by omega) (by omega)
    · rw [if_neg hlt] at hu hnext
      obtain rfl : current = n := by omega
      obtain rfl : j = 0 := by omega
      rw [agree_escalated hu hn hnext.1 hnext.2.1 hnext.2.2 hid hrest]
      simp

/-- The process of an approval with steps from 1 to `n` and the approval in the store accept the
same events and end alike exactly where there are at most `n` events, or one of the first `n`
decides. -/
theorem process_agrees_iff {s t : Db} {row : ApprovalRow} {mode : String} {es : List ProcessEvent}
    {flags : List Bool} (hid : parsePublicId .approval id = .ok approvalId) (hn : 1 ≤ n)
    (hs : s.PendingAt id approvalId n 1 row) (h : Stored id s es flags t) :
    (((ProcessState.new 1 n mode).play es).1 = flags ∧
        ((ProcessState.new 1 n mode).play es).2.Matches approvalId t) ↔
      es.length ≤ n ∨ ∃ e ∈ es.take n, e.IsDecide :=
  agree_iff h hid hs ⟨rfl, rfl, rfl, rfl⟩ hn (by omega) (by omega)

end Agreement

omit [Formats] in
theorem oneStep_pendingAt (id : String) : ∃ row, Db.oneStep.PendingAt id 5 1 1 row := by
  refine ⟨_, rfl, rfl, rfl, fun o => ?_, fun _ => rfl⟩
  rw [← Db.mem_stepOrders, show Db.oneStep.stepOrders 5 = [1] from rfl, List.mem_singleton]
  omega

omit [Formats] in
theorem process_agrees_one_timeout :
    letI := canonicalFormats
    ∃ flags t, Stored (Finance.PublicId.mk .approval 5).asStr Db.oneStep [.timeout] flags t ∧
      ((((ProcessState.new 1 1 "sequential").play [.timeout]).1 = flags ∧
          ((ProcessState.new 1 1 "sequential").play [.timeout]).2.Matches 5 t) ↔
        [ProcessEvent.timeout].length ≤ 1 ∨ ∃ e ∈ [ProcessEvent.timeout].take 1, e.IsDecide) := by
  let := canonicalFormats
  obtain ⟨row, hrow⟩ := oneStep_pendingAt (Finance.PublicId.mk .approval 5).asStr
  obtain ⟨r, t, hrun, _⟩ := Prog.run_of_check (P := fun _ _ => true)
    (p := escalateApproval (.of 9) (Finance.PublicId.mk .approval 5).asStr) (s := Db.oneStep)
    (by decide +kernel)
  have h := Stored.timeout hrun (.nil t)
  exact ⟨_, t, h, process_agrees_iff (by decide +kernel) (le_refl 1) hrow h⟩

omit [Formats] in
/-- The timer of the only step runs out, and then somebody approves: the process has ended
without a decision, and the approval is approved. -/
theorem approved_after_process_ended :
    letI := canonicalFormats
    ∃ flags t, Stored (Finance.PublicId.mk .approval 5).asStr Db.oneStep [.timeout, .decide true] flags t ∧
      flags = [true, true] ∧ t.statusOf 5 = some .approved ∧
      ((ProcessState.new 1 1 "sequential").play [.timeout, .decide true]).1 = [true, false] ∧
      ((ProcessState.new 1 1 "sequential").play [.timeout, .decide true]).2.status = .escalated := by
  let := canonicalFormats
  obtain ⟨r, t, hrun, hP⟩ := Prog.run_of_check
    (P := fun _ (t : Db) => recorded Db.oneStep t &&
      ((decideApproval (.of 1) (Finance.PublicId.mk .approval 5).asStr { approve := true }).run t).toOption.any
        fun r => recorded t r.2 && r.2.statusOf 5 = some .approved)
    (p := escalateApproval (.of 9) (Finance.PublicId.mk .approval 5).asStr) (s := Db.oneStep)
    (by decide +kernel)
  obtain ⟨hfirst, hdecide⟩ := Bool.and_eq_true_iff.mp hP
  obtain ⟨r', u, hrun', hQ⟩ := Prog.run_of_check
    (P := fun _ (u : Db) => recorded t u && u.statusOf 5 = some .approved) hdecide
  obtain ⟨hsecond, happroved⟩ := Bool.and_eq_true_iff.mp hQ
  refine ⟨_, u, .timeout hrun (.decide hrun' (.nil u)), ?_, of_decide_eq_true happroved, rfl, rfl⟩
  rw [hfirst, hsecond]

end Noxara.Approvals
