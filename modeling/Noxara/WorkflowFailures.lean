import Noxara.WorkflowVisits

/-! Failing steps. A step that fails returns before its commit, so its instance runs on and the
driver takes the same step again, with the same call. -/
namespace Noxara.Workflows

open Finance (Uuid Formats canonicalFormats)

section
variable [Formats] [JsonText] [Clock]

/-- The error of the failing branch that a step takes from this store, and the row it records. -/
def failingBranch (req : RunRequest) (turn : Turn) (id : Uuid) (db : Db) :
    Option (String × Option StepRow) :=
  (db.instances.find? id).bind fun row =>
    if row.status = .running then
      match stepVerdict req turn db.boundsOrDefault.maxStepsPerInstance row with
      | .fails message step => some (message, step)
      | _ => none
    else none

omit [JsonText] [Clock] in
/-- The instance has failed with this error and this row, in one event. -/
structure FailedOnce (req : RunRequest) (id : Uuid) (db db' : Db) (message : String)
    (step : Option StepRow) : Prop where
  status : ∃ row, db'.instances.find? id = some row ∧ row.status = .failed ∧ row.errorMessage = some message
  recorded : ∀ r, step = some r → ∃ k, (k, r) ∈ db'.stepsOf id
  event : ∃ row, db'.outbox = db.outbox ++ [instanceEvent req "failed" row]

/-- Every failing step of a run fails the instance, every call is that of a recorded visit and the
only one there, and none follows a call that went wrong. -/
structure Driven.FailsOnce (req : RunRequest) (id : Uuid) (d : Driven) : Prop where
  failed : ∀ x ∈ d.steps, ∀ message step, failingBranch req x.1 id x.2 = some (message, step) →
    FailedOnce req id x.2 (advance req x.1 id x.2).db message step
  recorded : ∀ v ∈ d.visits, ∀ c, v.call = some c →
    ∃ r, (v.index, r) ∈ d.db.stepsOf id ∧ r.nodeId = v.nodeId ∧ r.actionKey = some c.action
  once : ((d.visits.filter (·.call.isSome)).map (·.index)).Nodup
  last : d.visits.Pairwise fun v w => (v.call.bind ActionCall.error).isSome → w.call = none

theorem failingBranch_some {req : RunRequest} {turn : Turn} {id : Uuid} {db : Db} {message : String}
    {step : Option StepRow} (h : failingBranch req turn id db = some (message, step)) :
    ∃ row, db.instances.find? id = some row ∧ row.status = .running ∧
      stepVerdict req turn db.boundsOrDefault.maxStepsPerInstance row = .fails message step := by
  obtain ⟨row, hrow, h⟩ := Option.bind_eq_some_iff.mp h
  split_ifs at h with hrun
  refine ⟨row, hrow, hrun, ?_⟩
  cases hv : stepVerdict req turn db.boundsOrDefault.maxStepsPerInstance row with
  | fails m s =>
    rw [hv] at h
    cases h
    rfl
  | moves s next =>
    rw [hv] at h
    cases h
  | rests s change eventType =>
    rw [hv] at h
    cases h
  | panics =>
    rw [hv] at h
    cases h

theorem not_failedOnce {req : RunRequest} {turn : Turn} {id : Uuid} {db : Db} {message : String}
    {step : Option StepRow} (h : failingBranch req turn id db = some (message, step)) :
    ¬FailedOnce req id db (advance req turn id db).db message step := by
  intro hfailed
  obtain ⟨row, hrow, hrun, hv⟩ := failingBranch_some h
  obtain ⟨row', hrow', hstatus, _⟩ := hfailed.status
  rw [advance_fails hrow hrun hv, hrow] at hrow'
  cases hrow'
  rw [hrun] at hstatus
  cases hstatus

omit [Formats] [JsonText] [Clock] in
/-- What other transactions may do: they may stop the instance, but they neither start nor move
it, nor touch its steps. -/
structure Others (id : Uuid) (db db' : Db) : Prop where
  steps : db'.stepsOf id = db.stepsOf id
  running : ∀ row, db'.instances.find? id = some row → row.status = .running →
    db.instances.find? id = some row

omit [Formats] [JsonText] [Clock] in
def Turn.Spares (turn : Turn) (id : Uuid) : Prop :=
  ∀ db, Others id db (turn.beforeRead db) ∧ Others id db (turn.beforeAdvance db)

omit [Formats] [JsonText] [Clock] in
/-- A running instance has been moved once for each of its steps. -/
def Db.Consistent (db : Db) (id : Uuid) : Prop :=
  ∀ row, db.instances.find? id = some row → row.status = .running → ∃ n, db.RunningAt id row n

omit [Formats] [JsonText] [Clock] in
theorem Others.consistent {id : Uuid} {db db' : Db} (h : Others id db db') (hdb : db.Consistent id) :
    db'.Consistent id := by
  intro row hrow hrun
  obtain ⟨n, hn⟩ := hdb row (h.running row hrow hrun) hrun
  refine ⟨n, hrow, hrun, hn.count, ?_⟩
  unfold Db.Numbered
  rw [h.steps]
  exact hn.numbered

omit [Formats] [JsonText] [Clock] in
theorem Others.stopped {id : Uuid} {db db' : Db} (h : Others id db db')
    (hdb : ∀ row, db.instances.find? id = some row → row.status ≠ .running) :
    ∀ row, db'.instances.find? id = some row → row.status ≠ .running :=
  fun row hrow hrun => hdb row (h.running row hrow hrun) hrun

omit [Formats] [JsonText] [Clock] in
/-- A step that committed: its row, after all others, tells of its visit. -/
structure Advanced.Commits (a : Advanced) (id : Uuid) (db : Db) (v : Visit) (step : StepRow) : Prop where
  answer : a.answer = .ok ()
  visit : a.visit = some v
  steps : a.db.stepsOf id = db.stepsOf id ++ [(v.index, step)]
  node : step.nodeId = v.nodeId
  action : ∀ c, v.call = some c → step.actionKey = some c.action
  after : ∀ k r, (k, r) ∈ db.stepsOf id → k < v.index
  consistent : a.db.Consistent id
  stops : (v.call.bind ActionCall.error).isSome →
    ∀ row, a.db.instances.find? id = some row → row.status ≠ .running

/-- Unless it fails, a step commits its visit, or it makes no call and leaves the store alone. -/
theorem advance_cases {req : RunRequest} {turn : Turn} {id : Uuid} {db : Db} (hdb : db.Consistent id)
    (hfail : failingBranch req turn id db = none) :
    (∃ v step, (advance req turn id db).Commits id db v step) ∨
      ((advance req turn id db).db = db ∧ ∀ v, (advance req turn id db).visit = some v →
        (advance req turn id db).answer ≠ .ok () ∧ v.call = none ∧
          ∀ k r, (k, r) ∈ db.stepsOf id → k < v.index) := by
  by_cases hrun : ∀ row, db.instances.find? id = some row → row.status ≠ .running
  · obtain ⟨hvisit, hsame⟩ := advance_idle req turn hrun
    refine .inr ⟨hsame, fun v hv => ?_⟩
    rw [hvisit] at hv
    cases hv
  · push Not at hrun
    obtain ⟨row, hrow, hstatus⟩ := hrun
    obtain ⟨n, hn⟩ := hdb row hrow hstatus
    have hafter : ∀ k r, (k, r) ∈ db.stepsOf id → k < row.stepCount + 1 := fun k r hk => by
      have := hn.numbered.le hk
      have := hn.count
      omega
    rw [hn.advance req turn]
    rcases stepVerdict_cases req turn db.boundsOrDefault.maxStepsPerInstance row with
      ⟨v, hvisit, hindex, hfits⟩ | ⟨_, m, hv⟩
    · cases hv : stepVerdict req turn db.boundsOrDefault.maxStepsPerInstance row with
      | moves step next =>
        rw [hv] at hfits
        refine .inl ⟨v, step, rfl, hvisit, ?_, hfits.1, fun c hc => (hfits.2 c hc).1, ?_, ?_, ?_⟩
        · rw [hindex]
          exact hn.stepsOf_moves req turn step next
        · rw [hindex]
          exact hafter
        · intro row' hrow' _
          have hnext := hn.moves req turn step next
          cases hnext.found.symm.trans hrow'
          exact ⟨n + 1, hnext⟩
        · intro herr
          obtain ⟨e, he⟩ := Option.isSome_iff_exists.mp herr
          obtain ⟨c, hc, hce⟩ := Option.bind_eq_some_iff.mp he
          rw [(hfits.2 c hc).2] at hce
          cases hce
      | rests step change eventType =>
        rw [hv] at hfits
        have hrest := hn.rests req turn step change eventType
        have hstop : ∀ row', ((Verdict.rests step change eventType).commit req turn id row db).instances.find? id
            = some row' → row'.status ≠ .running := fun row' hrow' => by
          cases hrest.symm.trans hrow'
          exact (hfits.2.2 _ row).1
        refine .inl ⟨v, step, rfl, hvisit, ?_, hfits.1, hfits.2.1, ?_, ?_, fun _ => hstop⟩
        · rw [hindex]
          exact hn.stepsOf_rests req turn step change eventType
        · rw [hindex]
          exact hafter
        · exact fun row' hrow' hrun' => absurd hrun' (hstop row' hrow')
      | fails message step =>
        simp [failingBranch, hrow, hstatus, hv] at hfail
      | panics =>
        rw [hv] at hfits
        refine .inr ⟨rfl, fun w hw => ?_⟩
        cases hvisit.symm.trans hw
        refine ⟨?_, hfits, ?_⟩
        · intro hok
          cases hok
        · rw [hindex]
          exact hafter
    · simp [failingBranch, hrow, hstatus, hv] at hfail

theorem advance_consistent (req : RunRequest) (turn : Turn) {id : Uuid} {db : Db} (hdb : db.Consistent id) :
    (advance req turn id db).db.Consistent id := by
  cases hf : failingBranch req turn id db with
  | none =>
    rcases advance_cases hdb hf with ⟨v, step, hcommit⟩ | ⟨hsame, _⟩
    · exact hcommit.consistent
    · rwa [hsame]
  | some f =>
    obtain ⟨row, hrow, hrun, hv⟩ := failingBranch_some hf
    rwa [advance_fails hrow hrun hv]

/-- The driver keeps the count of steps right, whatever fails. -/
theorem drive_consistent {req : RunRequest} {id : Uuid} (n : Nat) {turns : Nat → Turn} {db : Db}
    (hturns : ∀ k, (turns k).Spares id) (hdb : db.Consistent id) :
    (drive req id n turns db).db.Consistent id := by
  induction n generalizing turns db with
  | zero => exact hdb
  | succ n ih =>
    have hseen := ((hturns 0) db).1.consistent hdb
    have hstart := ((hturns 0) ((turns 0).beforeRead db)).2.consistent hseen
    by_cases hrun : (((turns 0).beforeRead db).instances.find? id).map InstanceRow.status = some .running
    · rw [drive_running n hrun]
      have hnext := advance_consistent req (turns 0) hstart
      cases hans : (advance req (turns 0) id ((turns 0).beforeAdvance ((turns 0).beforeRead db))).answer with
      | ok u =>
        rw [followedBy_ok hans]
        exact ih (fun k => hturns (k + 1)) hnext
      | error e =>
        rw [followedBy_error hans]
        exact hnext
    · rw [drive_idle n hrun]
      exact hseen

omit [Formats] [JsonText] [Clock] in
/-- The visits of a run from `db`, and the rows they leave. -/
structure Driven.Orderly (id : Uuid) (db : Db) (d : Driven) : Prop where
  kept : ∀ x ∈ db.stepsOf id, x ∈ d.db.stepsOf id
  after : ∀ v ∈ d.visits, ∀ k r, (k, r) ∈ db.stepsOf id → k < v.index
  recorded : ∀ v ∈ d.visits, ∀ c, v.call = some c →
    ∃ r, (v.index, r) ∈ d.db.stepsOf id ∧ r.nodeId = v.nodeId ∧ r.actionKey = some c.action
  ordered : d.visits.Pairwise fun v w =>
    v.index < w.index ∧ ((v.call.bind ActionCall.error).isSome → w.call = none)

omit [Formats] [JsonText] [Clock] in
/-- A run without visits. -/
theorem Driven.Orderly.still {id : Uuid} {db : Db} {d : Driven} (hvisits : d.visits = [])
    (hsteps : d.db.stepsOf id = db.stepsOf id) : d.Orderly id db := by
  refine ⟨fun x hx => by rwa [hsteps], ?_, ?_, ?_⟩
  · simp [hvisits]
  · simp [hvisits]
  · simp [hvisits]

theorem drive_stopped {req : RunRequest} {id : Uuid} {turns : Nat → Turn} {db : Db}
    (hturns : ∀ k, (turns k).Spares id)
    (hdb : ∀ row, db.instances.find? id = some row → row.status ≠ .running) (n : Nat) :
    (drive req id n turns db).visits = [] ∧ (drive req id n turns db).db.stepsOf id = db.stepsOf id := by
  cases n with
  | zero => exact ⟨rfl, rfl⟩
  | succ n =>
    have hseen := ((hturns 0) db).1
    have hstop := hseen.stopped hdb
    rw [drive_idle n]
    · exact ⟨rfl, hseen.steps⟩
    · intro h
      obtain ⟨row, hrow, hrun⟩ := Option.map_eq_some_iff.mp h
      exact hstop row hrow hrun

omit [Formats] [JsonText] [Clock] in
theorem Advanced.Commits.followedBy {a : Advanced} {id : Uuid} {db : Db} {v : Visit} {step : StepRow}
    {start : Turn × Db} {rest : Db → Driven} (h : a.Commits id db v step)
    (hrest : (rest a.db).Orderly id a.db)
    (hstop : (v.call.bind ActionCall.error).isSome → (rest a.db).visits = []) :
    (a.followedBy start rest).Orderly id db := by
  rw [followedBy_ok h.answer, h.visit]
  have hkept : ∀ x ∈ db.stepsOf id, x ∈ (rest a.db).db.stepsOf id := fun x hx =>
    hrest.kept x (by rw [h.steps]; exact List.mem_append_left _ hx)
  have hrow : (v.index, step) ∈ (rest a.db).db.stepsOf id :=
    hrest.kept _ (by rw [h.steps]; exact List.mem_append_right _ (List.mem_singleton_self _))
  have hlater : ∀ w ∈ (rest a.db).visits, v.index < w.index := fun w hw =>
    hrest.after w hw v.index step (by rw [h.steps]; exact List.mem_append_right _ (List.mem_singleton_self _))
  refine ⟨hkept, fun w hw k r hk => ?_,
    fun w hw c hc => ?_, List.pairwise_cons.mpr ⟨fun w hw => ?_, hrest.ordered⟩⟩
  · rcases List.mem_cons.mp hw with rfl | hw
    · exact h.after k r hk
    · exact hrest.after w hw k r (by rw [h.steps]; exact List.mem_append_left _ hk)
  · rcases List.mem_cons.mp hw with rfl | hw
    · exact ⟨step, hrow, h.node, h.action c hc⟩
    · exact hrest.recorded w hw c hc
  · refine ⟨hlater w hw, fun herr => ?_⟩
    rw [hstop herr] at hw
    cases hw

omit [Formats] [JsonText] [Clock] in
theorem Driven.Orderly.of_steps {id : Uuid} {db db' : Db} {d : Driven} (h : d.Orderly id db')
    (hs : db'.stepsOf id = db.stepsOf id) : d.Orderly id db := by
  obtain ⟨hkept, hafter, hrecorded, hordered⟩ := h
  rw [hs] at hkept
  simp only [hs] at hafter
  exact ⟨hkept, hafter, hrecorded, hordered⟩

omit [Formats] [JsonText] [Clock] in
/-- A step that left the store alone, before an orderly run or at the end of one. -/
theorem Driven.Orderly.after_nothing {a : Advanced} {id : Uuid} {db : Db} {start : Turn × Db}
    {rest : Db → Driven} (hdb : a.db = db)
    (hvisit : ∀ v, a.visit = some v → a.answer ≠ .ok () ∧ v.call = none ∧
      ∀ k r, (k, r) ∈ db.stepsOf id → k < v.index)
    (hrest : a.answer = .ok () → (rest db).Orderly id db) : (a.followedBy start rest).Orderly id db := by
  cases hans : a.answer with
  | ok u =>
    rw [followedBy_ok hans, hdb]
    have hnone : a.visit = none := by
      cases hv : a.visit with
      | none => rfl
      | some v => exact absurd hans (hvisit v hv).1
    rw [hnone]
    obtain ⟨hkept, hafter, hrecorded, hordered⟩ := hrest hans
    exact ⟨hkept, hafter, hrecorded, hordered⟩
  | error e =>
    rw [followedBy_error hans, hdb]
    refine ⟨fun x hx => hx, fun v hv => ?_, fun v hv c hc => ?_, ?_⟩
    · exact (hvisit v (Option.mem_toList.mp hv)).2.2
    · rw [(hvisit v (Option.mem_toList.mp hv)).2.1] at hc
      cases hc
    · cases a.visit with
      | none => exact List.Pairwise.nil
      | some v => exact List.pairwise_singleton _ v

theorem drive_orderly {req : RunRequest} {id : Uuid} (n : Nat) {turns : Nat → Turn} {db : Db}
    (hturns : ∀ k, (turns k).Spares id) (hdb : db.Consistent id)
    (hfail : ∀ x ∈ (drive req id n turns db).steps, failingBranch req x.1 id x.2 = none) :
    (drive req id n turns db).Orderly id db := by
  induction n generalizing turns db with
  | zero => exact .still rfl rfl
  | succ n ih =>
    have hseen := ((hturns 0) db).1
    have hstart := ((hturns 0) ((turns 0).beforeRead db)).2
    have hsteps := hstart.steps.trans hseen.steps
    have hcons := hstart.consistent (hseen.consistent hdb)
    by_cases hrun : (((turns 0).beforeRead db).instances.find? id).map InstanceRow.status = some .running
    · rw [drive_running n hrun] at hfail ⊢
      generalize (turns 0).beforeAdvance ((turns 0).beforeRead db) = start at hfail hsteps hcons ⊢
      have hrest : (advance req (turns 0) id start).answer = .ok () →
          (advance req (turns 0) id start).db.Consistent id →
          (drive req id n (fun k => turns (k + 1)) (advance req (turns 0) id start).db).Orderly id
            (advance req (turns 0) id start).db := fun hok hc => by
        refine ih (fun k => hturns (k + 1)) hc fun x hx => hfail x ?_
        rw [followedBy_ok hok]
        exact List.mem_cons_of_mem _ hx
      have hfirst : failingBranch req (turns 0) id start = none := by
        refine hfail (turns 0, start) ?_
        cases hans : (advance req (turns 0) id start).answer with
        | ok u =>
          rw [followedBy_ok hans]
          exact List.mem_cons_self
        | error e =>
          rw [followedBy_error hans]
          exact List.mem_singleton_self _
      rcases advance_cases hcons hfirst with ⟨v, step, hcommit⟩ | ⟨hsame, hvisit⟩
      · refine (hcommit.followedBy (hrest hcommit.answer hcommit.consistent) fun herr => ?_).of_steps hsteps
        exact (drive_stopped (fun k => hturns (k + 1)) (hcommit.stops herr) n).1
      · refine (Driven.Orderly.after_nothing hsame hvisit fun hok => ?_).of_steps hsteps
        rw [hsame] at hrest
        exact hrest hok hcons
    · rw [drive_idle n hrun]
      exact .still rfl hseen.steps

omit [Formats] [JsonText] [Clock] in
theorem Driven.Orderly.once {id : Uuid} {db : Db} {d : Driven} (h : d.Orderly id db) :
    ((d.visits.filter (·.call.isSome)).map (·.index)).Nodup := by
  refine List.Pairwise.map _ (fun v w hlt => ?_) (h.ordered.filter _)
  exact hlt.1.ne

/-- In a run of the driver beside other transactions every failing step fails the instance, once,
and every call is that of a recorded visit and the only one there, exactly where no step of the run
takes a failing branch. -/
theorem failing_step_fails_once_iff {req : RunRequest} {id : Uuid} {turns : Nat → Turn} {db : Db}
    (hturns : ∀ k, (turns k).Spares id) (hdb : db.Consistent id) :
    (runUntilIdle req id turns db).FailsOnce req id ↔
      ∀ x ∈ (runUntilIdle req id turns db).steps, failingBranch req x.1 id x.2 = none := by
  constructor
  · intro h x hx
    cases hf : failingBranch req x.1 id x.2 with
    | none => rfl
    | some f => exact absurd (h.failed x hx f.1 f.2 hf) (not_failedOnce hf)
  · intro h
    have horderly := drive_orderly maxRounds hturns hdb h
    refine ⟨fun x hx message step hf => ?_, horderly.recorded, horderly.once, horderly.ordered.imp (·.2)⟩
    rw [h x hx] at hf
    cases hf

end

theorem Others.refl (id : Uuid) (db : Db) : Others id db db := ⟨rfl, fun _ h _ => h⟩

theorem Turn.answering_spares (status : Nat) (id : Uuid) : (Turn.answering status).Spares id :=
  fun db => ⟨Others.refl id db, Others.refl id db⟩

theorem Db.RunningAt.consistent {db : Db} {id : Uuid} {row : InstanceRow} {n : Nat}
    (h : db.RunningAt id row n) : db.Consistent id := by
  intro row' hrow' _
  cases h.found.symm.trans hrow'
  exact ⟨n, h⟩

def WorkflowGraph.oneAction (action : String) : WorkflowGraph where
  entry := "act"
  trigger := .manual
  nodes := [.action "act" action (.object []) (some "done"), .endNode "done"]

theorem failing_step_fails_once_one_task :
    letI := canonicalFormats
    letI := plainText
    letI := secondsClock
    (runUntilIdle (.of (.oneAction "create_task")) 7 (fun _ => .answering 201)
      (.starting none (.object []) "act")).FailsOnce (.of (.oneAction "create_task")) 7 := by
  let := canonicalFormats
  let := plainText
  let := secondsClock
  obtain ⟨row, hrow⟩ := Db.starting_runningAt none (.object []) "act"
  exact (failing_step_fails_once_iff (fun _ => Turn.answering_spares 201 7) hrow.consistent).mpr
    (by decide +kernel)

/-- After a round whose action succeeded the instance is still running, with the one step that it has taken. -/
theorem drive_consistent_first_task :
    letI := canonicalFormats
    letI := plainText
    letI := secondsClock
    let d := drive (.of (.oneAction "create_task")) 7 1 (fun _ => .answering 201) (.starting none (.object []) "act")
    d.db.statusOf 7 = some .running ∧ (d.db.stepsOf 7).length = 1 ∧ d.db.Consistent 7 := by
  let := canonicalFormats
  let := plainText
  let := secondsClock
  obtain ⟨row, hrow⟩ := Db.starting_runningAt none (.object []) "act"
  exact ⟨by decide +kernel, by decide +kernel,
    drive_consistent 1 (fun _ => Turn.answering_spares 201 7) hrow.consistent⟩

/-- A deal to update that the payload does not name: the action fails in every round, and nothing
of it is in the store. -/
theorem failing_action_called_again :
    letI := canonicalFormats
    letI := plainText
    letI := secondsClock
    let d := runUntilIdle (.of (.oneAction "update_deal_status")) 7 (fun _ => .answering 200)
      (.starting none (.object []) "act")
    (WorkflowGraph.oneAction "update_deal_status").validate = .ok () ∧
      ¬d.FailsOnce (.of (.oneAction "update_deal_status")) 7 ∧
      (d.visits.filterMap (·.call)).length = 105 ∧ d.db.statusOf 7 = some .running ∧
      d.db.stepsOf 7 = [] ∧ d.db.outbox = [] := by
  let := canonicalFormats
  let := plainText
  let := secondsClock
  refine ⟨by decide +kernel, fun h => ?_, by decide +kernel, by decide +kernel, by decide +kernel,
    by decide +kernel⟩
  exact absurd h.once (by decide +kernel)

end Noxara.Workflows
