import Noxara.WorkflowVisits

/-! Where a driven instance comes to rest. The driver has a fixed number of rounds, whatever the
bound of the organisation, and a failing step uses one up without moving the instance. -/
namespace Noxara.Workflows

open Finance (Uuid Formats canonicalFormats)

/-- The instance is at rest within its bound, and its steps are numbered from 1 in the order of
its visits. -/
def Db.EndsIdle (db : Db) (id : Uuid) (maxSteps : Int) : Prop :=
  ∃ row n, db.instances.find? id = some row ∧ row.status ≠ .running ∧ row.stepCount ≤ maxSteps ∧
    db.Numbered id n

theorem Db.EndsIdle.not_running {db : Db} {id : Uuid} {maxSteps : Int} (h : db.EndsIdle id maxSteps) :
    db.statusOf id ≠ some .running := by
  obtain ⟨row, n, hrow, hstop, _⟩ := h
  simpa [Db.statusOf, hrow] using hstop

/-- Nobody else writes on the instance or the bounds. -/
structure Untouched (id : Uuid) (db db' : Db) : Prop where
  row : db'.instances.find? id = db.instances.find? id
  steps : db'.stepsOf id = db.stepsOf id
  bounds : db'.orgBounds = db.orgBounds

def Turn.Alone (turn : Turn) (id : Uuid) : Prop :=
  ∀ db, Untouched id db (turn.beforeRead db) ∧ Untouched id db (turn.beforeAdvance db)

theorem Untouched.trans {id : Uuid} {db db' db'' : Db} (h : Untouched id db db')
    (h' : Untouched id db' db'') : Untouched id db db'' :=
  ⟨h'.row.trans h.row, h'.steps.trans h.steps, h'.bounds.trans h.bounds⟩

theorem Untouched.runningAt {id : Uuid} {db db' : Db} {row : InstanceRow} {n : Nat}
    (h : Untouched id db db') (hrow : db.RunningAt id row n) : db'.RunningAt id row n := by
  refine ⟨h.row.trans hrow.found, hrow.running, hrow.count, ?_⟩
  unfold Db.Numbered
  rw [h.steps]
  exact hrow.numbered

theorem Untouched.boundsOrDefault {id : Uuid} {db db' : Db} (h : Untouched id db db') :
    db'.boundsOrDefault = db.boundsOrDefault := by
  unfold Db.boundsOrDefault
  rw [h.bounds]

section
variable [Formats] [JsonText] [Clock]

/-- Following the graph, one node a round, a node that leaves the instance at rest is reached within
these rounds and visits. An action that fails is tried again in the next round. -/
def settles (req : RunRequest) (payload : Json) : Nat → Nat → (Nat → Turn) → Option String → Bool
  | 0, _, _, _ => false
  | _, 0, _, _ => false
  | n + 1, k + 1, turns, current =>
    match current.bind req.graph.node with
    | none => false
    | some node =>
      match nodeVerdict req (turns 0) payload node with
      | .moves _ next => settles req payload n k (fun i => turns (i + 1)) next
      | .rests .. => true
      | .fails .. => settles req payload n (k + 1) (fun i => turns (i + 1)) current
      | .panics => false

variable {req : RunRequest} {payload : Json}

theorem settles_no_visits (n : Nat) (turns : Nat → Turn) (current : Option String) :
    settles req payload n 0 turns current = false := by
  cases n <;> rfl

theorem settles_no_node {current : Option String} (h : current.bind req.graph.node = none) (n k : Nat)
    (turns : Nat → Turn) : settles req payload n k turns current = false := by
  cases n with
  | zero => rfl
  | succ n =>
    cases k with
    | zero => rfl
    | succ k => simp only [settles, h]

theorem settles_step (n : Nat) (turns : Nat → Turn) (maxSteps : Int) (row : InstanceRow) :
    settles req row.triggerPayload (n + 1) (maxSteps - row.stepCount).toNat turns row.currentNodeId =
      match stepVerdict req (turns 0) maxSteps row with
      | .moves _ next =>
        settles req row.triggerPayload n (maxSteps - (row.stepCount + 1)).toNat (fun i => turns (i + 1)) next
      | .rests .. => true
      | .fails .. =>
        settles req row.triggerPayload n (maxSteps - row.stepCount).toNat (fun i => turns (i + 1))
          row.currentNodeId
      | .panics => false := by
  cases hcur : row.currentNodeId with
  | none =>
    have hfails : stepVerdict req (turns 0) maxSteps row = .fails "missing current_node_id" none := by
      simp only [stepVerdict, hcur]
    rw [settles_no_node rfl, hfails]
    exact (settles_no_node rfl _ _ _).symm
  | some nodeId =>
    by_cases hcap : maxSteps ≤ row.stepCount
    · have hzero : (maxSteps - row.stepCount).toNat = 0 := by omega
      simp only [stepVerdict, hcur, hcap, if_true, hzero, settles_no_visits]
    · obtain ⟨k, hk⟩ : ∃ k, (maxSteps - row.stepCount).toNat = k + 1 :=
        ⟨(maxSteps - row.stepCount).toNat - 1, by omega⟩
      have hk' : (maxSteps - (row.stepCount + 1)).toNat = k := by omega
      simp only [stepVerdict, hcur, hcap, if_false, hk, hk', settles, Option.bind_some]
      cases hnode : req.graph.node nodeId with
      | none =>
        have hnone : (some nodeId).bind req.graph.node = none := hnode
        exact (settles_no_node hnone _ _ _).symm
      | some node => rfl

variable (req) in
theorem stepCount_lt (turn : Turn) {maxSteps : Int} {row : InstanceRow}
    (h : ∀ message step, stepVerdict req turn maxSteps row ≠ .fails message step) :
    row.stepCount < maxSteps := by
  by_contra hcap
  unfold stepVerdict at h
  cases hcur : row.currentNodeId with
  | none =>
    rw [hcur] at h
    exact h _ _ rfl
  | some nodeId =>
    simp only [hcur, not_lt.mp hcap, if_true] at h
    exact h _ _ rfl

variable {id : Uuid}

omit [JsonText] [Clock] in
theorem commit_boundsOrDefault (turn : Turn) (row : InstanceRow) (db : Db) (v : Verdict) :
    (v.commit req turn id row db).boundsOrDefault = db.boundsOrDefault := by
  cases v <;> rfl

variable (req) in
theorem drive_at_rest {turns : Nat → Turn} {db : Db} {row : InstanceRow} (hturns : ∀ k, (turns k).Alone id)
    (hrow : db.instances.find? id = some row) (hrest : row.status ≠ .running) (n : Nat) :
    Untouched id db (drive req id n turns db).db := by
  cases n with
  | zero => exact ⟨rfl, rfl, rfl⟩
  | succ n =>
    have hseen := ((hturns 0) db).1
    rw [drive_idle n]
    · exact hseen
    · rw [hseen.row, hrow]
      simpa using hrest

theorem drive_settles (n : Nat) {turns : Nat → Turn} {db : Db} {row : InstanceRow} {c : Nat}
    (hturns : ∀ k, (turns k).Alone id) (hrow : db.RunningAt id row c)
    (hok : (drive req id n turns db).answer = .ok ()) :
    ∃ row' m, (drive req id n turns db).db.instances.find? id = some row' ∧
      (row'.status ≠ .running → row'.stepCount ≤ db.boundsOrDefault.maxStepsPerInstance) ∧
      (drive req id n turns db).db.Numbered id m ∧
      (row'.status ≠ .running ↔ settles req row.triggerPayload n
        (db.boundsOrDefault.maxStepsPerInstance - row.stepCount).toNat turns row.currentNodeId = true) := by
  induction n generalizing turns db row c with
  | zero =>
    refine ⟨row, c, hrow.found, fun hstop => absurd hrow.running hstop, hrow.numbered, ?_⟩
    simp [settles, hrow.running]
  | succ n ih =>
    have hseen := ((hturns 0) db).1
    have hstart := hseen.trans ((hturns 0) ((turns 0).beforeRead db)).2
    have hrun : (((turns 0).beforeRead db).instances.find? id).map InstanceRow.status = some .running := by
      rw [hseen.row, hrow.found]
      simp [hrow.running]
    rw [drive_running n hrun] at hok ⊢
    generalize (turns 0).beforeAdvance ((turns 0).beforeRead db) = start at hok hstart ⊢
    have hrow' := hstart.runningAt hrow
    have hadvance := hrow'.advance req (turns 0)
    rw [hstart.boundsOrDefault] at hadvance
    rw [settles_step]
    cases hv : stepVerdict req (turns 0) db.boundsOrDefault.maxStepsPerInstance row with
    | moves step next =>
      rw [hv] at hadvance
      rw [followedBy_ok (congrArg Advanced.answer hadvance), hadvance] at hok ⊢
      have hnext := ih (fun k => hturns (k + 1)) (hrow'.moves req (turns 0) step next)
      simp only [commit_boundsOrDefault, hstart.boundsOrDefault] at hnext
      exact hnext hok
    | rests step change eventType =>
      rw [hv] at hadvance
      have hlt := stepCount_lt req (turns 0) fun message step' h => by
        rw [hv] at h
        cases h
      obtain ⟨hstop, hcount⟩ := stepVerdict_rests hv (row.stepCount + 1) row
      rw [followedBy_ok (congrArg Advanced.answer hadvance), hadvance] at hok ⊢
      have hrest := hrow'.rests req (turns 0) step change eventType
      have hend := drive_at_rest req (fun k => hturns (k + 1)) hrest hstop n
      refine ⟨_, c + 1, hend.row.trans hrest, ?_, ?_, iff_of_true hstop rfl⟩
      · intro _
        rcases hcount with hcount | hcount <;> omega
      · unfold Db.Numbered
        rw [hend.steps]
        exact hrow'.numbered_rests req (turns 0) step change eventType
    | fails message step =>
      rw [hv] at hadvance
      rw [followedBy_ok (congrArg Advanced.answer hadvance), hadvance] at hok ⊢
      have hagain := ih (fun k => hturns (k + 1)) hrow'
      simp only [hstart.boundsOrDefault] at hagain
      exact hagain hok
    | panics =>
      rw [hv] at hadvance
      rw [followedBy_error (congrArg Advanced.answer hadvance)] at hok
      cases hok

/-- A run of the driver that returns leaves the instance at rest within its bound, with its steps
numbered in the order of its visits, exactly where the walk through the graph comes to rest within
the rounds of the driver and the visits that the bound leaves. -/
theorem driven_ends_idle_iff {turns : Nat → Turn} {db : Db} {row : InstanceRow} {c : Nat}
    (hturns : ∀ k, (turns k).Alone id) (hrow : db.RunningAt id row c)
    (hok : (runUntilIdle req id turns db).answer = .ok ()) :
    (runUntilIdle req id turns db).db.EndsIdle id db.boundsOrDefault.maxStepsPerInstance ↔
      settles req row.triggerPayload maxRounds
        (db.boundsOrDefault.maxStepsPerInstance - row.stepCount).toNat turns row.currentNodeId = true := by
  obtain ⟨row', m, hfound, hle, hnum, hiff⟩ := drive_settles maxRounds hturns hrow hok
  rw [← hiff]
  constructor
  · intro ⟨r, n, hr, hstop, _, _⟩
    cases hfound.symm.trans hr
    exact hstop
  · intro hstop
    exact ⟨row', m, hfound, hstop, hle hstop, hnum⟩

end

theorem Untouched.refl (id : Uuid) (db : Db) : Untouched id db db := ⟨rfl, rfl, rfl⟩

theorem Turn.answering_alone (status : Nat) (id : Uuid) : (Turn.answering status).Alone id :=
  fun db => ⟨Untouched.refl id db, Untouched.refl id db⟩

/-- `n` actions in a row, and then this node. -/
def WorkflowGraph.chain (n : Nat) (last : WorkflowNode) : WorkflowGraph where
  entry := "0"
  trigger := .manual
  nodes := (List.range n).map (fun i => .action s!"{i}" "create_task" (.object []) s!"{i + 1}") ++ [last]

theorem driven_ends_idle_two_tasks :
    letI := canonicalFormats
    letI := plainText
    letI := secondsClock
    (runUntilIdle (.of (.chain 2 (.endNode "2"))) 7 (fun _ => .answering 201)
      (.starting none (.object []) "0")).db.EndsIdle 7 100 := by
  let := canonicalFormats
  let := plainText
  let := secondsClock
  obtain ⟨row, hrow⟩ := Db.starting_runningAt none (.object []) "0"
  have hfound := hrow.found
  cases hfound
  exact (driven_ends_idle_iff (fun _ => Turn.answering_alone 201 7) hrow
    (by decide +kernel)).mpr (by decide +kernel)

/-- Two actions that lead to each other. -/
def WorkflowGraph.loop : WorkflowGraph := .chain 1 (.action "1" "create_task" (.object []) (some "0"))

/-- The cap fails the run of a loop, but not in the store. -/
theorem loop_runs_on :
    letI := canonicalFormats
    letI := plainText
    letI := secondsClock
    let d := runUntilIdle (.of .loop) 7 (fun _ => .answering 201) (.starting none (.object []) "0")
    WorkflowGraph.loop.validate = .ok () ∧ d.answer = .ok () ∧ d.db.statusOf 7 = some .running ∧
      (d.db.stepsOf 7).length = 100 ∧ ¬d.db.EndsIdle 7 100 := by
  let := canonicalFormats
  let := plainText
  let := secondsClock
  have hrun :
      let d := runUntilIdle (.of .loop) 7 (fun _ => .answering 201) (.starting none (.object []) "0")
      WorkflowGraph.loop.validate = .ok () ∧ d.answer = .ok () ∧ d.db.statusOf 7 = some .running ∧
        (d.db.stepsOf 7).length = 100 := by
    decide +kernel
  exact ⟨hrun.1, hrun.2.1, hrun.2.2.1, hrun.2.2.2, fun h => h.not_running hrun.2.2.1⟩

end Noxara.Workflows
