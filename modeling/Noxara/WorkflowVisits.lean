import Noxara.WorkflowEngine

/-! What one step comes to. A node moves the instance on, leaves it at rest, fails it, or panics;
only the first two reach the store. -/
namespace Noxara.Workflows

open Transaction
open Finance (Uuid Formats wrapI64)

namespace Db

/-- The steps recorded for an instance, oldest first. -/
def stepsOf (db : Db) (id : Uuid) : List (Int × StepRow) :=
  db.steps.rows.filterMap fun r => if r.1.1 = id then some (r.1.2, r.2) else none

def record (db : Db) (id : Uuid) (index : Int) (row : StepRow) : Db :=
  { db with steps := db.steps.insert (id, index) row }

def change (db : Db) (id : Uuid) (f : InstanceRow → InstanceRow) : Db :=
  { db with instances := db.instances.modify id f }

def emit (db : Db) (e : EventEnvelope) : Db := { db with outbox := db.outbox ++ [e] }

theorem mem_stepsOf {db : Db} {id : Uuid} {k : Int} {r : StepRow} :
    (k, r) ∈ db.stepsOf id ↔ db.steps.find? (id, k) = some r := by
  rw [Table.find?_eq_some, stepsOf, List.mem_filterMap]
  constructor
  · intro ⟨⟨⟨i, j⟩, s⟩, hmem, h⟩
    split_ifs at h with hi
    cases h
    cases hi
    exact hmem
  · intro hmem
    exact ⟨((id, k), r), hmem, by simp⟩

theorem stepsOf_record {db : Db} {id : Uuid} {k : Int} (h : db.steps.find? (id, k) = none) (r : StepRow) :
    (db.record id k r).stepsOf id = db.stepsOf id ++ [(k, r)] := by
  simp [stepsOf, record, Table.rows_insert h]

@[simp] theorem stepsOf_change (db : Db) (id j : Uuid) (f : InstanceRow → InstanceRow) :
    (db.change j f).stepsOf id = db.stepsOf id := rfl

@[simp] theorem stepsOf_emit (db : Db) (id : Uuid) (e : EventEnvelope) :
    (db.emit e).stepsOf id = db.stepsOf id := rfl

@[simp] theorem instances_record (db : Db) (id : Uuid) (k : Int) (r : StepRow) :
    (db.record id k r).instances = db.instances := rfl

@[simp] theorem instances_emit (db : Db) (e : EventEnvelope) : (db.emit e).instances = db.instances := rfl

theorem find?_change (db : Db) (id : Uuid) (f : InstanceRow → InstanceRow) :
    (db.change id f).instances.find? id = (db.instances.find? id).map f :=
  Table.find?_modify_self _ _ _

/-- The instance has `n` steps, numbered from 1 in the order they were recorded. -/
def Numbered (db : Db) (id : Uuid) (n : Nat) : Prop :=
  (db.stepsOf id).map Prod.fst = (List.range n).map fun i : Nat => (i : Int) + 1

theorem Numbered.le {db : Db} {id : Uuid} {n : Nat} (h : db.Numbered id n) {k : Int} {r : StepRow}
    (hk : (k, r) ∈ db.stepsOf id) : k ≤ n := by
  have hmem : k ∈ (db.stepsOf id).map Prod.fst := List.mem_map_of_mem hk
  rw [h, List.mem_map] at hmem
  obtain ⟨i, hi, rfl⟩ := hmem
  have := List.mem_range.mp hi
  omega

theorem Numbered.free {db : Db} {id : Uuid} {n : Nat} (h : db.Numbered id n) :
    db.steps.find? (id, (n : Int) + 1) = none := by
  cases hf : db.steps.find? (id, (n : Int) + 1) with
  | none => rfl
  | some r =>
    have := h.le (mem_stepsOf.mpr hf)
    omega

theorem Numbered.record {db : Db} {id : Uuid} {n : Nat} (h : db.Numbered id n) (r : StepRow) :
    (db.record id ((n : Int) + 1) r).Numbered id (n + 1) := by
  rw [Numbered, stepsOf_record h.free, List.map_append, h, List.range_succ, List.map_append]
  rfl

end Db

inductive Verdict
  | moves (step : StepRow) (next : Option String)
  | rests (step : StepRow) (change : Int → InstanceRow → InstanceRow) (eventType : String)
  | fails (message : String) (step : Option StepRow)
  | panics

section
variable [Formats] [JsonText]

def nodeCall (req : RunRequest) (turn : Turn) (payload : Json) : WorkflowNode → Option ActionCall
  | .action _ action params _ =>
    match enforceActionPermission req.principal action with
    | .error _ => none
    | .ok _ => callAction req turn action params payload
  | .human _ .approval params _ _ =>
    match enforceActionPermission req.principal "start_approval" with
    | .error _ => none
    | .ok _ => callAction req turn "start_approval" params payload
  | _ => none

variable [Clock]

def nodeVerdict (req : RunRequest) (turn : Turn) (payload : Json) : WorkflowNode → Verdict
  | .endNode nodeId =>
    .rests
      { nodeId, nodeType := "end", status := .ok, detail := .ofFields [("completed", .bool true)] }
      (fun _ r =>
        { r with
          status := .completed, currentNodeId := none, completedAt := some turn.dbNow
          updatedAt := turn.dbNow })
      "completed"
  | .action nodeId action params next =>
    match enforceActionPermission req.principal action with
    | .error e =>
      .fails e.detail (some
        { nodeId, nodeType := "action", actionKey := some action, status := .denied
          detail := .ofFields [("error", .string e.detail)], permissionChecked := some action
          permissionAllowed := some false })
    | .ok perm =>
      match (callAction req turn action params payload).bind ActionCall.error with
      | some e =>
        .fails e (some
          { nodeId, nodeType := "action", actionKey := some action, status := .failed
            detail := .ofFields [("error", .string e)], permissionChecked := some perm
            permissionAllowed := some true })
      | none =>
        .moves
          { nodeId, nodeType := "action", actionKey := some action, status := .ok
            detail := .ofFields [("dry_run_http", .bool req.dryRunHttp)], permissionChecked := some perm
            permissionAllowed := some true }
          next
  | .condition nodeId path equals thenNext elseNext =>
    let chosen := conditionNext payload path equals thenNext elseNext
    .moves
      { nodeId, nodeType := "condition", status := .ok
        detail := .ofFields
          [("matched", .bool (decide (conditionValue payload path = some equals))), ("next", .string chosen)] }
      (some chosen)
  | .branch nodeId arms defaultNext =>
    let chosen := branchNext payload arms defaultNext
    .moves { nodeId, nodeType := "branch", status := .ok, detail := .ofFields [("next", .string chosen)] }
      (some chosen)
  | .timer nodeId durationSecs next =>
    match Clock.plusSeconds turn.now (wrapI64 durationSecs) with
    | none => .panics
    | some waitUntil =>
      .rests
        { nodeId, nodeType := "timer", status := .waiting
          detail := .ofFields
            [("until", .string (Clock.toRfc3339 waitUntil)), ("resume_node", .string next)] }
        (fun index r =>
          { r with
            status := .waiting, currentNodeId := some next, stepCount := index
            waitingUntil := some waitUntil, updatedAt := turn.dbNow })
        "waiting"
  | .human nodeId kind _ onApprove _ =>
    let wait := .rests
      { nodeId, nodeType := "human", actionKey := some (humanAction kind), status := .waiting
        detail := .ofFields [("resume_on_approve", .string onApprove)] }
      (fun index r =>
        { r with
          status := .waiting, currentNodeId := some onApprove, stepCount := index
          updatedAt := turn.dbNow })
      "waiting"
    match kind with
    | .inbox => wait
    | .approval =>
      match enforceActionPermission req.principal "start_approval" with
      | .error e =>
        .fails e.detail (some
          { nodeId, nodeType := "human", actionKey := some "start_approval", status := .denied
            detail := .ofFields [("error", .string e.detail)]
            permissionChecked := some "operations.approval.read", permissionAllowed := some false })
      | .ok _ => wait

/-- What the store is after a step that comes to this at the instance `row`. -/
def Verdict.commit (req : RunRequest) (turn : Turn) (id : Uuid) (row : InstanceRow) (db : Db) : Verdict → Db
  | moves step next =>
    (db.record id (row.stepCount + 1) step).change id fun r =>
      { r with currentNodeId := next, stepCount := row.stepCount + 1, updatedAt := turn.dbNow }
  | rests step change eventType =>
    ((db.record id (row.stepCount + 1) step).change id (change (row.stepCount + 1))).emit
      (instanceEvent req eventType row)
  | fails _ _ => db
  | panics => db

def Verdict.answer : Verdict → Except Failure Unit
  | panics => .error .panic
  | _ => .ok ()

section
variable {req : RunRequest} {turn : Turn} {payload : Json} {node : WorkflowNode}

omit [Clock] in
theorem callAction_action {action : String} {params : Json} {c : ActionCall}
    (h : callAction req turn action params payload = some c) : c.action = action := by
  unfold callAction at h
  split_ifs at h
  cases h
  rfl

/-- The verdict on a node with this call there: the row of a step names the node and its action, a
call that goes wrong fails an action, and what rests does not run. -/
def Verdict.Fits (nodeId : String) (call : Option ActionCall) : Verdict → Prop
  | moves step _ =>
    step.nodeId = nodeId ∧ ∀ c, call = some c → step.actionKey = some c.action ∧ c.error = none
  | rests step change _ =>
    step.nodeId = nodeId ∧ (∀ c, call = some c → step.actionKey = some c.action) ∧
      ∀ index r, (change index r).status ≠ .running ∧
        ((change index r).stepCount = r.stepCount ∨ (change index r).stepCount = index)
  | fails _ step => ∀ s, step = some s → s.nodeId = nodeId ∧ (s.status = .failed ∨ s.status = .denied)
  | panics => call = none

theorem nodeVerdict_fits :
    (nodeVerdict req turn payload node).Fits node.id (nodeCall req turn payload node) := by
  cases node with
  | endNode nodeId =>
    refine ⟨rfl, fun c hc => ?_, fun _ r => ⟨fun hr => ?_, .inl rfl⟩⟩
    · cases hc
    · cases hr
  | action nodeId action params next =>
    simp only [nodeVerdict, nodeCall]
    cases enforceActionPermission req.principal action with
    | error e =>
      intro s hs
      cases hs
      exact ⟨rfl, .inr rfl⟩
    | ok perm =>
      simp only
      cases hcall : (callAction req turn action params payload).bind ActionCall.error with
      | some e =>
        intro s hs
        cases hs
        exact ⟨rfl, .inl rfl⟩
      | none =>
        refine ⟨rfl, fun c hc => ⟨?_, ?_⟩⟩
        · rw [callAction_action hc]
        · rwa [hc] at hcall
  | condition nodeId path equals thenNext elseNext =>
    refine ⟨rfl, fun c hc => ?_⟩
    cases hc
  | branch nodeId arms defaultNext =>
    refine ⟨rfl, fun c hc => ?_⟩
    cases hc
  | timer nodeId durationSecs next =>
    simp only [nodeVerdict]
    cases Clock.plusSeconds turn.now (wrapI64 durationSecs) with
    | none => rfl
    | some waitUntil =>
      refine ⟨rfl, fun c hc => ?_, fun _ r => ⟨fun hr => ?_, .inr rfl⟩⟩
      · cases hc
      · cases hr
  | human nodeId kind params onApprove onReject =>
    cases kind with
    | inbox =>
      refine ⟨rfl, fun c hc => ?_, fun _ r => ⟨fun hr => ?_, .inr rfl⟩⟩
      · cases hc
      · cases hr
    | approval =>
      simp only [nodeVerdict, nodeCall]
      cases enforceActionPermission req.principal "start_approval" with
      | error e =>
        intro s hs
        cases hs
        exact ⟨rfl, .inr rfl⟩
      | ok perm =>
        refine ⟨rfl, fun c hc => ?_, fun _ r => ⟨fun hr => ?_, .inr rfl⟩⟩
        · rw [callAction_action hc]
          rfl
        · cases hr

end

section
variable {id : Uuid} {db t : Db} {visit : Option Visit} {p : Tx Unit}

omit [Formats] [JsonText] [Clock] in
theorem run_recordStep {k : Int} (h : db.steps.find? (id, k) = none) (row : StepRow) :
    (recordStep id k row).run db = .ok ((), db.record id k row) := by
  simp [recordStep, Prog.run_execute, h, Db.record, Except.map]

omit [Formats] [JsonText] [Clock] in
theorem ofRun_committed {k : Int} (h : db.steps.find? (id, k) = none) {step : StepRow}
    (hp : p.run (db.record id k step) = .ok ((), t)) :
    Advanced.ofRun db ((committed visit (do recordStep id k step; p)).run db) = ⟨.ok (), visit, t⟩ := by
  simp only [committed, Prog.run_bind, Prog.run_mapError, run_recordStep h, Except.bind, hp]
  rfl

omit [Formats] [JsonText] [Clock] in
/-- A step that returns early leaves nothing, whatever it wrote. -/
theorem dropped_db (visit : Option Visit) (p : Tx Unit) (db : Db) :
    (Advanced.ofRun db ((dropped visit p).run db)).db = db := by
  simp only [dropped, Prog.run_bind, Prog.run_mapError]
  cases p.run db with
  | error e => rfl
  | ok r => rfl

omit [JsonText] [Clock] in
theorem ofRun_failed {k : Int} (h : db.steps.find? (id, k) = none) {step : StepRow} {req : RunRequest}
    {turn : Turn} {row : InstanceRow} {message : String} :
    Advanced.ofRun db ((dropped visit (do
      recordStep id k step; failInstance req turn id row message)).run db) = ⟨.ok (), visit, db⟩ := by
  simp only [dropped, Prog.run_bind, Prog.run_mapError, run_recordStep h]
  rfl

theorem visitNode_spec {req : RunRequest} {turn : Turn} {row : InstanceRow}
    (hfree : db.steps.find? (id, row.stepCount + 1) = none) (node : WorkflowNode) :
    Advanced.ofRun db ((visitNode req turn id row node).run db) =
      ⟨(nodeVerdict req turn row.triggerPayload node).answer,
        some ⟨row.stepCount + 1, node.id, nodeCall req turn row.triggerPayload node⟩,
        (nodeVerdict req turn row.triggerPayload node).commit req turn id row db⟩ := by
  cases node with
  | endNode nodeId => exact ofRun_committed hfree rfl
  | action nodeId action params next =>
    simp only [visitNode, nodeVerdict, nodeCall]
    cases enforceActionPermission req.principal action with
    | error e => exact ofRun_failed hfree
    | ok perm =>
      simp only
      cases (callAction req turn action params row.triggerPayload).bind ActionCall.error with
      | some e => exact ofRun_failed hfree
      | none => exact ofRun_committed hfree rfl
  | condition nodeId path equals thenNext elseNext => exact ofRun_committed hfree rfl
  | branch nodeId arms defaultNext => exact ofRun_committed hfree rfl
  | timer nodeId durationSecs next =>
    simp only [visitNode, nodeVerdict, nodeCall]
    cases Clock.plusSeconds turn.now (wrapI64 durationSecs) with
    | none => rfl
    | some waitUntil => exact ofRun_committed hfree rfl
  | human nodeId kind params onApprove onReject =>
    cases kind with
    | inbox => exact ofRun_committed hfree rfl
    | approval =>
      simp only [visitNode, nodeVerdict, nodeCall]
      cases enforceActionPermission req.principal "start_approval" with
      | error e => exact ofRun_failed hfree
      | ok perm => exact ofRun_committed hfree rfl

end

/-- What a step at a running instance comes to. -/
def stepVerdict (req : RunRequest) (turn : Turn) (maxSteps : Int) (row : InstanceRow) : Verdict :=
  match row.currentNodeId with
  | none => .fails "missing current_node_id" none
  | some nodeId =>
    if maxSteps ≤ row.stepCount then
      .fails s!"iteration/step cap exceeded ({maxSteps} steps); run failed closed" none
    else
      match req.graph.node nodeId with
      | none => .fails s!"unknown node '{nodeId}'" none
      | some node => nodeVerdict req turn row.triggerPayload node

omit [Clock] in
/-- The node a step at a running instance looks at, with its call. -/
def stepVisit (req : RunRequest) (turn : Turn) (maxSteps : Int) (row : InstanceRow) : Option Visit :=
  (row.currentNodeId.filter fun _ => row.stepCount < maxSteps).bind fun nodeId =>
    (req.graph.node nodeId).map fun node =>
      ⟨row.stepCount + 1, node.id, nodeCall req turn row.triggerPayload node⟩

section
variable {req : RunRequest} {turn : Turn} {id : Uuid} {db : Db} {row : InstanceRow}

/-- A step of a running instance, past its reads. -/
theorem advance_eq (hrow : db.instances.find? id = some row) (hrun : row.status = .running) :
    advance req turn id db = .ofRun db ((advanceRunning req turn id db.boundsOrDefault row).run db) := by
  simp only [advance, advanceInstance, loadOrDefaultBounds, Prog.run_bind, Prog.run_mapError,
    Prog.run_query, Except.mapError, Except.bind, Prog.queryForUpdate, Prog.run_stmt]
  change Advanced.ofRun db (Prog.run _ db) = _
  simp only [hrow, hrun, if_true]

theorem advance_running (hrow : db.instances.find? id = some row) (hrun : row.status = .running)
    (hfree : db.steps.find? (id, row.stepCount + 1) = none) :
    advance req turn id db =
      ⟨(stepVerdict req turn db.boundsOrDefault.maxStepsPerInstance row).answer,
        stepVisit req turn db.boundsOrDefault.maxStepsPerInstance row,
        (stepVerdict req turn db.boundsOrDefault.maxStepsPerInstance row).commit req turn id row db⟩ := by
  rw [advance_eq hrow hrun]
  unfold advanceRunning stepVerdict stepVisit
  cases hcur : row.currentNodeId with
  | none => rfl
  | some nodeId =>
    by_cases hcap : db.boundsOrDefault.maxStepsPerInstance ≤ row.stepCount
    · simp only [hcap, if_true, Option.filter, not_lt.mpr hcap, decide_false]
      rfl
    · simp only [hcap, if_false, Option.filter, not_le.mp hcap, decide_true, if_true, Option.bind_some]
      cases hnode : req.graph.node nodeId with
      | none => rfl
      | some node => exact visitNode_spec hfree node

variable (id) in
theorem visitNode_fails {node : WorkflowNode} {message : String} {step : Option StepRow}
    (h : nodeVerdict req turn row.triggerPayload node = .fails message step) :
    ∃ visit p, visitNode req turn id row node = dropped visit p := by
  cases node with
  | endNode nodeId => cases h
  | action nodeId action params next =>
    simp only [nodeVerdict] at h
    simp only [visitNode]
    cases hperm : enforceActionPermission req.principal action with
    | error e => exact ⟨_, _, rfl⟩
    | ok perm =>
      simp only [hperm] at h ⊢
      cases hcall : (callAction req turn action params row.triggerPayload).bind ActionCall.error with
      | some e => exact ⟨_, _, rfl⟩
      | none =>
        rw [hcall] at h
        cases h
  | condition nodeId path equals thenNext elseNext => cases h
  | branch nodeId arms defaultNext => cases h
  | timer nodeId durationSecs next =>
    simp only [nodeVerdict] at h
    cases hclock : Clock.plusSeconds turn.now (wrapI64 durationSecs) with
    | none =>
      rw [hclock] at h
      cases h
    | some waitUntil =>
      rw [hclock] at h
      cases h
  | human nodeId kind params onApprove onReject =>
    cases kind with
    | inbox => cases h
    | approval =>
      simp only [nodeVerdict] at h
      simp only [visitNode]
      cases hperm : enforceActionPermission req.principal "start_approval" with
      | error e => exact ⟨_, _, rfl⟩
      | ok perm =>
        rw [hperm] at h
        cases h

/-- A failing step leaves no trace in the store. -/
theorem advance_fails {message : String} {step : Option StepRow}
    (hrow : db.instances.find? id = some row) (hrun : row.status = .running)
    (hfail : stepVerdict req turn db.boundsOrDefault.maxStepsPerInstance row = .fails message step) :
    (advance req turn id db).db = db := by
  rw [advance_eq hrow hrun]
  unfold stepVerdict at hfail
  unfold advanceRunning
  cases hcur : row.currentNodeId with
  | none => exact dropped_db _ _ _
  | some nodeId =>
    simp only [hcur] at hfail
    by_cases hcap : db.boundsOrDefault.maxStepsPerInstance ≤ row.stepCount
    · simp only [hcap, if_true]
      exact dropped_db _ _ _
    · simp only [hcap, if_false] at hfail ⊢
      cases hnode : req.graph.node nodeId with
      | none => exact dropped_db _ _ _
      | some node =>
        simp only [hnode] at hfail
        obtain ⟨visit, p, hp⟩ := visitNode_fails id hfail
        simp only [hp]
        exact dropped_db _ _ _

variable (req turn) in
/-- An instance that does not run is left alone. -/
theorem advance_idle (h : ∀ row, db.instances.find? id = some row → row.status ≠ .running) :
    (advance req turn id db).visit = none ∧ (advance req turn id db).db = db := by
  simp only [advance, advanceInstance, loadOrDefaultBounds, Prog.run_bind, Prog.run_mapError,
    Prog.run_query, Except.mapError, Except.bind, Prog.queryForUpdate, Prog.run_stmt]
  change (Advanced.ofRun db (Prog.run _ db)).visit = none ∧ (Advanced.ofRun db (Prog.run _ db)).db = db
  cases hrow : db.instances.find? id with
  | none => exact ⟨rfl, rfl⟩
  | some row =>
    simp only [h row hrow, if_false]
    exact ⟨rfl, rfl⟩

/-- A step looks at a node, and its verdict fits the node, or it fails before it. -/
theorem stepVerdict_cases (req : RunRequest) (turn : Turn) (maxSteps : Int) (row : InstanceRow) :
    (∃ v, stepVisit req turn maxSteps row = some v ∧ v.index = row.stepCount + 1 ∧
        (stepVerdict req turn maxSteps row).Fits v.nodeId v.call) ∨
      (stepVisit req turn maxSteps row = none ∧ ∃ m, stepVerdict req turn maxSteps row = .fails m none) := by
  unfold stepVerdict stepVisit
  cases hcur : row.currentNodeId with
  | none => exact .inr ⟨rfl, _, rfl⟩
  | some nodeId =>
    by_cases hcap : maxSteps ≤ row.stepCount
    · refine .inr ⟨?_, _, if_pos hcap⟩
      simp [not_lt.mpr hcap]
    · simp only [hcap, if_false, Option.filter, not_le.mp hcap, decide_true, if_true, Option.bind_some]
      cases hnode : req.graph.node nodeId with
      | none => exact .inr ⟨rfl, _, rfl⟩
      | some node => exact .inl ⟨_, rfl, rfl, nodeVerdict_fits⟩

theorem stepVerdict_rests {maxSteps : Int} {step : StepRow} {change : Int → InstanceRow → InstanceRow}
    {eventType : String} (h : stepVerdict req turn maxSteps row = .rests step change eventType)
    (index : Int) (r : InstanceRow) :
    (change index r).status ≠ .running ∧
      ((change index r).stepCount = r.stepCount ∨ (change index r).stepCount = index) := by
  rcases stepVerdict_cases req turn maxSteps row with ⟨v, _, _, hfits⟩ | ⟨_, m, hfails⟩
  · rw [h] at hfits
    exact hfits.2.2 index r
  · rw [h] at hfails
    cases hfails

end

section
variable {req : RunRequest} {id : Uuid} {turns : Nat → Turn} {db : Db}

theorem drive_running (n : Nat)
    (h : (((turns 0).beforeRead db).instances.find? id).map InstanceRow.status = some .running) :
    drive req id (n + 1) turns db =
      (advance req (turns 0) id ((turns 0).beforeAdvance ((turns 0).beforeRead db))).followedBy
        (turns 0, (turns 0).beforeAdvance ((turns 0).beforeRead db))
        (drive req id n fun k => turns (k + 1)) := if_pos h

theorem drive_idle (n : Nat)
    (h : (((turns 0).beforeRead db).instances.find? id).map InstanceRow.status ≠ some .running) :
    drive req id (n + 1) turns db = ⟨.ok (), [], [], (turns 0).beforeRead db⟩ := if_neg h

omit [Formats] [JsonText] [Clock] in
theorem followedBy_ok {a : Advanced} (h : a.answer = .ok ()) (start : Turn × Db) (rest : Db → Driven) :
    a.followedBy start rest =
      { rest a.db with
        steps := start :: (rest a.db).steps, visits := a.visit.toList ++ (rest a.db).visits } := by
  rw [Advanced.followedBy, h]

omit [Formats] [JsonText] [Clock] in
theorem followedBy_error {a : Advanced} {e : Failure} (h : a.answer = .error e) (start : Turn × Db)
    (rest : Db → Driven) : a.followedBy start rest = ⟨.error e, [start], a.visit.toList, a.db⟩ := by
  rw [Advanced.followedBy, h]

end

end

/-- The instance runs, and has been moved once for each of its `n` steps. -/
structure Db.RunningAt (db : Db) (id : Uuid) (row : InstanceRow) (n : Nat) : Prop where
  found : db.instances.find? id = some row
  running : row.status = .running
  count : row.stepCount = n
  numbered : db.Numbered id n

namespace Db.RunningAt
variable {db : Db} {id : Uuid} {row : InstanceRow} {n : Nat}

theorem free (h : db.RunningAt id row n) : db.steps.find? (id, row.stepCount + 1) = none := by
  rw [h.count]
  exact h.numbered.free

theorem advance [Formats] [JsonText] [Clock] (h : db.RunningAt id row n) (req : RunRequest) (turn : Turn) :
    advance req turn id db =
      ⟨(stepVerdict req turn db.boundsOrDefault.maxStepsPerInstance row).answer,
        stepVisit req turn db.boundsOrDefault.maxStepsPerInstance row,
        (stepVerdict req turn db.boundsOrDefault.maxStepsPerInstance row).commit req turn id row db⟩ :=
  advance_running h.found h.running h.free

variable [Formats] (req : RunRequest) (turn : Turn)

/-- The instance has moved on. -/
theorem moves (h : db.RunningAt id row n) (step : StepRow) (next : Option String) :
    ((Verdict.moves step next).commit req turn id row db).RunningAt id
      { row with currentNodeId := next, stepCount := row.stepCount + 1, updatedAt := turn.dbNow } (n + 1) := by
  refine ⟨?_, h.running, ?_, ?_⟩
  · rw [Verdict.commit, find?_change, instances_record, h.found]
    rfl
  · simp [h.count]
  · have hrec := h.numbered.record step
    rwa [← h.count] at hrec

theorem stepsOf_moves (h : db.RunningAt id row n) (step : StepRow) (next : Option String) :
    ((Verdict.moves step next).commit req turn id row db).stepsOf id =
      db.stepsOf id ++ [(row.stepCount + 1, step)] := by
  rw [Verdict.commit, stepsOf_change, stepsOf_record h.free]

theorem stepsOf_rests (h : db.RunningAt id row n) (step : StepRow) (change : Int → InstanceRow → InstanceRow)
    (eventType : String) :
    ((Verdict.rests step change eventType).commit req turn id row db).stepsOf id =
      db.stepsOf id ++ [(row.stepCount + 1, step)] := by
  rw [Verdict.commit, stepsOf_emit, stepsOf_change, stepsOf_record h.free]

theorem numbered_rests (h : db.RunningAt id row n) (step : StepRow)
    (change : Int → InstanceRow → InstanceRow) (eventType : String) :
    ((Verdict.rests step change eventType).commit req turn id row db).Numbered id (n + 1) := by
  have hrec := h.numbered.record step
  rwa [← h.count] at hrec

/-- The instance has come to rest. -/
theorem rests (h : db.RunningAt id row n) (step : StepRow) (change : Int → InstanceRow → InstanceRow)
    (eventType : String) :
    ((Verdict.rests step change eventType).commit req turn id row db).instances.find? id =
      some (change (row.stepCount + 1) row) := by
  rw [Verdict.commit, instances_emit, find?_change, instances_record, h.found]
  rfl

end Db.RunningAt

@[reducible] def plainText : JsonText := ⟨fun v => v.asStr.getD ""⟩

@[reducible] def secondsClock : Clock := ⟨fun _ => "", fun now secs => some (now + secs)⟩

/-- Every service answers with this status, and nobody else writes. -/
def Turn.answering (status : Nat) : Turn where
  now := 0
  dbNow := 0
  services := ⟨fun _ => none, fun _ => some (status, "")⟩

def RunRequest.of (graph : WorkflowGraph) : RunRequest where
  orgId := 1
  graph := graph
  principal := ⟨fun _ => true⟩
  actor := 2
  dryRunHttp := false

def Db.starting (bounds : Option OrgBounds) (payload : Json) (entry : String) : Db where
  orgBounds := bounds
  instances := Table.empty.insert 7
    { publicId := "wfi_7", definitionId := 3, versionId := 4, versionNumber := 1, status := .running
      triggerPayload := payload, currentNodeId := some entry, stepCount := 0, updatedAt := 0 }
  steps := .empty
  outbox := []

def Db.statusOf (db : Db) (id : Uuid) : Option InstanceStatus :=
  (db.instances.find? id).map (·.status)

theorem Db.starting_runningAt (bounds : Option OrgBounds) (payload : Json) (entry : String) :
    ∃ row, (Db.starting bounds payload entry).RunningAt 7 row 0 :=
  ⟨_, rfl, rfl, rfl, rfl⟩

end Noxara.Workflows
