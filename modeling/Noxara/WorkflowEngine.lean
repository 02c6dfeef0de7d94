import Noxara.TransactionProgram
import Noxara.WorkflowActivities

/-! The runtime of workflow instances: the tables they live in, the transaction that advances an
instance by one node, and the loop that drives it until it waits or ends. -/
namespace Noxara.Workflows

open Transaction
open Finance (Uuid Timestamp AppError PublicId Formats wrapI64 stripPrefix)

/-- The row of an organisation's bounds, within what its table admits. -/
structure OrgBounds where
  maxConcurrent : Int
  maxStepsPerInstance : Int
  concurrent_ok : 0 < maxConcurrent ∧ maxConcurrent ≤ 1000
  steps_ok : 0 < maxStepsPerInstance ∧ maxStepsPerInstance ≤ 10000
  deriving DecidableEq

inductive InstanceStatus
  | running | waiting | completed | failed | cancelled | slaBreached
  deriving DecidableEq

structure InstanceRow where
  publicId : String
  definitionId : Uuid
  versionId : Uuid
  versionNumber : Int
  status : InstanceStatus
  triggerPayload : Json
  currentNodeId : Option String
  stepCount : Int
  errorMessage : Option String := none
  waitingUntil : Option Timestamp := none
  updatedAt : Timestamp
  completedAt : Option Timestamp := none
  deriving DecidableEq

inductive StepStatus
  | planned | ok | skipped | failed | waiting | denied
  deriving DecidableEq

structure StepRow where
  nodeId : String
  nodeType : String
  actionKey : Option String := none
  status : StepStatus
  detail : Json
  permissionChecked : Option String := none
  permissionAllowed : Option Bool := none
  deriving DecidableEq

structure EventEnvelope where
  aggregate : String
  eventType : String
  version : Nat
  actor : Uuid
  payload : Json
  deriving DecidableEq

/-- Steps are keyed by their instance and their number in it. -/
structure Db where
  orgBounds : Option OrgBounds
  instances : Table Uuid InstanceRow
  steps : Table (Uuid × Int) StepRow
  outbox : List EventEnvelope

inductive RowKey
  | instance (id : Uuid)
  | step (instanceId : Uuid) (index : Int)
  deriving DecidableEq

abbrev Tx := Prog Db RowKey AppError

def DEFAULT_MAX_CONCURRENT : Int := 50

def DEFAULT_MAX_STEPS : Int := 100

theorem default_concurrent_ok : 0 < DEFAULT_MAX_CONCURRENT ∧ DEFAULT_MAX_CONCURRENT ≤ 1000 := by decide

theorem default_steps_ok : 0 < DEFAULT_MAX_STEPS ∧ DEFAULT_MAX_STEPS ≤ 10000 := by decide

def Db.boundsOrDefault (db : Db) : OrgBounds :=
  db.orgBounds.getD ⟨DEFAULT_MAX_CONCURRENT, DEFAULT_MAX_STEPS, default_concurrent_ok, default_steps_ok⟩

def loadOrDefaultBounds : Tx OrgBounds := Prog.query Db.boundsOrDefault

/-- Instants as the `chrono` crate writes and adds them; `plusSeconds` is `none` where it panics. -/
class Clock where
  toRfc3339 : Timestamp → String
  plusSeconds : Timestamp → Int → Option Timestamp

/-- What an instance is driven with. -/
structure RunRequest where
  orgId : Uuid
  graph : WorkflowGraph
  principal : Principal
  actor : Uuid
  dryRunHttp : Bool

/-- What one round of the driver finds: the clocks, the services, and what other transactions
committed before its read and before its step. -/
structure Turn where
  now : Timestamp
  dbNow : Timestamp
  services : Services
  beforeRead : Db → Db := id
  beforeAdvance : Db → Db := id

/-- A call of `execute_action` with its answer. -/
structure ActionCall where
  action : String
  params : Json
  payload : Json
  answer : Except String Unit

def ActionCall.error (c : ActionCall) : Option String :=
  match c.answer with | .ok _ => none | .error e => some e

/-- A node that a step looked at, under which number, and the call it made there. -/
structure Visit where
  index : Int
  nodeId : String
  call : Option ActionCall

inductive Failure
  | error (e : AppError)
  | panic
  deriving DecidableEq

/-- How a step ends that commits nothing. -/
structure Ended where
  answer : Except Failure Unit
  visit : Option Visit

abbrev StepTx := Prog Db RowKey Ended (Option Visit)

section
variable [Formats] [JsonText]

def callAction (req : RunRequest) (turn : Turn) (action : String) (params payload : Json) :
    Option ActionCall :=
  if req.dryRunHttp then none
  else some ⟨action, params, payload,
    executeAction turn.services ⟨req.orgId, req.actor⟩ action params payload⟩

def recordStep (id : Uuid) (index : Int) (row : StepRow) : Tx Unit :=
  Prog.execute (fun _ => [.step id index])
    (fun db =>
      if (db.steps.find? (id, index)).isSome then
        .error ⟨.internal, "error returned from database: duplicate key value violates unique constraint \"workflow_instance_step_org_id_instance_id_step_index_key\""⟩
      else .ok ())
    (fun _ db => { db with steps := db.steps.insert (id, index) row })

def updateInstance (id : Uuid) (change : InstanceRow → InstanceRow) : Tx Unit :=
  Prog.execute (fun _ => [.instance id]) (fun _ => .ok ())
    (fun _ db => { db with instances := db.instances.modify id change })

def instanceEvent (req : RunRequest) (eventType : String) (row : InstanceRow) : EventEnvelope where
  aggregate := "instance"
  eventType := eventType
  version := 1
  actor := req.actor
  payload := .ofFields
    [("id", .string row.publicId),
      ("definition_id", .string (PublicId.mk .workflowDefinition row.definitionId).asStr),
      ("version_id", .string (PublicId.mk .workflowVersion row.versionId).asStr),
      ("version", .number (if row.versionNumber < 0 then .negInt row.versionNumber
        else .posInt row.versionNumber.toNat))]

def emitInstanceEvent (req : RunRequest) (eventType : String) (row : InstanceRow) : Tx Unit :=
  Prog.execute (fun _ => []) (fun _ => .ok ())
    (fun _ db => { db with outbox := db.outbox ++ [instanceEvent req eventType row] })

def failInstance (req : RunRequest) (turn : Turn) (id : Uuid) (row : InstanceRow) (message : String) :
    Tx Unit := do
  updateInstance id fun r =>
    { r with
      status := .failed, errorMessage := some message, completedAt := some turn.dbNow,
      updatedAt := turn.dbNow }
  emitInstanceEvent req "failed" row

def completeInstance (req : RunRequest) (turn : Turn) (id : Uuid) (row : InstanceRow) : Tx Unit := do
  updateInstance id fun r =>
    { r with
      status := .completed, currentNodeId := none, completedAt := some turn.dbNow,
      updatedAt := turn.dbNow }
  emitInstanceEvent req "completed" row

/-- The instance goes on at `next`. -/
def moveInstance (turn : Turn) (id : Uuid) (index : Int) (next : Option String) : Tx Unit :=
  updateInstance id fun r =>
    { r with currentNodeId := next, stepCount := index, updatedAt := turn.dbNow }

def conditionValue (payload : Json) (path : String) : Option Json :=
  let key := (stripPrefix path "payload.").getD path
  (payload.pointer ("/" ++ key)).or (payload.along (Json.splitChar '.' key))

def conditionNext (payload : Json) (path : String) (equals : Json) (thenNext elseNext : String) : String :=
  if conditionValue payload path = some equals then thenNext else elseNext

/-- The value at the path of a branch's arm: key by key. -/
def armValue (payload : Json) (path : String) : Option Json :=
  payload.along (Json.splitChar '.' ((stripPrefix path "payload.").getD path))

/-- The first arm that matches. -/
def branchNext (payload : Json) (arms : List BranchArm) (defaultNext : String) : String :=
  ((arms.find? fun arm => armValue payload arm.path = some arm.equals).map (·.next)).getD defaultNext

def humanAction : HumanStepKind → String
  | .approval => "start_approval"
  | .inbox => "inbox"

/-- The step commits what `p` wrote. -/
def committed (visit : Option Visit) (p : Tx Unit) : StepTx := do
  p.mapError fun e => ⟨.error (.error e), visit⟩
  pure visit

/-- The step returns before its commit, so what `p` wrote is rolled back. -/
def dropped (visit : Option Visit) (p : Tx Unit) : StepTx := do
  p.mapError fun e => ⟨.error (.error e), visit⟩
  .fail ⟨.ok (), visit⟩

variable [Clock]

def visitNode (req : RunRequest) (turn : Turn) (id : Uuid) (row : InstanceRow) (node : WorkflowNode) :
    StepTx :=
  let nextStep := row.stepCount + 1
  let visit := fun call => some (Visit.mk nextStep node.id call)
  match node with
  | .endNode nodeId => committed (visit none) do
    recordStep id nextStep
      { nodeId, nodeType := "end", status := .ok, detail := .ofFields [("completed", .bool true)] }
    completeInstance req turn id row
  | .action nodeId action params next =>
    match enforceActionPermission req.principal action with
    | .error e => dropped (visit none) do
      recordStep id nextStep
        { nodeId, nodeType := "action", actionKey := some action, status := .denied
          detail := .ofFields [("error", .string e.detail)], permissionChecked := some action
          permissionAllowed := some false }
      failInstance req turn id row e.detail
    | .ok perm =>
      let call := callAction req turn action params row.triggerPayload
      match call.bind ActionCall.error with
      | some e => dropped (visit call) do
        recordStep id nextStep
          { nodeId, nodeType := "action", actionKey := some action, status := .failed
            detail := .ofFields [("error", .string e)], permissionChecked := some perm
            permissionAllowed := some true }
        failInstance req turn id row e
      | none => committed (visit call) do
        recordStep id nextStep
          { nodeId, nodeType := "action", actionKey := some action, status := .ok
            detail := .ofFields [("dry_run_http", .bool req.dryRunHttp)], permissionChecked := some perm
            permissionAllowed := some true }
        moveInstance turn id nextStep next
  | .condition nodeId path equals thenNext elseNext => committed (visit none) do
    let matched := decide (conditionValue row.triggerPayload path = some equals)
    let chosen := conditionNext row.triggerPayload path equals thenNext elseNext
    recordStep id nextStep
      { nodeId, nodeType := "condition", status := .ok
        detail := .ofFields [("matched", .bool matched), ("next", .string chosen)] }
    moveInstance turn id nextStep (some chosen)
  | .branch nodeId arms defaultNext => committed (visit none) do
    let chosen := branchNext row.triggerPayload arms defaultNext
    recordStep id nextStep
      { nodeId, nodeType := "branch", status := .ok, detail := .ofFields [("next", .string chosen)] }
    moveInstance turn id nextStep (some chosen)
  | .timer nodeId durationSecs next =>
    match Clock.plusSeconds turn.now (wrapI64 durationSecs) with
    | none => .fail ⟨.error .panic, visit none⟩
    | some waitUntil => committed (visit none) do
      recordStep id nextStep
        { nodeId, nodeType := "timer", status := .waiting
          detail := .ofFields
            [("until", .string (Clock.toRfc3339 waitUntil)), ("resume_node", .string next)] }
      updateInstance id fun r =>
        { r with
          status := .waiting, currentNodeId := some next, stepCount := nextStep,
          waitingUntil := some waitUntil, updatedAt := turn.dbNow }
      emitInstanceEvent req "waiting" row
  | .human nodeId kind params onApprove _ =>
    let wait := fun call => committed (visit call) do
      recordStep id nextStep
        { nodeId, nodeType := "human", actionKey := some (humanAction kind), status := .waiting
          detail := .ofFields [("resume_on_approve", .string onApprove)] }
      updateInstance id fun r =>
        { r with
          status := .waiting, currentNodeId := some onApprove, stepCount := nextStep
          updatedAt := turn.dbNow }
      emitInstanceEvent req "waiting" row
    match kind with
    | .inbox => wait none
    | .approval =>
      match enforceActionPermission req.principal "start_approval" with
      | .error e => dropped (visit none) do
        recordStep id nextStep
          { nodeId, nodeType := "human", actionKey := some "start_approval", status := .denied
            detail := .ofFields [("error", .string e.detail)]
            permissionChecked := some "operations.approval.read", permissionAllowed := some false }
        failInstance req turn id row e.detail
      -- the answer of the call is ignored
      | .ok _ => wait (callAction req turn "start_approval" params row.triggerPayload)

def advanceRunning (req : RunRequest) (turn : Turn) (id : Uuid) (bounds : OrgBounds) (row : InstanceRow) :
    StepTx :=
  match row.currentNodeId with
  | none => dropped none (failInstance req turn id row "missing current_node_id")
  | some nodeId =>
    if bounds.maxStepsPerInstance ≤ row.stepCount then
      dropped none (failInstance req turn id row
        s!"iteration/step cap exceeded ({bounds.maxStepsPerInstance} steps); run failed closed")
    else
      match req.graph.node nodeId with
      | none => dropped none (failInstance req turn id row s!"unknown node '{nodeId}'")
      | some node => visitNode req turn id row node

def advanceInstance (req : RunRequest) (turn : Turn) (id : Uuid) : StepTx := do
  let bounds ← loadOrDefaultBounds.mapError fun e => ⟨.error (.error e), none⟩
  let row ← Prog.queryForUpdate (fun _ => [.instance id]) fun db => db.instances.find? id
  match row with
  | none => .fail ⟨.error (.error ⟨.notFound, "workflow instance not found"⟩), none⟩
  | some row =>
    if row.status = .running then advanceRunning req turn id bounds row else .fail ⟨.ok (), none⟩

/-- What a step answers, what it looked at, and the committed store after it. -/
structure Advanced where
  answer : Except Failure Unit
  visit : Option Visit
  db : Db

def Advanced.ofRun (db : Db) : Except Ended (Option Visit × Db) → Advanced
  | .ok (visit, db') => ⟨.ok (), visit, db'⟩
  | .error e => ⟨e.answer, e.visit, db⟩

def advance (req : RunRequest) (turn : Turn) (id : Uuid) (db : Db) : Advanced :=
  .ofRun db ((advanceInstance req turn id).run db)

/-- What a run of the driver leaves: besides the answer and the store, the steps it took with the
store each started from, and their visits. -/
structure Driven where
  answer : Except Failure Unit
  steps : List (Turn × Db)
  visits : List Visit
  db : Db

/-- A step and what follows it: an error ends the run. -/
def Advanced.followedBy (start : Turn × Db) (a : Advanced) (rest : Db → Driven) : Driven :=
  match a.answer with
  | .error e => ⟨.error e, [start], a.visit.toList, a.db⟩
  | .ok _ =>
    { rest a.db with
      steps := start :: (rest a.db).steps, visits := a.visit.toList ++ (rest a.db).visits }

/-- At most `n` rounds. -/
def drive (req : RunRequest) (id : Uuid) : Nat → (Nat → Turn) → Db → Driven
  | 0, _, db => ⟨.ok (), [], [], db⟩
  | n + 1, turns, db =>
    let seen := (turns 0).beforeRead db
    let start := (turns 0).beforeAdvance seen
    if (seen.instances.find? id).map InstanceRow.status = some .running then
      (advance req (turns 0) id start).followedBy (turns 0, start) (drive req id n fun k => turns (k + 1))
    else ⟨.ok (), [], [], seen⟩

/-- The rounds of `run_until_idle`. -/
def maxRounds : Nat := (DEFAULT_MAX_STEPS + 5).toNat

def runUntilIdle (req : RunRequest) (id : Uuid) (turns : Nat → Turn) (db : Db) : Driven :=
  drive req id maxRounds turns db

end

end Noxara.Workflows
