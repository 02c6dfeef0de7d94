import Noxara.WorkflowDefinitions
import Noxara.WorkflowFrames

/-! Starting instances of published workflows, from a request or from an event, under the
organisation's cap on concurrent instances. -/
namespace Noxara.Workflows

open Transaction
open Finance (Uuid Timestamp AppError PublicId Formats wrapI64 notFound validation conflict)

structure StartWorkflowRequest where
  payload : Json
  dryRun : Bool := false

structure TriggerEventRequest where
  eventKey : String
  payload : Json

def InstanceRow.isActive (row : InstanceRow) : Bool := row.status = .running || row.status = .waiting

def Db.activeInstances (db : Db) : Nat := db.instances.values.countP InstanceRow.isActive

def countActiveInstances : StoreTx Nat := Prog.query fun s => s.activeInstances

def capExceeded (active : Nat) (max : Int) : AppError :=
  conflict s!"org concurrency cap exceeded: {active} active instances (max {max})"

/-- Read the bounds, count the active instances, and go on below the cap. -/
def enforceConcurrencyCap : StoreTx OrgBounds := do
  let bounds ← Prog.query fun s : Store => s.boundsOrDefault
  let active ← countActiveInstances
  Prog.require ((active : Int) < bounds.maxConcurrent)
    (.failed (.error (capExceeded active bounds.maxConcurrent)))
  return bounds

variable [Formats]

def userWorkflowId (orgPublic definitionPublic instancePublic : String) : String :=
  s!"{orgPublic}:UserWorkflow:{definitionPublic}:{instancePublic}"

/-- The row of a new instance: it runs a version from the entry node of its graph. -/
def startedRow (ctx : RequestCtx) (defUuid verUuid : Uuid) (version : Int) (graph : WorkflowGraph)
    (payload : Json) : InstanceRow where
  publicId := (PublicId.mk .workflowInstance (ctx.fresh 0)).asStr
  definitionId := defUuid
  versionId := verUuid
  versionNumber := version
  status := .running
  triggerPayload := payload
  currentNodeId := some graph.entry
  stepCount := 0
  updatedAt := ctx.now

/-- The deadline of a run; `none` where `chrono` panics. -/
def slaDeadline [Clock] (now : Timestamp) (graph : WorkflowGraph) : StoreTx (Option Timestamp) :=
  match graph.slaSeconds with
  | none => pure none
  | some s => Prog.okOr ((Clock.plusSeconds now (wrapI64 s)).map some) (.failed .panic)

def startedDto (ctx : RequestCtx) (definition : DefinitionRow) (verUuid : Uuid) (version : Int)
    (graph : WorkflowGraph) (sla : Option Timestamp) : WorkflowInstanceDto :=
  let instPublic := (PublicId.mk .workflowInstance (ctx.fresh 0)).asStr
  { id := instPublic, definitionId := definition.publicId
    versionId := (PublicId.mk .workflowVersion verUuid).asStr, versionNumber := version
    status := .running, actorUserId := userPublic definition.createdBy
    temporalWorkflowId :=
      userWorkflowId (PublicId.mk .org ctx.orgId).asStr definition.publicId instPublic
    stepCount := 0, currentNodeId := some graph.entry, slaDeadline := sla, startedAt := ctx.now
    updatedAt := ctx.now }

def startedEvent (definition : DefinitionRow) (dto : WorkflowInstanceDto) : EventEnvelope where
  aggregate := "instance"
  eventType := "started"
  version := 1
  actor := definition.createdBy
  payload := .ofFields
    [("id", .string dto.id), ("definition_id", .string dto.definitionId),
      ("version_id", .string dto.versionId), ("version", intJson dto.versionNumber),
      ("temporal_workflow_id", .string dto.temporalWorkflowId)]

/-- The version of a definition that is published under this number. -/
def publishedVersionAt (s : Store) (defUuid : Uuid) (version : Int) : Option (Uuid × VersionRow) :=
  (versionAt s defUuid version).filter fun v => v.2.publishedAt.isSome

def startBelowCap [Clock] (ctx : RequestCtx) (defUuid : Uuid) (payload : Json) (scope idem : String) :
    StoreTx Answer := do
  let definition ← Prog.query fun s : Store => s.definitions.find? defUuid
  match definition.bind fun row => row.currentPublishedVersion.map fun n => (row, n) with
  | none => failWith (validation "definition must be published before start")
  | some (row, pubVer) =>
    match ← Prog.query fun s => publishedVersionAt s defUuid pubVer with
    | none => failWith (notFound "published workflow version")
    | some (verUuid, ver) =>
      -- the creator's permissions bound the run, not the starter's
      let creator ← liftExcept (ctx.loadPrincipal row.createdBy)
      let _ ← liftExcept (enforceCreatorCanOwnGraph creator ver.graph)
      let sla ← slaDeadline ctx.now ver.graph
      let dto := startedDto ctx row verUuid pubVer ver.graph sla
      insertInstance (ctx.fresh 0) (startedRow ctx defUuid verUuid pubVer ver.graph payload)
      insertEvent (startedEvent row dto)
      Idempotency.put scope idem 201 (.instance dto)
      return .instance dto

def replayStart (stored : Int × StoredBody) : StoreTx Answer :=
  if stored.1 = 201 then
    match stored.2 with
    | .instance dto => pure (.instance dto)
    | .version _ => failWith ⟨.internal, "missing field \x60version_id\x60"⟩
  else failWith (conflict "Idempotency-Key already used with a different outcome")

/-- The transaction that starts an instance, once its request is checked. -/
def startOnce [Clock] (ctx : RequestCtx) (defUuid : Uuid) (payload : Json) (scope idem : String) :
    StoreTx Answer := do
  match ← Idempotency.get scope idem with
  | some stored => replayStart stored
  | none =>
    let _ ← enforceConcurrencyCap
    startBelowCap ctx defUuid payload scope idem

def startInstance [Clock] (ctx : RequestCtx) (id : String) (body : StartWorkflowRequest) :
    StoreTx Answer := do
  Prog.require (body.dryRun = false) (.failed (.error (validation
    "dry_run start is not allowed; use POST /api/v1/workflows/simulate (zero side effects)")))
  let idem ← liftExcept ctx.requireIdempotency
  let principal ← liftExcept (ctx.loadPrincipal ctx.actor)
  liftExcept (enforce principal "operations.workflow.run")
  let defUuid ← liftExcept (parsePublicId .workflowDefinition id)
  startOnce ctx defUuid body.payload s!"workflow.start:{id}" idem

structure Triggered where
  definitionId : Uuid
  definition : DefinitionRow
  versionId : Uuid
  version : VersionRow

def publishedDefinitions (s : Store) : List Triggered :=
  (s.definitions.rows.filter fun d => d.2.status = .published).filterMap fun d =>
    d.2.currentPublishedVersion.bind fun n =>
      (publishedVersionAt s d.1 n).map fun v => ⟨d.1, d.2, v.1, v.2⟩

def Triggered.matches (t : Triggered) (eventKey : String) : Bool :=
  t.version.graph.trigger = .domainEvent eventKey

def triggeredEvent (t : Triggered) (instPublic : String) : EventEnvelope where
  aggregate := "instance"
  eventType := "started"
  version := 1
  actor := t.definition.createdBy
  payload := .ofFields
    [("id", .string instPublic), ("definition_id", .string t.definition.publicId),
      ("version_id", .string (PublicId.mk .workflowVersion t.versionId).asStr)]

/-- What a start from an event does once the cap let it pass. -/
def triggerBelowCap (ctx : RequestCtx) (t : Triggered) (payload : Json) : StoreTx Answer := do
  let creator ← liftExcept (ctx.loadPrincipal t.definition.createdBy)
  match enforceCreatorCanOwnGraph creator t.version.graph with
  | .error _ => .fail .dropped
  | .ok _ =>
    let row := startedRow ctx t.definitionId t.versionId t.version.version t.version.graph payload
    insertInstance (ctx.fresh 0) row
    insertEvent (triggeredEvent t row.publicId)
    return .stepped

/-- The round of an event's loop for the `k`th of the definitions it triggers. The rounds share one
read of the definitions; it commits by itself, before the first of them. -/
def ingestRound (ctx : RequestCtx) (body : TriggerEventRequest) (k : Nat) : StoreTx Answer := do
  let defs ← Prog.query publishedDefinitions
  match (defs.filter fun t => t.matches body.eventKey)[k]? with
  | none => .fail .dropped
  | some t =>
    let _ ← enforceConcurrencyCap.mapError fun _ => Exit.dropped
    triggerBelowCap ctx t body.payload

def ingestTriggerEvent (ctx : RequestCtx) (body : TriggerEventRequest) (k : Nat) : StoreTx Answer := do
  let principal ← liftExcept (ctx.loadPrincipal ctx.actor)
  liftExcept (enforce principal "operations.workflow.run")
  Prog.require (isKnownTrigger body.eventKey = true)
    (.failed (.error (validation s!"unknown trigger {body.eventKey}")))
  ingestRound ctx body k

/-- The write on the whole store. -/
def onRuntime (f : Db → Db) (s : Store) : Store := { s with toDb := f s.toDb }

/-- How a step that commits nothing ends for its request. -/
def Ended.exit (e : Ended) : Exit :=
  match e.answer with
  | .error f => .failed f
  | .ok _ => .dropped

def onStore {α : Type} (p : Prog Db RowKey Ended α) : StoreTx α :=
  (p.mapError Ended.exit).zoom Store.toDb onRuntime StoreKey.runtime

def stepInstance [JsonText] [Clock] (req : RunRequest) (turn : Turn) (id : Uuid) : StoreTx Answer := do
  let _ ← onStore (advanceInstance req turn id)
  return .stepped

inductive Request
  | create (ctx : RequestCtx) (body : CreateWorkflowDefinitionRequest)
  | update (ctx : RequestCtx) (id : String) (body : UpdateWorkflowDefinitionRequest)
  | publish (ctx : RequestCtx) (id : String)
  | start (ctx : RequestCtx) (id : String) (body : StartWorkflowRequest)
  | ingest (ctx : RequestCtx) (body : TriggerEventRequest) (k : Nat)
  | step (req : RunRequest) (turn : Turn) (id : Uuid)

def Request.body [JsonText] [Clock] : Request → StoreTx Answer
  | create ctx body => createDefinition ctx body
  | update ctx id body => updateDefinition ctx id body
  | publish ctx id => publishDefinition ctx id
  | start ctx id body => startInstance ctx id body
  | ingest ctx body k => ingestTriggerEvent ctx body k
  | step req turn id => stepInstance req turn id

omit [Formats]

/-- On the whole store, nothing but a step of the instance `id`. -/
def StepsOnly (id : Uuid) (g : Store → Store) : Prop := ∃ f, Moves id f ∧ ∀ s, g s = onRuntime f s

theorem StepsOnly.id (id : Uuid) : StepsOnly id (fun s => s) := ⟨_, .id id, fun _ => rfl⟩

theorem StepsOnly.comp {id : Uuid} {g h : Store → Store} (hg : StepsOnly id g) (hh : StepsOnly id h) :
    StepsOnly id (g ∘ h) := by
  obtain ⟨f, hf, hgf⟩ := hg
  obtain ⟨f', hf', hhf⟩ := hh
  refine ⟨f ∘ f', hf.comp hf', fun s => ?_⟩
  rw [Function.comp, hgf, hhf]
  rfl

theorem writes_onStore {id : Uuid} {α : Type} {p : Prog Db RowKey Ended α} (h : p.Writes (Moves id)) :
    (onStore p).Writes (StepsOnly id) :=
  .zoom (fun f hf => ⟨f, hf, fun _ => rfl⟩) (h.mapError _)

/-- A user who may do everything; the request draws its UUIDs from `first` on. -/
def RequestCtx.of (key : String) (first : Uuid) : RequestCtx where
  orgId := 1
  actor := 2
  loadPrincipal := fun _ => .ok ⟨fun _ => true⟩
  idempotencyKey := some key
  now := 0
  fresh := fun n => first + n

def WorkflowGraph.onlyEnd : WorkflowGraph where
  entry := "done"
  trigger := .manual
  nodes := [.endNode "done"]

def Store.empty : Store where
  orgBounds := none
  instances := .empty
  steps := .empty
  outbox := []
  definitions := .empty
  versions := .empty
  idempotency := .empty

/-- The definition 3, published once and never started, in an organisation with this cap. -/
def Store.publishedOnce (bounds : Option OrgBounds) : Store where
  orgBounds := bounds
  instances := .empty
  steps := .empty
  outbox := []
  definitions := Table.empty.insert 3
    { publicId := "wfd_3", name := "ending", description := "", status := .published, createdBy := 2
      currentPublishedVersion := some 1, createdAt := 0, updatedAt := 0 }
  versions := (Table.empty.insert 4
    { publicId := "wfv_4", definitionId := 3, version := 0, graph := .onlyEnd, requiredPermissions := [] }).insert 5
    { publicId := "wfv_5", definitionId := 3, version := 1, graph := .onlyEnd, requiredPermissions := []
      publishedAt := some 0, publishedBy := some 2 }
  idempotency := .empty

end Noxara.Workflows
