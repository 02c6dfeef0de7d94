import Mathlib.Data.List.Destutter
import Mathlib.Data.List.Sort
import Noxara.FinanceStatements
import Noxara.TransactionRely
import Noxara.WorkflowEngine

/-! The definitions of workflows with their versions beside the instances, and what saving,
publishing and starting share: request context, permission checks, statements. The draft of a
definition is its version 0. -/
namespace Noxara.Workflows

open Transaction
open Finance (Uuid Timestamp AppError PublicId IdKind Formats validation uniqueViolation parseIdOfKind)

inductive DefinitionStatus
  | draft | published | archived
  deriving DecidableEq

structure DefinitionRow where
  publicId : String
  name : String
  description : String
  status : DefinitionStatus
  createdBy : Uuid
  currentPublishedVersion : Option Int := none
  createdAt : Timestamp
  updatedAt : Timestamp
  deriving DecidableEq

structure VersionRow where
  publicId : String
  definitionId : Uuid
  version : Int
  graph : WorkflowGraph
  requiredPermissions : List String
  publishedAt : Option Timestamp := none
  publishedBy : Option Uuid := none
  deriving DecidableEq

structure WorkflowVersionDto where
  id : String
  definitionId : String
  version : Int
  graph : WorkflowGraph
  requiredPermissions : List String
  publishedAt : Option Timestamp
  publishedBy : Option String
  createdAt : Timestamp
  deriving DecidableEq

structure WorkflowInstanceDto where
  id : String
  definitionId : String
  versionId : String
  versionNumber : Int
  status : InstanceStatus
  actorUserId : String
  temporalWorkflowId : String
  stepCount : Int
  currentNodeId : Option String
  errorMessage : Option String := none
  waitingUntil : Option Timestamp := none
  slaDeadline : Option Timestamp
  startedAt : Timestamp
  updatedAt : Timestamp
  completedAt : Option Timestamp := none
  deriving DecidableEq

structure WorkflowDefinitionDto where
  id : String
  name : String
  description : String
  status : DefinitionStatus
  createdBy : String
  currentPublishedVersion : Option Int
  createdAt : Timestamp
  updatedAt : Timestamp
  graph : Option WorkflowGraph
  latestVersionId : Option String
  deriving DecidableEq

/-- The bodies that the idempotency table keeps. -/
inductive StoredBody
  | version (dto : WorkflowVersionDto)
  | instance (dto : WorkflowInstanceDto)
  deriving DecidableEq

structure Store extends Db where
  definitions : Table Uuid DefinitionRow
  versions : Table Uuid VersionRow
  idempotency : Table (String × String) (Int × StoredBody)

/-- A row, or the place of a row in a unique index. -/
inductive StoreKey
  | runtime (k : RowKey)
  | definition (id : Uuid)
  | version (id : Uuid)
  | versionNumber (definitionId : Uuid) (version : Int)
  | idempotency (scope key : String)
  deriving DecidableEq

/-- How a transaction ends without a commit: its request fails, or goes on without it. -/
inductive Exit
  | failed (e : Failure)
  | dropped
  deriving DecidableEq

/-- What a committed transaction tells its handler. -/
inductive Answer
  | definition (dto : WorkflowDefinitionDto)
  | version (dto : WorkflowVersionDto)
  | instance (dto : WorkflowInstanceDto)
  | stepped

abbrev StoreTx := Prog Store StoreKey Exit

/-- What a handler takes from outside its body and its tables: `loadPrincipal` reads the membership
tables and `fresh` are the UUIDs the request draws. -/
structure RequestCtx where
  orgId : Uuid
  actor : Uuid
  isAi : Bool := false
  loadPrincipal : Uuid → Except AppError Principal
  idempotencyKey : Option String
  now : Timestamp
  fresh : Nat → Uuid

def enforce (principal : Principal) (permission : String) : Except AppError Unit :=
  if principal.allows permission then .ok () else .error ⟨.forbidden, s!"missing permission {permission}"⟩

def RequestCtx.requireIdempotency (ctx : RequestCtx) : Except AppError String :=
  match ctx.idempotencyKey with
  | some key => .ok key
  | none => .error (validation "Idempotency-Key header is required")

def WorkflowNode.asActionKey : WorkflowNode → Option String
  | .action _ key _ _ => some key
  | .human _ .approval _ _ _ => some "start_approval"
  | _ => none

def sortDedup (keys : List String) : List String :=
  (keys.insertionSort (· ≤ ·)).destutter (· ≠ ·)

def WorkflowGraph.actionKeys (g : WorkflowGraph) : List String :=
  sortDedup (g.nodes.filterMap WorkflowNode.asActionKey)

def requiredPermissionsForGraph (g : WorkflowGraph) : Except String (List String) :=
  (g.actionKeys.mapM fun key =>
    match actionEntry key with
    | some entry => Except.ok entry.requiredPermission
    | none => .error s!"unknown action '{key}'").map sortDedup

def enforceCreatorCanOwnGraph (principal : Principal) (g : WorkflowGraph) : Except AppError (List String) :=
  match requiredPermissionsForGraph g with
  | .error e => .error (validation e)
  | .ok required =>
    match required.find? fun perm => !principal.allows perm with
    | some perm => .error ⟨.forbidden,
        s!"workflow creator lacks permission '{perm}' required by an action in this definition (deny by default)"⟩
    | none => .ok required

def WorkflowGraph.checked (g : WorkflowGraph) : Except AppError Unit := g.validate.mapError validation

/-- A check outside the store. -/
@[irreducible] def liftExcept {α : Type} (x : Except AppError α) : StoreTx α :=
  Prog.ofExcept (x.mapError fun e => .failed (.error e))

section
variable {α β : Type}

theorem liftExcept_ok_bind (a : α) (f : α → StoreTx β) : (liftExcept (.ok a) >>= f) = f a := by
  unfold liftExcept
  rfl

theorem liftExcept_error_bind (e : AppError) (f : α → StoreTx β) :
    (liftExcept (.error e) >>= f) = .fail (.failed (.error e)) := by
  unfold liftExcept
  rfl

theorem writes_liftExcept_bind {W : (Store → Store) → Prop} {x : Except AppError α}
    {f : α → StoreTx β} (h : ∀ a, x = .ok a → (f a).Writes W) : (liftExcept x >>= f).Writes W := by
  cases x with
  | error e =>
    rw [liftExcept_error_bind]
    trivial
  | ok a =>
    rw [liftExcept_ok_bind]
    exact h a rfl

theorem safe_liftExcept_bind {T : Terms Store StoreKey}
    {Q : Trail Store StoreKey → β → Store → Prop} {y : Except AppError α} {f : α → StoreTx β}
    {x : Trail Store StoreKey} {s : Store} (h : ∀ a, y = .ok a → (f a).Safe T Q x s) :
    (liftExcept y >>= f).Safe T Q x s := by
  cases y with
  | error e =>
    rw [liftExcept_error_bind]
    trivial
  | ok a =>
    rw [liftExcept_ok_bind]
    exact h a rfl

theorem liftExcept_bind_ne_pure {x : Except AppError α} {f : α → StoreTx β} {b : β}
    (h : ∀ a, f a ≠ .pure b) : (liftExcept x >>= f) ≠ .pure b := by
  cases x with
  | error e =>
    rw [liftExcept_error_bind]
    exact nofun
  | ok a =>
    rw [liftExcept_ok_bind]
    exact h a

end

def failWith {α : Type} (e : AppError) : StoreTx α := .fail (.failed (.error e))

section
variable [Formats]

def parsePublicId (kind : IdKind) (raw : String) : Except AppError Uuid :=
  parseIdOfKind s!"invalid id: {raw}" s!"id {raw} is not a {kind.idPrefix} id" kind raw

def userPublic (id : Uuid) : String := (PublicId.mk .user id).asStr

end

namespace Idempotency

def answers : AnswerTable Store StoreKey (Int × StoredBody) where
  rows := Store.idempotency
  keep s t := { s with idempotency := t }
  lock := .idempotency

def get (scope key : String) : StoreTx (Option (Int × StoredBody)) := answers.get scope key

def put (scope key : String) (status : Int) (body : StoredBody) : StoreTx Unit :=
  answers.put scope key (status, body)

end Idempotency

def versionAt (s : Store) (definitionId : Uuid) (version : Int) : Option (Uuid × VersionRow) :=
  s.versions.rows.find? fun v => v.2.definitionId = definitionId ∧ v.2.version = version

def insertDefinition (id : Uuid) (row : DefinitionRow) : StoreTx Unit :=
  Prog.execute (fun _ => [.definition id])
    (fun s =>
      if (s.definitions.find? id).isSome then
        .error (.failed (.error (uniqueViolation "workflow_definition_pkey")))
      else .ok ())
    fun _ s => { s with definitions := s.definitions.insert id row }

def versionFree (id : Uuid) (row : VersionRow) (s : Store) : Except Exit Unit :=
  if (s.versions.find? id).isSome then
    .error (.failed (.error (uniqueViolation "workflow_definition_version_pkey")))
  else if (versionAt s row.definitionId row.version).isSome then
    .error (.failed (.error
      (uniqueViolation "workflow_definition_version_org_id_definition_id_version_key")))
  else .ok ()

def insertVersion (id : Uuid) (row : VersionRow) : StoreTx Unit :=
  Prog.execute (fun _ => [.version id, .versionNumber row.definitionId row.version])
    (versionFree id row) fun _ s => { s with versions := s.versions.insert id row }

def updateDefinitionRow (id : Uuid) (change : DefinitionRow → DefinitionRow) : StoreTx Unit :=
  Prog.execute (fun _ => [.definition id]) (fun _ => .ok ())
    fun _ s => { s with definitions := s.definitions.modify id change }

/-- `SELECT .. FROM workflow_definition .. FOR UPDATE`. -/
def definitionForUpdate (id : Uuid) : StoreTx (Option DefinitionRow) :=
  Prog.queryForUpdate (fun _ => [.definition id]) fun s => s.definitions.find? id

def insertEvent (event : EventEnvelope) : StoreTx Unit :=
  Prog.execute (fun _ => []) (fun _ => .ok ()) fun _ s => { s with outbox := s.outbox ++ [event] }

def insertInstance (id : Uuid) (row : InstanceRow) : StoreTx Unit :=
  Prog.execute (fun _ => [.runtime (.instance id)])
    (fun s =>
      if (s.instances.find? id).isSome then
        .error (.failed (.error (uniqueViolation "workflow_instance_pkey")))
      else .ok ())
    fun _ s => { s with instances := s.instances.insert id row }

def intJson (n : Int) : Json := .number (if n < 0 then .negInt n else .posInt n.toNat)

end Noxara.Workflows
