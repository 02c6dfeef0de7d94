import Noxara.WorkflowStore

/-! Creating, editing and publishing workflow definitions. Publishing copies the draft into the
next version and goes on editing the draft. -/
namespace Noxara.Workflows

open Transaction
open Finance (Uuid PublicId Formats i32Max trim notFound validation conflict)

structure CreateWorkflowDefinitionRequest where
  name : String
  description : String
  graph : WorkflowGraph

structure UpdateWorkflowDefinitionRequest where
  name : Option String
  description : Option String
  graph : Option WorkflowGraph

variable [Formats]

def createDefinition (ctx : RequestCtx) (body : CreateWorkflowDefinitionRequest) : StoreTx Answer := do
  let principal ← liftExcept (ctx.loadPrincipal ctx.actor)
  liftExcept (enforce principal "operations.workflow.write")
  Prog.require (trim body.name ≠ "") (.failed (.error (validation "name is required")))
  liftExcept body.graph.checked
  let required ← liftExcept (enforceCreatorCanOwnGraph principal body.graph)
  let defId := ctx.fresh 0
  let defPublic := (PublicId.mk .workflowDefinition defId).asStr
  let verId := ctx.fresh 1
  let verPublic := (PublicId.mk .workflowVersion verId).asStr
  insertDefinition defId
    { publicId := defPublic, name := trim body.name, description := body.description, status := .draft
      createdBy := ctx.actor, createdAt := ctx.now, updatedAt := ctx.now }
  insertVersion verId
    { publicId := verPublic, definitionId := defId, version := 0, graph := body.graph
      requiredPermissions := required }
  return .definition
    { id := defPublic, name := trim body.name, description := body.description, status := .draft
      createdBy := userPublic ctx.actor, currentPublishedVersion := none, createdAt := ctx.now
      updatedAt := ctx.now, graph := some body.graph, latestVersionId := some verPublic }

def VersionRow.redrafted (row : VersionRow) (graph : WorkflowGraph) (required : List String) : VersionRow :=
  { row with graph, requiredPermissions := required, publishedAt := none, publishedBy := none }

def unpublishedDraft (definitionId : Uuid) : StoreTx (Option (Uuid × VersionRow)) :=
  Prog.query fun s => (versionAt s definitionId 0).filter fun v => v.2.publishedAt = none

def updateVersion (id : Uuid) (graph : WorkflowGraph) (required : List String) : StoreTx Unit :=
  Prog.execute (fun _ => [.version id]) (fun _ => .ok ())
    fun _ s =>
      { s with versions := s.versions.modify id fun r => { r with graph, requiredPermissions := required } }

/-- `INSERT .. ON CONFLICT (org_id, definition_id, version) DO UPDATE`. -/
def upsertDraft (id : Uuid) (row : VersionRow) : StoreTx Unit :=
  Prog.execute
    (fun s => match versionAt s row.definitionId row.version with
      | some (taken, _) => [.version taken, .versionNumber row.definitionId row.version]
      | none => [.version id, .versionNumber row.definitionId row.version])
    (fun s => match versionAt s row.definitionId row.version with
      | some _ => .ok ()
      | none => versionFree id row s)
    fun v s => match versionAt v row.definitionId row.version with
      | some (taken, _) =>
        { s with versions := s.versions.modify taken fun r => r.redrafted row.graph row.requiredPermissions }
      | none => { s with versions := s.versions.insert id row }

def saveDraft (ctx : RequestCtx) (defUuid : Uuid) (graph : WorkflowGraph) (required : List String) :
    StoreTx String := do
  match ← unpublishedDraft defUuid with
  | some (vid, _) =>
    updateVersion vid graph required
    return (PublicId.mk .workflowVersion vid).asStr
  | none =>
    let verId := ctx.fresh 0
    let verPublic := (PublicId.mk .workflowVersion verId).asStr
    upsertDraft verId
      { publicId := verPublic, definitionId := defUuid, version := 0, graph, requiredPermissions := required }
    return verPublic

def updateGraph (ctx : RequestCtx) (principal : Principal) (defUuid : Uuid) :
    Option WorkflowGraph → StoreTx (Option String)
  | none => pure none
  | some graph => do
    liftExcept graph.checked
    let required ← liftExcept (enforceCreatorCanOwnGraph principal graph)
    some <$> saveDraft ctx defUuid graph required

def updateDefinition (ctx : RequestCtx) (id : String) (body : UpdateWorkflowDefinitionRequest) :
    StoreTx Answer := do
  let principal ← liftExcept (ctx.loadPrincipal ctx.actor)
  liftExcept (enforce principal "operations.workflow.write")
  let defUuid ← liftExcept (parsePublicId .workflowDefinition id)
  match ← definitionForUpdate defUuid with
  | none => failWith (notFound "workflow definition")
  | some row =>
    Prog.require (row.status ≠ .archived)
      (.failed (.error (validation "cannot update archived definition")))
    let name := body.name.getD row.name
    let description := body.description.getD row.description
    let verPublic ← updateGraph ctx principal defUuid body.graph
    updateDefinitionRow defUuid fun r => { r with name, description, updatedAt := ctx.now }
    return .definition
      { id := (PublicId.mk .workflowDefinition defUuid).asStr, name, description, status := row.status
        createdBy := userPublic row.createdBy, currentPublishedVersion := row.currentPublishedVersion
        createdAt := row.createdAt, updatedAt := ctx.now, graph := body.graph
        latestVersionId := verPublic }

def publishedVersions (s : Store) (definitionId : Uuid) : List VersionRow :=
  s.versions.values.filter fun v => v.definitionId = definitionId ∧ 0 < v.version

/-- `COALESCE(MAX(version), 0)` over them. -/
def maxVersion (s : Store) (definitionId : Uuid) : Int :=
  ((publishedVersions s definitionId).map (·.version)).foldl max 0

def draftForUpdate (definitionId : Uuid) : StoreTx (Option (Uuid × VersionRow)) :=
  Prog.queryForUpdate (fun s => (versionAt s definitionId 0).toList.map fun v => .version v.1)
    fun s => versionAt s definitionId 0

def refreshDraft (definitionId : Uuid) (graph : WorkflowGraph) (required : List String) : StoreTx Unit :=
  Prog.execute (fun s => (versionAt s definitionId 0).toList.map fun v => .version v.1) (fun _ => .ok ())
    fun _ s =>
      { s with
        versions := s.versions.mapRows fun _ r =>
          if r.definitionId = definitionId ∧ r.version = 0 then r.redrafted graph required else r }

def publishDraft (ctx : RequestCtx) (defUuid : Uuid) (defPublic : String) (graph : WorkflowGraph)
    (required : List String) : StoreTx WorkflowVersionDto := do
  let maxVer ← Prog.query fun s => maxVersion s defUuid
  -- an `i32`, whose overflow panics in a build that checks it and wraps in one that does not
  Prog.require (maxVer < i32Max) (.failed .panic)
  let newVer := maxVer + 1
  let verId := ctx.fresh 0
  let verPublic := (PublicId.mk .workflowVersion verId).asStr
  insertVersion verId
    { publicId := verPublic, definitionId := defUuid, version := newVer, graph
      requiredPermissions := required, publishedAt := some ctx.now, publishedBy := some ctx.actor }
  updateDefinitionRow defUuid fun r =>
    { r with status := .published, currentPublishedVersion := some newVer, updatedAt := ctx.now }
  refreshDraft defUuid graph required
  insertEvent
    { aggregate := "definition", eventType := "published", version := 1, actor := ctx.actor
      payload := .ofFields
        [("id", .string defPublic), ("version_id", .string verPublic), ("version", intJson newVer)] }
  return {
    id := verPublic, definitionId := defPublic, version := newVer, graph, requiredPermissions := required
    publishedAt := some ctx.now, publishedBy := some (userPublic ctx.actor), createdAt := ctx.now }

def replayPublish (stored : Int × StoredBody) : StoreTx Answer :=
  if stored.1 = 200 then
    match stored.2 with
    | .version dto => pure (.version dto)
    | .instance _ => failWith ⟨.internal, "missing field \x60version\x60"⟩
  else failWith (conflict "Idempotency-Key already used with a different outcome")

def publishDefinition (ctx : RequestCtx) (id : String) : StoreTx Answer := do
  let idem ← liftExcept ctx.requireIdempotency
  let principal ← liftExcept (ctx.loadPrincipal ctx.actor)
  liftExcept (enforce principal "operations.workflow.publish")
  Prog.require (ctx.isAi = false)
    (.failed (.error ⟨.forbidden, "AI cannot publish workflow definitions; human must commit publish"⟩))
  let defUuid ← liftExcept (parsePublicId .workflowDefinition id)
  let scope := s!"workflow.publish:{id}"
  match ← Idempotency.get scope idem with
  | some stored => replayPublish stored
  | none =>
    match ← definitionForUpdate defUuid with
    | none => failWith (notFound "workflow definition")
    | some row =>
      -- the creator's permissions still bound the published graph
      let creator ← liftExcept
        (if row.createdBy = ctx.actor then .ok principal else ctx.loadPrincipal row.createdBy)
      match ← draftForUpdate defUuid with
      | none => failWith (validation "no draft graph to publish")
      | some (_, draft) =>
        liftExcept draft.graph.checked
        let required ← liftExcept (enforceCreatorCanOwnGraph creator draft.graph)
        let dto ← publishDraft ctx defUuid row.publicId draft.graph required
        Idempotency.put scope idem 200 (.version dto)
        return .version dto

end Noxara.Workflows
