import Noxara.FinanceSchema
import Noxara.JsonValues

/-! Workflow graphs: configuration, not free-form code. The catalogues say which triggers and
actions a graph may name, and which permission an action needs. An activity is an action of a step as
one call of the service that owns it, on behalf of the recorded user. -/
namespace Noxara.Workflows

open Finance (AppError Uuid PublicId Formats)

inductive WorkflowTrigger
  | domainEvent (eventKey : String)
  | manual
  deriving DecidableEq

structure BranchArm where
  path : String
  equals : Json
  next : String
  deriving DecidableEq

inductive HumanStepKind
  | approval | inbox
  deriving DecidableEq

inductive WorkflowNode
  | action (id action : String) (params : Json) (next : Option String)
  | condition (id path : String) (equals : Json) (thenNext elseNext : String)
  | branch (id : String) (arms : List BranchArm) (defaultNext : String)
  | timer (id : String) (durationSecs : Nat) (next : String)
  | human (id : String) (kind : HumanStepKind) (params : Json) (onApprove onReject : String)
  | endNode (id : String)
  deriving DecidableEq

def WorkflowNode.id : WorkflowNode → String
  | action id _ _ _ => id
  | condition id _ _ _ _ => id
  | branch id _ _ => id
  | timer id _ _ => id
  | human id _ _ _ _ => id
  | endNode id => id

structure WorkflowGraph where
  entry : String
  trigger : WorkflowTrigger
  nodes : List WorkflowNode
  slaSeconds : Option Nat := none
  deriving DecidableEq

structure ActionCatalogueEntry where
  key : String
  requiredPermission : String

def TRIGGER_CATALOGUE : List String :=
  ["sales.deal.won", "people.leave.requested", "people.leave.approved", "inventory.stock.low",
    "inventory.purchase_request.approved", "finance.invoice.issued"]

def ACTION_CATALOGUE : List ActionCatalogueEntry :=
  [⟨"create_task", "operations.task.create"⟩,
    ⟨"send_notification", "platform.notification.read"⟩,
    ⟨"start_approval", "operations.approval.read"⟩,
    ⟨"update_deal_status", "sales.deal.update"⟩,
    ⟨"create_purchase_request", "inventory.purchase_request.write"⟩,
    ⟨"post_journal", "finance.journal.post"⟩,
    ⟨"read_payroll", "hr.payroll.read"⟩]

def isKnownTrigger (eventKey : String) : Bool := TRIGGER_CATALOGUE.any (· = eventKey)

def isKnownAction (key : String) : Bool := ACTION_CATALOGUE.any (·.key = key)

def actionEntry (key : String) : Option ActionCatalogueEntry := ACTION_CATALOGUE.find? (·.key = key)

def requiredPermissionForAction (key : String) : Option String :=
  (actionEntry key).map (·.requiredPermission)

/-- Which permissions the policy decision grants a user in the whole organisation. -/
structure Principal where
  allows : String → Bool

def enforceActionPermission (principal : Principal) (actionKey : String) : Except AppError String :=
  match requiredPermissionForAction actionKey with
  | none => .error ⟨.forbidden, s!"unknown action '{actionKey}' — deny by default"⟩
  | some pid =>
    if principal.allows pid then .ok pid
    else .error ⟨.forbidden, s!"permission '{pid}' denied for action '{actionKey}' at run time"⟩

namespace WorkflowGraph

def node (g : WorkflowGraph) (id : String) : Option WorkflowNode := g.nodes.find? (·.id = id)

theorem node_id {g : WorkflowGraph} {id : String} {n : WorkflowNode} (h : g.node id = some n) :
    n.id = id := by
  simpa using List.find?_some h

/-- The first id that an earlier node has. -/
def duplicateId (seen : List String) : List WorkflowNode → Option String
  | [] => none
  | n :: ns => if n.id ∈ seen then some n.id else duplicateId (n.id :: seen) ns

def unknownTrigger (g : WorkflowGraph) : Option String :=
  match g.trigger with
  | .domainEvent eventKey => if isKnownTrigger eventKey then none else some eventKey
  | .manual => none

def unknownAction (g : WorkflowGraph) : Option String :=
  g.nodes.findSome? fun
    | .action _ action _ _ => if isKnownAction action then none else some action
    | _ => none

def validate (g : WorkflowGraph) : Except String Unit :=
  if (Finance.trim g.entry).isEmpty then .error "entry node id is required"
  else if g.node g.entry = none then .error s!"entry node '{g.entry}' not found in nodes"
  else
    match duplicateId [] g.nodes with
    | some id => .error s!"duplicate node id '{id}'"
    | none =>
      match g.unknownTrigger with
      | some eventKey => .error s!"unknown trigger event_key '{eventKey}'"
      | none =>
        match g.unknownAction with
        | some action => .error s!"unknown action '{action}'"
        | none => .ok ()

end WorkflowGraph

/-- The text that `serde_json` writes for a value. -/
class JsonText where
  display : Json → String

section
variable [JsonText]

def renderText (payload : Json) (s : String) : String :=
  match payload with
  | .object ms =>
    ms.foldl (fun out m =>
      out.replace ("\x7b\x7bpayload." ++ m.1 ++ "\x7d\x7d") (m.2.asStr.getD (JsonText.display m.2))) s
  | _ => s

mutual

/-- Every text in the value with the members of the payload filled in. -/
def renderValue (payload : Json) : Json → Json
  | .string s => .string (renderText payload s)
  | .object ms => .object (renderMembers payload ms)
  | .array items => .array (renderItems payload items)
  | other => other

def renderItems (payload : Json) : List Json → List Json
  | [] => []
  | v :: vs => renderValue payload v :: renderItems payload vs

def renderMembers (payload : Json) : List (String × Json) → List (String × Json)
  | [] => []
  | (k, v) :: ms => (k, renderValue payload v) :: renderMembers payload ms

end

def renderParams (params payload : Json) : Json := renderValue payload params

end

inductive HttpMethod
  | get | post | patch

structure HttpRequest where
  method : HttpMethod
  url : String
  orgId : String
  userId : String
  body : Option Json

/-- What is outside the engine: the environment of its process, and the services, which answer a
request with a status and a text or not at all. -/
structure Services where
  env : String → Option String
  send : HttpRequest → Option (Nat × String)

/-- The organisation and the user an activity runs for. -/
structure ActivityCtx where
  orgId : Uuid
  onBehalfOf : Uuid

section
variable [Formats]

def ActivityCtx.orgPublic (ctx : ActivityCtx) : String := (PublicId.mk .org ctx.orgId).asStr

def ActivityCtx.actorPublic (ctx : ActivityCtx) : String := (PublicId.mk .user ctx.onBehalfOf).asStr

def trimEndSlashes (s : String) : String :=
  String.ofList (s.toList.reverse.dropWhile (· = '/')).reverse

def httpJson (services : Services) (ctx : ActivityCtx) (method : HttpMethod) (base path : String)
    (body : Option Json) : Except String Nat :=
  match services.send ⟨method, trimEndSlashes base ++ path, ctx.orgPublic, ctx.actorPublic, body⟩ with
  | none => .error "activity http"
  | some (status, text) => if 400 ≤ status then .error s!"activity HTTP {status}: {text}" else .ok status

variable [JsonText]

def activitiesNoop (services : Services) : Bool :=
  services.env "WORKFLOW_ACTIVITIES_NOOP" ∈ [some "1", some "true", some "TRUE"]

def executeAction (services : Services) (ctx : ActivityCtx) (action : String) (params payload : Json) :
    Except String Unit :=
  if activitiesNoop services then .ok ()
  else
    let rendered := renderParams params payload
    let textOr := fun k default => ((rendered.get k).bind Json.asStr).getD default
    let serviceUrl := fun key default => (services.env key).getD default
    match action with
    | "create_task" => do
      let _ ← httpJson services ctx .post (serviceUrl "PROJECT_SERVICE_URL" "http://127.0.0.1:8084")
        "/api/v1/operations/tasks" (some (.ofFields
          [("title", .string (textOr "title" "Workflow task")),
            ("description", .string (textOr "description" "")), ("status", .string "todo")]))
    | "send_notification" =>
      -- the answer of the notification service is not looked at
      let _ := httpJson services ctx .post (serviceUrl "NOTIFICATION_SERVICE_URL" "http://127.0.0.1:8085")
        "/api/v1/notifications/internal/ingest" (some (.ofFields
          [("title", .string (textOr "title" "Workflow notification")),
            ("body", .string (textOr "body" "")), ("org_id", .string ctx.orgPublic),
            ("user_id", .string ctx.actorPublic), ("kind", .string "workflow")]))
      .ok ()
    | "start_approval" => do
      let _ ← httpJson services ctx .post (serviceUrl "PROJECT_SERVICE_URL" "http://127.0.0.1:8084")
        "/api/v1/operations/approvals" (some (.ofFields
          [("subject_type", .string (textOr "subject_type" "workflow")),
            ("subject_id", (rendered.get "subject_id").getD ((payload.get "id").getD .null)),
            ("title", .string (textOr "title" "Workflow approval"))]))
    | "update_deal_status" =>
      match ((rendered.get "deal_id").or (payload.get "deal_id")).bind Json.asStr with
      | none => .error "deal_id required"
      | some dealId => do
        let _ ← httpJson services ctx .patch (serviceUrl "CRM_SERVICE_URL" "http://127.0.0.1:8082")
          s!"/api/v1/sales/deals/{dealId}"
          (some (.ofFields [("status", .string (textOr "status" "won"))]))
    | "create_purchase_request" => do
      let _ ← httpJson services ctx .post (serviceUrl "INVENTORY_SERVICE_URL" "http://127.0.0.1:8093")
        "/api/v1/inventory/purchase-requests" (some (.ofFields
          [("notes", .string (textOr "notes" "Workflow draft PR")),
            ("lines", (rendered.get "lines").getD (.array []))]))
    | "post_journal" => do
      let _ ← httpJson services ctx .post (serviceUrl "FINANCE_SERVICE_URL" "http://127.0.0.1:8083")
        "/api/v1/finance/journals" (some rendered)
    | "read_payroll" => do
      let _ ← httpJson services ctx .get (serviceUrl "HR_SERVICE_URL" "http://127.0.0.1:8088")
        "/api/v1/people/payroll/runs" none
    | other => .error s!"unknown action '{other}'"

end

end Noxara.Workflows
