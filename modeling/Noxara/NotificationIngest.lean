import Noxara.PrincipalLoading
import Noxara.TransactionJobs

/-! Notifications. An event that is ingested becomes a notification for every member who may see what it is about:
the event is marked as processed in one transaction, and the item of each member is written in another. -/
namespace Noxara.Notifications

open Transaction
open Finance (Uuid Timestamp AppError)
open Authz (PermissionId Principal NaiveTime TimeFormats isAllowed)
open Workspace (rolePermissionsOf unauthorized loadMembershipScope activeMembership)

inductive EventContext
  | workspace | sales | finance | operations | people | ai | admin | core | auth | inventory | workflow | analytics
  | custom
  deriving DecidableEq

def EventContext.asStr : EventContext → String
  | workspace => "workspace"
  | sales => "sales"
  | finance => "finance"
  | operations => "operations"
  | people => "people"
  | ai => "ai"
  | admin => "admin"
  | core => "core"
  | auth => "auth"
  | inventory => "inventory"
  | workflow => "workflow"
  | analytics => "analytics"
  | custom => "custom"

/-- `onBehalfOf` is the person who caused the event. -/
structure EventEnvelope where
  idempotencyKey : String
  context : EventContext
  aggregate : String
  eventType : String
  onBehalfOf : Uuid
  payload : Json

/-- Map event context and aggregate to the permission a recipient must hold. -/
def requiredPermissionForEvent (envelope : EventEnvelope) : Option PermissionId :=
  match envelope.context, envelope.aggregate with
  | .sales, "customer" => some "sales.customer.read"
  | .sales, "deal" => some "sales.deal.read"
  | .sales, "lead" => some "sales.lead.read"
  | .sales, "quote" => some "sales.quote.read"
  | .finance, "invoice" => some "finance.invoice.read"
  | .finance, "expense" => some "finance.expense.read"
  | .finance, "journal" => some "finance.ledger.read"
  | .finance, "period" => some "finance.period.read"
  | .finance, "statement" | .finance, "reconciliation" => some "finance.bank.read"
  | .finance, "reimbursement" => some "finance.expense.read"
  | .operations, "task" => some "operations.task.read"
  | .operations, "project" => some "operations.project.read"
  | .operations, "approval" => some "operations.approval.read"
  | .people, "employee" => some "hr.employee.read"
  | .people, "leave" => some "hr.leave.read"
  | .people, "attendance" => some "hr.attendance.read"
  | .people, "holiday" => some "hr.attendance.read"
  | .people, "payroll_run" => some "hr.payroll.read"
  | .people, "payslip" => some "hr.payroll.read"
  | .inventory, "stock" => some "inventory.stock.read"
  | .inventory, "purchase_order" => some "inventory.purchase_order.read"
  | .inventory, "goods_receipt" => some "inventory.goods_receipt.read"
  | .inventory, "purchase_request" => some "inventory.purchase_request.read"
  | .inventory, "asset" => some "inventory.asset.read"
  | .inventory, "item" => some "inventory.item.read"
  | .inventory, "supplier" => some "inventory.supplier.read"
  | _, _ => none

structure Rendered where
  title : String
  body : String
  href : Option String
  resourceType : Option String
  resourceId : Option String
  deriving DecidableEq

/-- Build in-app title and body from an envelope, and what it refers to. -/
def render (envelope : EventEnvelope) : Rendered :=
  let title := s!"{envelope.context.asStr}.{envelope.aggregate} {envelope.eventType}"
  { title := title
    body := ((envelope.payload.get "summary").bind Json.asStr).getD title
    href := (envelope.payload.get "href").bind Json.asStr
    resourceType := some envelope.aggregate
    resourceId := ((envelope.payload.get s!"{envelope.aggregate}_id").or (envelope.payload.get "id")).bind Json.asStr }

structure PreferenceRow where
  enabled : Bool
  quietHoursStart : Option NaiveTime
  quietHoursEnd : Option NaiveTime

structure ItemRow where
  id : Uuid
  userId : Uuid
  content : Rendered
  deriving DecidableEq

structure DeliveryRow where
  id : Uuid
  itemId : Uuid
  channel : String
  status : String
  deriving DecidableEq

/-- Preferences are kept by user and channel, processed events by their key. -/
structure Db where
  workspace : Workspace.Store
  preferences : Table (Uuid × String) PreferenceRow
  processed : Table String Timestamp
  items : List ItemRow
  deliveries : List DeliveryRow

inductive RowKey
  | processed (idempotencyKey : String)
  | item (id : Uuid)
  | delivery (id : Uuid)
  deriving DecidableEq

abbrev Tx := Prog Db RowKey AppError

def refused (message : String) : AppError := ⟨.internal, message⟩

/-- One delivery of the event to the service, with the UUIDs that it draws for each member and its clock. -/
structure Delivery where
  now : Timestamp
  itemId : Uuid → Uuid
  inAppId : Uuid → Uuid
  emailId : Uuid → Uuid
  clock : Uuid → NaiveTime

inductive Marked
  | duplicate
  | unmapped
  | members (required : PermissionId) (users : List Uuid)

def Db.candidates (db : Db) : List Uuid :=
  (db.workspace.memberships.rows.filter fun r => r.2.revokedAt = none ∧ r.2.status = .active).map Prod.fst

def insertProcessed (key : String) (now : Timestamp) : Tx Unit :=
  Prog.execute (fun _ => [.processed key])
    (fun v => if (v.processed.find? key).isSome then
      .error (refused "duplicate key value violates unique constraint \"notification_processed_pkey\"") else .ok ())
    fun _ db => { db with processed := db.processed.insert key now }

/-- The candidates are read in the transaction that marks the event. -/
def readMembers (envelope : EventEnvelope) : Tx Marked :=
  match requiredPermissionForEvent envelope with
  | none => pure .unmapped
  | some required => do
    let users ← Prog.query (·.candidates)
    pure (.members required users)

/-- Idempotency: skip if already processed. -/
def markProcessed (d : Delivery) (envelope : EventEnvelope) : Tx Marked := do
  let existing ← Prog.query (·.processed.find? envelope.idempotencyKey)
  if existing.isSome then pure .duplicate
  else do
    insertProcessed envelope.idempotencyKey d.now
    readMembers envelope

def loadPrincipal (userId : Uuid) : Tx Principal := do
  let mem ← Prog.query (·.workspace.liveMembership userId)
  let m ← Prog.okOr mem (unauthorized "membership not found")
  Prog.require (m.status = .active) (unauthorized "membership not active")
  let rows ← Prog.query fun db => rolePermissionsOf db.workspace m.roleId
  pure ⟨[m.role], rows.map fun r => ⟨r.effect, r.permissionId, r.scope, []⟩⟩

def NaiveTime.lt (a b : NaiveTime) : Bool := !b.le a

def inQuietHours (now : NaiveTime) (start stop : Option NaiveTime) : Bool :=
  match start, stop with
  | some s, some e =>
    if s.le e && e.le s then false
    else if NaiveTime.lt s e then s.le now && NaiveTime.lt now e
    -- Wraps midnight.
    else s.le now || NaiveTime.lt now e
  | _, _ => false

def Db.principal (db : Db) (userId : Uuid) : Except AppError Principal :=
  (loadMembershipScope db.workspace userId).map (·.principal)

def Db.enabled (db : Db) (userId : Uuid) (channel : String) : Bool :=
  ((db.preferences.find? (userId, channel)).map (·.enabled)).getD true

def Db.emailStatus (db : Db) (userId : Uuid) (now : NaiveTime) : String :=
  match db.preferences.find? (userId, "email") with
  | none => "sent"
  | some p => if inQuietHours now p.quietHoursStart p.quietHoursEnd then "deferred_digest" else "sent"

def insertItem (item : ItemRow) : Tx Unit :=
  Prog.execute (fun _ => [.item item.id]) (fun _ => .ok ()) fun _ db => { db with items := db.items ++ [item] }

def insertDelivery (row : DeliveryRow) : Tx Unit :=
  Prog.execute (fun _ => [.delivery row.id]) (fun _ => .ok ()) fun _ db => { db with
    deliveries := db.deliveries ++ [row] }

def ifEnabled (enabled : Bool) (body : Tx Unit) : Tx Unit := if enabled then body else pure ()

/-- Whether the member has been notified. -/
def deliverToUser (d : Delivery) (content : Rendered) (userId : Uuid) : Tx Bool := do
  let inApp ← Prog.query (·.enabled userId "in_app")
  let email ← Prog.query (·.enabled userId "email")
  let status ← Prog.query (·.emailStatus userId (d.clock userId))
  if ¬inApp ∧ ¬email then pure false
  else do
    insertItem ⟨d.itemId userId, userId, content⟩
    ifEnabled inApp (insertDelivery ⟨d.inAppId userId, d.itemId userId, "in_app", "delivered"⟩)
    ifEnabled email (insertDelivery ⟨d.emailId userId, d.itemId userId, "email", status⟩)
    pure true

structure IngestResponse where
  accepted : Bool
  duplicate : Bool
  notified : Nat
  skipped : Nat
  deriving DecidableEq

abbrev IngestJob := Job Db RowKey AppError IngestResponse

section
variable [TimeFormats]

/-- An error of one member is only logged, and the member counts as skipped. -/
def notifyMembers (d : Delivery) (envelope : EventEnvelope) (required : PermissionId) :
    List Uuid → Nat → Nat → IngestJob
  | [], notified, skipped => .pure ⟨true, false, notified, skipped⟩
  | userId :: users, notified, skipped =>
    -- Skip the actor who caused the event.
    if userId = envelope.onBehalfOf then notifyMembers d envelope required users notified (skipped + 1)
    else
      Job.transaction refused (fun (loaded : Except AppError Principal) =>
        match loaded with
        | .error _ => notifyMembers d envelope required users notified (skipped + 1)
        | .ok principal =>
          if ¬isAllowed principal required then notifyMembers d envelope required users notified (skipped + 1)
          else
            Job.transaction refused (fun (delivered : Except AppError Bool) =>
              match delivered with
              | .ok true => notifyMembers d envelope required users (notified + 1) skipped
              | .ok false => notifyMembers d envelope required users notified (skipped + 1)
              | .error _ => notifyMembers d envelope required users notified (skipped + 1))
              (deliverToUser d (render envelope) userId))
        (loadPrincipal userId)

def ingest (d : Delivery) (envelope : EventEnvelope) : IngestJob :=
  Job.transaction refused (fun (marked : Except AppError Marked) =>
    match marked with
    | .error e => .fail e
    | .ok .duplicate => .pure ⟨true, true, 0, 0⟩
    | .ok .unmapped => .pure ⟨true, false, 0, 0⟩
    | .ok (.members required users) => notifyMembers d envelope required users 0 0)
    (markProcessed d envelope)

def Db.mayReceive (db : Db) (userId : Uuid) (required : PermissionId) : Bool :=
  match db.principal userId with
  | .ok p => isAllowed p required
  | .error _ => false

/-- An active member other than the one who caused the event, who holds the permission, and has a channel on. -/
def Db.Receives (db : Db) (envelope : EventEnvelope) (userId : Uuid) : Prop :=
  userId ∈ db.candidates ∧ userId ≠ envelope.onBehalfOf ∧
    (requiredPermissionForEvent envelope).any (db.mayReceive userId) = true ∧
    (db.enabled userId "in_app" = true ∨ db.enabled userId "email" = true)

instance (db : Db) (envelope : EventEnvelope) (userId : Uuid) : Decidable (db.Receives envelope userId) := by
  unfold Db.Receives
  infer_instance

end

/-- The service loads the principal of a member, and changes nothing. -/
theorem loadPrincipal_run (userId : Uuid) (db : Db) :
    (loadPrincipal userId).run db = (db.principal userId).map fun p => (p, db) := by
  simp only [loadPrincipal, Prog.run_query_bind, Db.principal, loadMembershipScope, activeMembership]
  cases hm : db.workspace.liveMembership userId with
  | none => rfl
  | some m =>
    change (Prog.require (m.status = .active) (unauthorized "membership not active") >>= fun _ => _).run db = _
    by_cases hactive : m.status = .active
    · rw [Prog.require, if_pos hactive]
      simp only [hactive, ne_eq, not_true_eq_false, if_false]
      rfl
    · rw [Prog.require, if_neg hactive]
      simp only [hactive, ne_eq, not_false_eq_true, if_true]
      rfl

theorem principal_congr {s t : Db} (h : s.workspace = t.workspace) (userId : Uuid) :
    s.principal userId = t.principal userId := by
  simp only [Db.principal, h]

end Noxara.Notifications
