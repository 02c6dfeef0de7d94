import Mathlib.Data.List.Sort
import Noxara.TransactionCover
import Noxara.FinanceSchema
import Noxara.JsonValues

/-! The outbox and its relay. An event is inserted with the change it tells of; relays claim unpublished
rows and publish them, or move them to the dead-letter queue, from where they are replayed. -/
namespace Noxara.Outbox

open Transaction
open Finance (Uuid Timestamp)

structure EventEnvelope where
  eventId : Uuid
  subject : String
  orgId : Uuid
  occurredAt : Timestamp
  payload : Json
  idempotencyKey : String
  deriving DecidableEq

/-- The payload column holds the whole envelope. -/
structure OutboxEvent where
  orgId : Uuid
  subject : String
  payload : EventEnvelope
  idempotencyKey : String
  createdAt : Timestamp
  publishedAt : Option Timestamp

structure DlqRow where
  outboxId : Uuid
  orgId : Uuid
  subject : String
  payload : EventEnvelope
  idempotencyKey : String
  error : String
  attempts : Int
  createdAt : Timestamp
  replayedAt : Option Timestamp

/-- `deliveries` are what the publisher accepted from relays that went on to commit; what it accepted from
others is left out. -/
structure Store where
  events : Table Uuid OutboxEvent
  dlq : Table Uuid DlqRow
  deliveries : List (String × EventEnvelope)

def Store.empty : Store := ⟨.empty, .empty, []⟩

inductive Lock
  | event (id : Uuid)
  | dlq (id : Uuid)
  deriving DecidableEq

inductive OutboxError
  | db (message : String)
  | relay (message : String)
  deriving DecidableEq

abbrev Tx (α : Type) := Prog Store Lock OutboxError α

def Store.setEvents (s : Store) (f : Table Uuid OutboxEvent → Table Uuid OutboxEvent) : Store :=
  { s with events := f s.events }

def Store.setDlq (s : Store) (f : Table Uuid DlqRow → Table Uuid DlqRow) : Store :=
  { s with dlq := f s.dlq }

/-- `INSERT` of an unpublished row, refused where the id is taken. -/
def insertOutboxRow (id : Uuid) (row : OutboxEvent) : Tx Unit :=
  .execute (fun _ => [.event id])
    (fun v => if id ∈ v.events.keys then
        .error (.db "duplicate key value violates unique constraint \"outbox_event_pkey\"")
      else .ok ())
    fun _ s => s.setEvents (·.insert id row)

def insertEvent (envelope : EventEnvelope) : Tx Uuid := do
  insertOutboxRow envelope.eventId ⟨envelope.orgId, envelope.subject, envelope, envelope.idempotencyKey,
    envelope.occurredAt, none⟩
  return envelope.eventId

/-- A relay at work: the clock, the rows it skips because others hold them, what the publisher answers for
a row at each attempt, and the id made up for a row that is moved to the dead-letter queue. -/
structure RelayCtx where
  now : Timestamp
  skipped : List Uuid
  publish : Uuid → Nat → Except String Unit
  dlqId : Uuid → Uuid

/-- Unpublished rows that no other holds, the oldest first. -/
def claimable (skipped : List Uuid) (limit : Nat) (s : Store) : List (Uuid × OutboxEvent) :=
  ((s.events.rows.filter fun r => r.2.publishedAt = none ∧ r.1 ∉ skipped).insertionSort fun a b =>
    a.2.createdAt ≤ b.2.createdAt).take limit

/-- `FOR UPDATE SKIP LOCKED`. -/
def claimUnpublished (ctx : RelayCtx) (limit : Int) : Tx (List (Uuid × OutboxEvent)) := do
  .require (0 ≤ limit) (.db "LIMIT must not be negative")
  .queryForUpdate (fun v => (claimable ctx.skipped limit.toNat v).map fun r => .event r.1)
    (claimable ctx.skipped limit.toNat)

def markPublished (now : Timestamp) (id : Uuid) (s : Store) : Store :=
  s.setEvents (·.modify id fun r => { r with publishedAt := some now })

def markPublishedTx (now : Timestamp) (id : Uuid) : Tx Unit :=
  .execute (fun _ => [.event id]) (fun _ => .ok ()) fun _ => markPublished now id

def moveToDlq (ctx : RelayCtx) (id : Uuid) (event : OutboxEvent) (error : String) : Tx Unit := do
  .execute (fun _ => [.dlq (ctx.dlqId id)]) (fun _ => .ok ()) fun _ s =>
    -- on conflict do nothing
    s.setDlq (·.insert (ctx.dlqId id)
      ⟨id, event.orgId, event.subject, event.payload, event.idempotencyKey, error, 1, ctx.now, none⟩)
  -- marked published so that it does not loop forever
  markPublishedTx ctx.now id

/-- The attempts on one event: `ok` from the first that the publisher accepts, or its last error; nothing
where there is no attempt. -/
def attempts (answer : Nat → Except String Unit) : Nat → Option (Except String Unit)
  | 0 => none
  | n + 1 =>
    match attempts answer n with
    | some (.ok ()) => some (.ok ())
    | _ => some (answer (n + 1))

/-- Publish one claimed event; does the batch count it? -/
def publishEvent (ctx : RelayCtx) (maxAttempts : Nat) (id : Uuid) (event : OutboxEvent) : Tx Bool :=
  match attempts (ctx.publish id) maxAttempts with
  | none => return false
  | some (.ok ()) => do
    .execute (fun _ => [.event id]) (fun _ => .ok ()) fun _ s =>
      { markPublished ctx.now id s with deliveries := s.deliveries ++ [(event.subject, event.payload)] }
    return true
  | some (.error e) => do
    moveToDlq ctx id event e
    return false

def publishAll (ctx : RelayCtx) (maxAttempts : Nat) : List (Uuid × OutboxEvent) → Nat → Tx Nat
  | [], published => return published
  | r :: rs, published => do
    let counted ← publishEvent ctx maxAttempts r.1 r.2
    publishAll ctx maxAttempts rs (if counted then published + 1 else published)

/-- Publish one claimed batch; the locks are held while publishing. -/
def publishBatch (ctx : RelayCtx) (limit : Int) (maxAttempts : Nat) : Tx Nat := do
  let batch ← claimUnpublished ctx limit
  publishAll ctx maxAttempts batch 0

/-- Replay one row: insert it as unpublished again and mark it replayed. -/
def replayDlqRow (now : Timestamp) (newId dlqId : Uuid) : Tx Uuid := do
  let found ← .queryForUpdate (fun _ => [.dlq dlqId]) (·.dlq.find? dlqId)
  let row ← .okOr found (.relay s!"dlq row {dlqId} not found")
  .require (row.replayedAt = none) (.relay s!"dlq row {dlqId} already replayed")
  insertOutboxRow newId ⟨row.orgId, row.subject, row.payload, row.idempotencyKey, now, none⟩
  .execute (fun _ => [.dlq dlqId]) (fun _ => .ok ()) fun _ s =>
    s.setDlq (·.modify dlqId fun r => { r with replayedAt := some now })
  return newId

example : attempts (fun n => if n = 2 then .ok () else .error "refused") 3 = some (.ok ()) := by decide

end Noxara.Outbox
