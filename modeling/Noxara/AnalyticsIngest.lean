import Mathlib.Order.Bounds.Basic
import Noxara.AnalyticsQueries
import Noxara.NotificationIngest

/-! The ingest of an event into analytics: one transaction puts it into the raw log, writes its facts and moves the
freshness of its organisation, and leaves an event alone that is in the raw log already. -/
namespace Noxara.Analytics

open Transaction
open Finance (Uuid Timestamp AppError)
open Notifications (EventContext)

structure Actor where
  userId : Uuid
  isAi : Bool

structure EventEnvelope where
  eventId : Uuid
  subject : String
  orgId : Uuid
  context : EventContext
  aggregate : String
  eventType : String
  version : ℕ
  occurredAt : Timestamp
  actor : Actor
  payload : Json

def payloadText (payload : Json) (keys : List String) : Option String :=
  keys.findSome? fun key => (payload.get key).bind Json.asStr

def payloadI64 (payload : Json) (keys : List String) : Option Int :=
  keys.findSome? fun key => (payload.get key).bind Json.asI64

def supportedFact (envelope : EventEnvelope) : Option FactSource :=
  match envelope.context, envelope.aggregate, envelope.eventType with
  | .finance, "invoice", "issued" | .finance, "invoice", "voided" | .finance, "invoice", "paid" =>
    some .invoiceLifecycle
  | .finance, "payment", "allocated" | .finance, "payment", "created" => some .payment
  | .finance, "expense", "created" | .finance, "expense", "approved" | .finance, "expense", "paid" => some .expense
  | .sales, "deal", "stage_changed" | .sales, "deal", "won" | .sales, "deal", "lost" => some .dealStageChange
  | .operations, "task", "created" | .operations, "task", "completed" | .operations, "task", "updated" =>
    some .taskLifecycle
  | .operations, "timesheet", _ | .operations, "time_entry", _ => some .timeEntry
  | .ai, "usage", "recorded" => some .aiUsage
  | _, _, _ => none

/-- Consumer durable name: `{service}--{purpose}`. -/
def FactSource.consumerName : FactSource → String
  | dealStageChange => "analytics--fact-deal-stage"
  | invoiceLifecycle => "analytics--fact-invoice"
  | payment => "analytics--fact-payment"
  | expense => "analytics--fact-expense"
  | taskLifecycle => "analytics--fact-task"
  | timeEntry => "analytics--fact-time-entry"
  | aiUsage => "analytics--fact-ai-usage"
  | apiRequest => "analytics--fact-api-request"
  | invoiceIssued => "analytics--fact-invoice-issued"

def FactSource.asStr : FactSource → String
  | dealStageChange => "fact_deal_stage_change"
  | invoiceLifecycle => "fact_invoice_lifecycle"
  | payment => "fact_payment"
  | expense => "fact_expense"
  | taskLifecycle => "fact_task_lifecycle"
  | timeEntry => "fact_time_entry"
  | aiUsage => "fact_ai_usage"
  | apiRequest => "fact_api_request"
  | invoiceIssued => "fact_invoice_issued"

structure RawEvent where
  orgId : Uuid
  subject : String
  context : EventContext
  aggregate : String
  eventType : String
  version : Int
  occurredAt : Timestamp
  actorKind : String
  actorUserId : Uuid
  payload : Json
  ingestedAt : Timestamp

structure CursorRow where
  lastEventId : Uuid
  lastOccurredAt : Timestamp
  updatedAt : Timestamp

structure FreshnessRow where
  lastEventAt : Timestamp
  lastIngestAt : Timestamp
  lagSeconds : Int
  updatedAt : Timestamp

/-- Raw events and facts are kept by event, a cursor by consumer, the freshness by organisation. -/
structure Db where
  eventsRaw : Table Uuid RawEvent
  facts : FactSource → Table Uuid Row
  cursor : Table String CursorRow
  freshness : Table Uuid FreshnessRow

inductive Lock
  | event (id : Uuid)
  | fact (source : FactSource) (id : Uuid)
  | cursor (consumer : String)
  | freshness (org : Uuid)
  deriving DecidableEq

abbrev Tx := Prog Db Lock AppError

def Cell.ofText (s : Option String) : Cell := s.elim .null .text

def Cell.ofInt (n : Option Int) : Cell := n.elim .null .int

def Row.of (columns : List (String × Cell)) : Row := fun c => (columns.lookup c).getD .null

namespace EventEnvelope

/-- The identifier that the payload has under one of these keys. -/
def recordId (envelope : EventEnvelope) (keys : List String) : Cell :=
  .text ((payloadText envelope.payload keys).getD "unknown")

def text (envelope : EventEnvelope) (keys : List String) : Cell := .ofText (payloadText envelope.payload keys)

def amount (envelope : EventEnvelope) (keys : List String) : Cell := .ofInt (payloadI64 envelope.payload keys)

def toStage (envelope : EventEnvelope) : Option String :=
  (payloadText envelope.payload ["to_stage", "stage", "stage_id"]).or
    (if envelope.eventType = "won" ∨ envelope.eventType = "lost" then some envelope.eventType else none)

def minutes (envelope : EventEnvelope) : Int := (payloadI64 envelope.payload ["minutes"]).getD 0

def billable (envelope : EventEnvelope) : Bool := ((envelope.payload.get "billable").bind Json.asBool).getD true

/-- The columns that the event gives a row of the table. -/
def columns (envelope : EventEnvelope) : FactSource → List (String × Cell)
  | .invoiceLifecycle => [("invoice_id", envelope.recordId ["invoice_id", "id"]),
      ("lifecycle_event", .text envelope.eventType), ("amount_minor", envelope.amount ["amount_minor", "total_minor"]),
      ("currency", envelope.text ["currency"]), ("occurred_at", .timestamp envelope.occurredAt)]
  | .invoiceIssued => [("invoice_id", envelope.recordId ["invoice_id", "id"]),
      ("amount_minor", envelope.amount ["amount_minor", "total_minor"]), ("currency", envelope.text ["currency"]),
      ("issued_at", .timestamp envelope.occurredAt)]
  | .payment => [("payment_id", envelope.recordId ["payment_id", "id"]), ("invoice_id", envelope.text ["invoice_id"]),
      ("amount_minor", envelope.amount ["amount_minor", "total_minor"]), ("currency", envelope.text ["currency"]),
      ("occurred_at", .timestamp envelope.occurredAt)]
  | .expense => [("expense_id", envelope.recordId ["expense_id", "id"]), ("lifecycle_event", .text envelope.eventType),
      ("amount_minor", envelope.amount ["amount_minor", "total_minor"]), ("currency", envelope.text ["currency"]),
      ("category", envelope.text ["category", "category_id"]), ("occurred_at", .timestamp envelope.occurredAt)]
  | .dealStageChange => [("deal_id", envelope.recordId ["deal_id", "id"]),
      ("from_stage", envelope.text ["from_stage", "from_stage_id"]), ("to_stage", .ofText envelope.toStage),
      ("amount_minor", envelope.amount ["amount_minor"]), ("currency", envelope.text ["currency"]),
      ("occurred_at", .timestamp envelope.occurredAt)]
  | .taskLifecycle => [("task_id", envelope.recordId ["task_id", "id"]), ("lifecycle_event", .text envelope.eventType),
      ("project_id", envelope.text ["project_id"]), ("status", envelope.text ["status"]),
      ("occurred_at", .timestamp envelope.occurredAt)]
  | .timeEntry => [("time_entry_id", envelope.recordId ["time_entry_id", "id"]),
      ("timesheet_id", envelope.text ["timesheet_id"]), ("project_id", envelope.text ["project_id"]),
      ("membership_user_id", envelope.text ["membership_user_id"]), ("minutes", .int envelope.minutes),
      ("billable_minutes", .int (if envelope.billable then envelope.minutes else 0)),
      ("lifecycle_event", .text envelope.eventType), ("occurred_at", .timestamp envelope.occurredAt)]
  | .aiUsage => [("usage_kind", envelope.recordId ["usage_kind", "kind"]),
      ("tokens", envelope.amount ["tokens", "total_tokens"]), ("model", envelope.text ["model"]),
      ("occurred_at", .timestamp envelope.occurredAt)]
  | .apiRequest => []

/-- The row of the event, put into the table at `now`. -/
def factRow (envelope : EventEnvelope) (now : Timestamp) (source : FactSource) : Row :=
  .of ([("event_id", .uuid envelope.eventId), ("org_id", .uuid envelope.orgId)] ++ envelope.columns source ++
    [("ingested_at", .timestamp now)])

end EventEnvelope

def EventEnvelope.raw (envelope : EventEnvelope) (now : Timestamp) : RawEvent where
  orgId := envelope.orgId
  subject := envelope.subject
  context := envelope.context
  aggregate := envelope.aggregate
  eventType := envelope.eventType
  version := min envelope.version 2147483647
  occurredAt := envelope.occurredAt
  actorKind := if envelope.actor.isAi then "ai" else "human"
  actorUserId := envelope.actor.userId
  payload := envelope.payload
  ingestedAt := now

/-- The cast of the microseconds since the event to whole seconds. -/
def secondsSince (now occurredAt : Timestamp) : Int := max ((2 * (now - occurredAt) + 1000000) / 2000000) 0

def FreshnessRow.after (row : Option FreshnessRow) (now occurredAt : Timestamp) : FreshnessRow :=
  ⟨row.elim occurredAt fun r => max r.lastEventAt occurredAt, now, secondsSince now occurredAt, now⟩

namespace Db

def withRaw (now : Timestamp) (envelope : EventEnvelope) (db : Db) : Db :=
  { db with eventsRaw := db.eventsRaw.insert envelope.eventId (envelope.raw now) }

/-- `ON CONFLICT (event_id) DO NOTHING`. -/
def withFact (now : Timestamp) (envelope : EventEnvelope) (source : FactSource) (db : Db) : Db :=
  { db with
    facts := Function.update db.facts source
      ((db.facts source).insert envelope.eventId (envelope.factRow now source)) }

def withCursor (now : Timestamp) (envelope : EventEnvelope) (source : FactSource) (db : Db) : Db :=
  { db with cursor := db.cursor.upsert source.consumerName ⟨envelope.eventId, envelope.occurredAt, now⟩ }

def withFreshness (now : Timestamp) (envelope : EventEnvelope) (db : Db) : Db :=
  { db with
    freshness := db.freshness.upsert envelope.orgId
      (.after (db.freshness.find? envelope.orgId) now envelope.occurredAt) }

end Db

/-- Whether the event is new. -/
def insertRaw (now : Timestamp) (envelope : EventEnvelope) : Tx Bool :=
  Prog.executeReturning (fun _ => [.event envelope.eventId])
    (fun v => .ok (v.eventsRaw.find? envelope.eventId).isNone) fun _ => .withRaw now envelope

def insertRow (now : Timestamp) (envelope : EventEnvelope) (source : FactSource) : Tx Unit :=
  Prog.execute (fun _ => [.fact source envelope.eventId]) (fun _ => .ok ()) fun _ => .withFact now envelope source

def insertFact (now : Timestamp) (envelope : EventEnvelope) : FactSource → Tx Unit
  | .invoiceLifecycle => do
    insertRow now envelope .invoiceLifecycle
    if envelope.eventType = "issued" then insertRow now envelope .invoiceIssued else pure ()
  | .apiRequest | .invoiceIssued => pure ()
  | source => insertRow now envelope source

def upsertCursor (now : Timestamp) (envelope : EventEnvelope) (source : FactSource) : Tx Unit :=
  Prog.execute (fun _ => [.cursor source.consumerName]) (fun _ => .ok ()) fun _ => .withCursor now envelope source

def upsertFreshness (now : Timestamp) (envelope : EventEnvelope) : Tx Unit :=
  Prog.execute (fun _ => [.freshness envelope.orgId]) (fun _ => .ok ()) fun _ => .withFreshness now envelope

structure IngestResponse where
  accepted : Bool
  duplicate : Bool
  fact : Option String
  deriving DecidableEq

/-- A fact of the event is written with the cursor of its consumer. -/
def recordFact (now : Timestamp) (envelope : EventEnvelope) : Option FactSource → Tx Unit
  | none => pure ()
  | some source => do
    insertFact now envelope source
    upsertCursor now envelope source

def respond (envelope : EventEnvelope) (duplicate : Bool) : IngestResponse :=
  ⟨(supportedFact envelope).isSome, duplicate, (supportedFact envelope).map (·.asStr)⟩

def ingest (now : Timestamp) (envelope : EventEnvelope) : Tx IngestResponse := do
  let inserted ← insertRaw now envelope
  if inserted then do
    recordFact now envelope (supportedFact envelope)
    upsertFreshness now envelope
    pure (respond envelope false)
  else pure (respond envelope true)

/-- The tables that `insert_fact` writes to. -/
def EventEnvelope.written (envelope : EventEnvelope) : FactSource → List FactSource
  | .invoiceLifecycle => if envelope.eventType = "issued" then [.invoiceLifecycle, .invoiceIssued]
    else [.invoiceLifecycle]
  | .apiRequest | .invoiceIssued => []
  | source => [source]

/-- The fact tables with a row of the event. -/
def EventEnvelope.sources (envelope : EventEnvelope) : List FactSource :=
    (supportedFact envelope).elim [] envelope.written

namespace Db

def withFacts (now : Timestamp) (envelope : EventEnvelope) (sources : List FactSource) (db : Db) : Db :=
  sources.foldl (fun db source => db.withFact now envelope source) db

/-- What the transaction writes after the raw event. -/
def withRecord (now : Timestamp) (envelope : EventEnvelope) (db : Db) : Db :=
  Db.withFreshness now envelope
    ((supportedFact envelope).elim db fun source =>
      (db.withFacts now envelope (envelope.written source)).withCursor now envelope source)

def ingested (now : Timestamp) (envelope : EventEnvelope) (db : Db) : Db :=
  (db.withRaw now envelope).withRecord now envelope

end Db

section
variable {now : Timestamp} {envelope : EventEnvelope} {db : Db}

theorem blind_insertFact (source : FactSource) :
    (insertFact now envelope source).Blind (.withFacts now envelope (envelope.written source)) () := by
  have hrow : ∀ source, (insertRow now envelope source).Blind (.withFact now envelope source) () :=
    fun source => Prog.blind_execute _ _
  cases source with
  | invoiceLifecycle =>
    unfold insertFact EventEnvelope.written
    split_ifs
    · exact (hrow _).seq (hrow _)
    · exact (hrow _).seq (.pure ())
  | apiRequest | invoiceIssued => exact .pure ()
  | dealStageChange | payment | expense | taskLifecycle | timeEntry | aiUsage => exact hrow _

/-- A new event is recorded whatever the transaction sees. -/
theorem blind_record : (recordFact now envelope (supportedFact envelope) >>= fun _ => upsertFreshness now envelope >>=
    fun _ => pure (respond envelope false) : Tx IngestResponse).Blind (.withRecord now envelope)
      (respond envelope false) := by
  have hfact : (recordFact now envelope (supportedFact envelope)).Blind (fun db => (supportedFact envelope).elim db
      fun source => (db.withFacts now envelope (envelope.written source)).withCursor now envelope source) () := by
    cases supportedFact envelope with
    | none => exact .pure ()
    | some source =>
      have hcursor : (upsertCursor now envelope source).Blind (.withCursor now envelope source) () :=
        Prog.blind_execute _ _
      exact (blind_insertFact source).seq hcursor
  have hfreshness : (upsertFreshness now envelope).Blind (.withFreshness now envelope) () := Prog.blind_execute _ _
  exact hfact.seq (hfreshness.seq (.pure (respond envelope false)))

theorem find?_insert_or (t : Table Uuid Row) (id : Uuid) (r : Row) :
    (t.insert id r).find? id = (t.find? id).or (some r) := by
  cases h : t.find? id with
  | none => rw [Table.find?_insert_self h, Option.none_or]
  | some x => rw [Table.find?_insert_of_some h, Option.some_or]

theorem find?_withFacts_self (sources : List FactSource) (source : FactSource) :
    ((db.withFacts now envelope sources).facts source).find? envelope.eventId =
      ((db.facts source).find? envelope.eventId).or
        (if source ∈ sources then some (envelope.factRow now source) else none) := by
  induction sources generalizing db with
  | nil => simp [Db.withFacts]
  | cons s rest ih =>
    change (((db.withFact now envelope s).withFacts now envelope rest).facts source).find? envelope.eventId = _
    rw [ih]
    by_cases hs : source = s
    · subst hs
      have hrow : ((db.withFact now envelope source).facts source).find? envelope.eventId =
          ((db.facts source).find? envelope.eventId).or (some (envelope.factRow now source)) := by
        simp only [Db.withFact, Function.update_self, find?_insert_or]
      rw [hrow, if_pos List.mem_cons_self, Option.or_assoc, Option.some_or]
    · have hrow : (db.withFact now envelope s).facts source = db.facts source := by
        simp only [Db.withFact, Function.update_of_ne hs]
      simp only [hrow, List.mem_cons, hs, false_or]

theorem find?_withFacts_ne {id : Uuid} (h : id ≠ envelope.eventId) (sources : List FactSource) (source : FactSource) :
    ((db.withFacts now envelope sources).facts source).find? id = (db.facts source).find? id := by
  induction sources generalizing db with
  | nil => rfl
  | cons s rest ih =>
    change (((db.withFact now envelope s).withFacts now envelope rest).facts source).find? id = _
    rw [ih]
    by_cases hs : source = s
    · subst hs
      simp only [Db.withFact, Function.update_self, Table.find?_insert_ne _ _ h]
    · simp only [Db.withFact, Function.update_of_ne hs]

theorem eventsRaw_withFacts (now : Timestamp) (envelope : EventEnvelope) (db : Db) (sources : List FactSource) :
    (db.withFacts now envelope sources).eventsRaw = db.eventsRaw ∧
      (db.withFacts now envelope sources).freshness = db.freshness := by
  induction sources generalizing db with
  | nil => exact ⟨rfl, rfl⟩
  | cons s rest ih => exact ih (db.withFact now envelope s)

/-- The record leaves the raw log as it is, puts the facts into their tables, and moves one freshness. -/
theorem withRecord_eq (now : Timestamp) (envelope : EventEnvelope) (db : Db) :
    (db.withRecord now envelope).eventsRaw = db.eventsRaw ∧
    (db.withRecord now envelope).facts = (db.withFacts now envelope envelope.sources).facts ∧
    (db.withRecord now envelope).freshness = db.freshness.upsert envelope.orgId
      (.after (db.freshness.find? envelope.orgId) now envelope.occurredAt) := by
  unfold Db.withRecord EventEnvelope.sources
  cases supportedFact envelope with
  | none => exact ⟨rfl, rfl, rfl⟩
  | some source =>
    obtain ⟨hraw, hfreshness⟩ := eventsRaw_withFacts now envelope db (envelope.written source)
    refine ⟨hraw, rfl, ?_⟩
    change (db.withFacts now envelope (envelope.written source)).freshness.upsert _ (.after
      ((db.withFacts now envelope (envelope.written source)).freshness.find? _) _ _) = _
    rw [hfreshness]

end

/-- The event is in the raw log with its facts. -/
structure Recorded (now : Timestamp) (envelope : EventEnvelope) (s : Db) : Prop where
  raw : s.eventsRaw.find? envelope.eventId = some (envelope.raw now)
  facts : ∀ source, (s.facts source).find? envelope.eventId =
    if source ∈ envelope.sources then some (envelope.factRow now source) else none

structure Absent (id : Uuid) (s : Db) : Prop where
  raw : s.eventsRaw.find? id = none
  facts : ∀ source, (s.facts source).find? id = none

def Db.occurrences (s : Db) (org : Uuid) : Set Timestamp :=
  {t | ∃ id raw, s.eventsRaw.find? id = some raw ∧ raw.orgId = org ∧ raw.occurredAt = t}

/-- The fact tables and the freshness say what the raw log says. -/
structure Consistent (s : Db) : Prop where
  events : ∀ id, Absent id s ∨ ∃ now envelope, envelope.eventId = id ∧ Recorded now envelope s
  unknown : ∀ org, s.freshness.find? org = none → s.occurrences org = ∅
  freshness : ∀ org row, s.freshness.find? org = some row → IsGreatest (s.occurrences org) row.lastEventAt

section
variable {now : Timestamp} {envelope : EventEnvelope} {s : Db}

theorem Recorded.congr {t : Db} (h : Recorded now envelope s)
    (hraw : t.eventsRaw.find? envelope.eventId = s.eventsRaw.find? envelope.eventId)
    (hfacts : ∀ source, (t.facts source).find? envelope.eventId = (s.facts source).find? envelope.eventId) :
    Recorded now envelope t := ⟨hraw.trans h.raw, fun source => (hfacts source).trans (h.facts source)⟩

/-- What is kept about the other events. -/
theorem ingested_ne {id : Uuid} (h : id ≠ envelope.eventId) (now : Timestamp) (s : Db) :
    (s.ingested now envelope).eventsRaw.find? id = s.eventsRaw.find? id ∧
      ∀ source, ((s.ingested now envelope).facts source).find? id = (s.facts source).find? id := by
  obtain ⟨hraw, hfacts, _⟩ := withRecord_eq now envelope (s.withRaw now envelope)
  constructor
  · change ((s.withRaw now envelope).withRecord now envelope).eventsRaw.find? id = _
    rw [hraw]
    exact Table.find?_insert_ne _ _ h
  · intro source
    change (((s.withRaw now envelope).withRecord now envelope).facts source).find? id = _
    rw [hfacts, find?_withFacts_ne h]
    rfl

theorem recorded_ingested (h : Absent envelope.eventId s) : Recorded now envelope (s.ingested now envelope) := by
  obtain ⟨hraw, hfacts, _⟩ := withRecord_eq now envelope (s.withRaw now envelope)
  constructor
  · change ((s.withRaw now envelope).withRecord now envelope).eventsRaw.find? envelope.eventId = _
    rw [hraw]
    exact Table.find?_insert_self h.raw _
  · intro source
    change (((s.withRaw now envelope).withRecord now envelope).facts source).find? envelope.eventId = _
    rw [hfacts, find?_withFacts_self]
    change ((s.facts source).find? envelope.eventId).or _ = _
    rw [h.facts source, Option.none_or]

/-- One more event occurred in its organisation, and none elsewhere. -/
theorem occurrences_ingested (h : s.eventsRaw.find? envelope.eventId = none) (org : Uuid) :
    (s.ingested now envelope).occurrences org =
      if org = envelope.orgId then insert envelope.occurredAt (s.occurrences org) else s.occurrences org := by
  have hraw : (s.ingested now envelope).eventsRaw = s.eventsRaw.insert envelope.eventId (envelope.raw now) :=
    (withRecord_eq now envelope (s.withRaw now envelope)).1
  have hmem : ∀ t, t ∈ (s.ingested now envelope).occurrences org ↔
      t ∈ s.occurrences org ∨ (envelope.orgId = org ∧ envelope.occurredAt = t) := by
    intro t
    simp only [Db.occurrences, Set.mem_ofPred_eq, hraw]
    constructor
    · rintro ⟨id, raw, hfind, horg, ht⟩
      rcases Table.find?_insert_some hfind with hold | ⟨-, rfl⟩
      · exact .inl ⟨id, raw, hold, horg, ht⟩
      · exact .inr ⟨horg, ht⟩
    · rintro (⟨id, raw, hfind, horg, ht⟩ | ⟨horg, ht⟩)
      · exact ⟨id, raw, Table.find?_insert_of_some hfind _, horg, ht⟩
      · exact ⟨envelope.eventId, envelope.raw now, Table.find?_insert_self h _, horg, ht⟩
  ext t
  rw [hmem]
  split_ifs with horg
  · simp [horg, eq_comm, or_comm]
  · simp [Ne.symm horg]

theorem Consistent.absent (h : Consistent s) {id : Uuid} (hnone : s.eventsRaw.find? id = none) : Absent id s := by
  rcases h.events id with habsent | ⟨now, envelope, rfl, hrecorded⟩
  · exact habsent
  · rw [hrecorded.raw] at hnone
    cases hnone

theorem Consistent.ingested (h : Consistent s) (hnone : s.eventsRaw.find? envelope.eventId = none) :
    Consistent (s.ingested now envelope) := by
  have hfreshness : (s.ingested now envelope).freshness = s.freshness.upsert envelope.orgId
      (.after (s.freshness.find? envelope.orgId) now envelope.occurredAt) :=
    (withRecord_eq now envelope (s.withRaw now envelope)).2.2
  constructor
  · intro id
    by_cases hid : id = envelope.eventId
    · subst hid
      exact .inr ⟨now, envelope, rfl, recorded_ingested (h.absent hnone)⟩
    · obtain ⟨hraw, hfacts⟩ := ingested_ne hid now s
      rcases h.events id with habsent | ⟨now', envelope', rfl, hrecorded⟩
      · exact .inl ⟨hraw.trans habsent.raw, fun source => (hfacts source).trans (habsent.facts source)⟩
      · exact .inr ⟨now', envelope', rfl, hrecorded.congr hraw hfacts⟩
  · intro org hrow
    rw [hfreshness] at hrow
    by_cases horg : org = envelope.orgId
    · subst horg
      rw [Table.find?_upsert_self] at hrow
      cases hrow
    · rw [Table.find?_upsert_ne _ _ horg] at hrow
      rw [occurrences_ingested hnone, if_neg horg]
      exact h.unknown org hrow
  · intro org row hrow
    rw [hfreshness] at hrow
    rw [occurrences_ingested hnone]
    by_cases horg : org = envelope.orgId
    · subst horg
      rw [Table.find?_upsert_self, Option.some.injEq] at hrow
      subst hrow
      rw [if_pos rfl]
      cases hold : s.freshness.find? envelope.orgId with
      | none =>
        rw [h.unknown _ hold, insert_empty_eq]
        exact isGreatest_singleton
      | some r =>
        have hgreatest := (h.freshness _ r hold).insert envelope.occurredAt
        rwa [max_comm] at hgreatest
    · rw [Table.find?_upsert_ne _ _ horg] at hrow
      rw [if_neg horg]
      exact h.freshness org row hrow

end

end Noxara.Analytics
