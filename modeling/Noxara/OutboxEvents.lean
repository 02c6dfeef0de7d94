import Noxara.OutboxRelay

/-! Where an event is: it waits to be published, was accepted by the publisher, or lies in the dead-letter
queue, in one place at a time. What relays, replays and insertions do to one event keeps it so. -/
namespace Noxara.Outbox

open Transaction
open Finance (Uuid Timestamp)

/-- The event has a row of its own. -/
def Inserted (s : Store) (env : EventEnvelope) : Prop :=
  ∃ row, s.events.find? env.eventId = some row ∧ row.payload = env

/-- The row is unpublished and holds the event. -/
def Pending (s : Store) (env : EventEnvelope) (id : Uuid) : Prop :=
  ∃ row, s.events.find? id = some row ∧ row.payload = env ∧ row.publishedAt = none

/-- The dead-letter row is not replayed and holds the event. -/
def Buried (s : Store) (env : EventEnvelope) (id : Uuid) : Prop :=
  ∃ row, s.dlq.find? id = some row ∧ row.payload = env ∧ row.replayedAt = none

def Delivered (s : Store) (env : EventEnvelope) : Prop := (env.subject, env) ∈ s.deliveries

/-- The columns of a row are those of the event it holds. -/
def OutboxEvent.Tells (row : OutboxEvent) : Prop :=
  row.orgId = row.payload.orgId ∧ row.subject = row.payload.subject ∧
    row.idempotencyKey = row.payload.idempotencyKey

def DlqRow.Tells (row : DlqRow) : Prop :=
  row.orgId = row.payload.orgId ∧ row.subject = row.payload.subject ∧
    row.idempotencyKey = row.payload.idempotencyKey

structure Kept (s : Store) : Prop where
  row : ∀ id row, s.events.find? id = some row → row.Tells ∧ Inserted s row.payload
  dead : ∀ id row, s.dlq.find? id = some row → row.Tells ∧ Inserted s row.payload
  somewhere : ∀ env, Inserted s env → (∃ id, Pending s env id) ∨ Delivered s env ∨ ∃ id, Buried s env id
  onePending : ∀ env id id', Pending s env id → Pending s env id' → id = id'
  oneBuried : ∀ env id id', Buried s env id → Buried s env id' → id = id'
  notBoth : ∀ env id id', Pending s env id → ¬Buried s env id'

inductive Act
  | inserted (env : EventEnvelope)
  | published (now : Timestamp) (id : Uuid) (row : OutboxEvent)
  | died (ctx : RelayCtx) (id : Uuid) (row : OutboxEvent) (error : String)
  | replayed (now : Timestamp) (dlqId : Uuid) (row : DlqRow) (newId : Uuid)

def freshRow (env : EventEnvelope) : OutboxEvent :=
  ⟨env.orgId, env.subject, env, env.idempotencyKey, env.occurredAt, none⟩

def deadRow (ctx : RelayCtx) (id : Uuid) (row : OutboxEvent) (error : String) : DlqRow :=
  ⟨id, row.orgId, row.subject, row.payload, row.idempotencyKey, error, 1, ctx.now, none⟩

def replayRow (now : Timestamp) (row : DlqRow) : OutboxEvent :=
  ⟨row.orgId, row.subject, row.payload, row.idempotencyKey, now, none⟩

namespace Act

def apply : Act → Store → Store
  | inserted env, s => s.setEvents (·.insert env.eventId (freshRow env))
  | published now id row, s =>
    { markPublished now id s with deliveries := s.deliveries ++ [(row.subject, row.payload)] }
  | died ctx id row error, s =>
    markPublished ctx.now id (s.setDlq (·.insert (ctx.dlqId id) (deadRow ctx id row error)))
  | replayed now dlqId row newId, s =>
    (s.setEvents (·.insert newId (replayRow now row))).setDlq
      (·.modify dlqId fun r => { r with replayedAt := some now })

def Pre (s : Store) : Act → Prop
  | inserted env => s.events.find? env.eventId = none
  | published _ id row => s.events.find? id = some row ∧ row.publishedAt = none
  | died ctx id row _ =>
    s.events.find? id = some row ∧ row.publishedAt = none ∧ s.dlq.find? (ctx.dlqId id) = none
  | replayed _ dlqId row newId =>
    s.dlq.find? dlqId = some row ∧ row.replayedAt = none ∧ s.events.find? newId = none

/-- The rows that the act changes. -/
def touches : Act → List Lock
  | inserted env => [.event env.eventId]
  | published _ id _ => [.event id]
  | died ctx id _ _ => [.event id, .dlq (ctx.dlqId id)]
  | replayed _ dlqId _ newId => [.dlq dlqId, .event newId]

variable {s t : Store} {a : Act}

theorem find?_event_apply {id : Uuid} (h : Lock.event id ∉ a.touches) :
    (a.apply s).events.find? id = s.events.find? id := by
  cases a with
  | inserted env => exact Table.find?_insert_ne _ _ (by simpa [touches] using h)
  | published now k row => exact Table.find?_modify_ne _ _ (by simpa [touches] using h)
  | died ctx k row error => exact Table.find?_modify_ne _ _ (by simpa [touches] using h)
  | replayed now d row n => exact Table.find?_insert_ne _ _ (by simpa [touches] using h)

theorem find?_dlq_apply {id : Uuid} (h : Lock.dlq id ∉ a.touches) :
    (a.apply s).dlq.find? id = s.dlq.find? id := by
  cases a with
  | inserted env => rfl
  | published now k row => rfl
  | died ctx k row error => exact Table.find?_insert_ne _ _ (by simpa [touches] using h)
  | replayed now d row n => exact Table.find?_modify_ne _ _ (by simpa [touches] using h)

/-- What an act finds is in the rows that it changes. -/
theorem Pre.congr (h : a.Pre s) (he : ∀ id, Lock.event id ∈ a.touches → t.events.find? id = s.events.find? id)
    (hd : ∀ id, Lock.dlq id ∈ a.touches → t.dlq.find? id = s.dlq.find? id) : a.Pre t := by
  cases a with
  | inserted env =>
    have h₁ := he env.eventId (by simp [touches])
    exact h₁.trans h
  | published now id row =>
    have h₁ := he id (by simp [touches])
    exact ⟨h₁.trans h.1, h.2⟩
  | died ctx id row error =>
    have h₁ := he id (by simp [touches])
    have h₂ := hd (ctx.dlqId id) (by simp [touches])
    exact ⟨h₁.trans h.1, h.2.1, h₂.trans h.2.2⟩
  | replayed now d row n =>
    have h₁ := hd d (by simp [touches])
    have h₂ := he n (by simp [touches])
    exact ⟨h₁.trans h.1, h.2.1, h₂.trans h.2.2⟩

end Act

section
variable {s : Store}

theorem pending_of_insert {id : Uuid} {row : OutboxEvent} (hnew : s.events.find? id = none)
    (hrow : row.publishedAt = none) {env : EventEnvelope} {k : Uuid} :
    Pending (s.setEvents (·.insert id row)) env k ↔ Pending s env k ∨ (k = id ∧ env = row.payload) := by
  refine (Table.exists_find?_insert hnew).trans (or_congr_right (and_congr_right fun _ => ?_))
  rw [hrow, eq_self, and_true, eq_comm]

theorem inserted_of_insert {id : Uuid} {row : OutboxEvent} (hnew : s.events.find? id = none)
    {env : EventEnvelope} : Inserted (s.setEvents (·.insert id row)) env ↔
      Inserted s env ∨ (env.eventId = id ∧ env = row.payload) := by
  refine (Table.exists_find?_insert hnew).trans (or_congr_right (and_congr_right fun _ => ?_))
  exact eq_comm

theorem find?_markPublished {now : Timestamp} {id k : Uuid} {row : OutboxEvent}
    (h : (markPublished now id s).events.find? k = some row) : ∃ r, s.events.find? k = some r ∧
      row.orgId = r.orgId ∧ row.subject = r.subject ∧ row.payload = r.payload ∧
      row.idempotencyKey = r.idempotencyKey ∧ (row.publishedAt = none ↔ r.publishedAt = none ∧ k ≠ id) := by
  obtain ⟨r, hr, rfl⟩ := Option.map_eq_some_iff.mp ((Table.find?_mapRows s.events _ k).symm.trans h)
  refine ⟨r, hr, ?_⟩
  by_cases hk : k = id <;> simp [hk]

theorem inserted_markPublished {now : Timestamp} {id : Uuid} {env : EventEnvelope} :
    Inserted (markPublished now id s) env ↔ Inserted s env := by
  have hmap := Table.find?_mapRows s.events
    (fun k r => if k = id then { r with publishedAt := some now } else r) env.eventId
  constructor
  · rintro ⟨row, hrow, hp⟩
    obtain ⟨r, hr, -, -, hpay, -⟩ := find?_markPublished hrow
    exact ⟨r, hr, hpay.symm.trans hp⟩
  · rintro ⟨row, hrow, hp⟩
    rw [hrow] at hmap
    refine ⟨_, hmap, ?_⟩
    split_ifs <;> exact hp

theorem pending_markPublished {now : Timestamp} {id : Uuid} {env : EventEnvelope} {k : Uuid} :
    Pending (markPublished now id s) env k ↔ Pending s env k ∧ k ≠ id := by
  constructor
  · rintro ⟨row, hrow, hp, hu⟩
    obtain ⟨r, hr, -, -, hpay, -, hiff⟩ := find?_markPublished hrow
    exact ⟨⟨r, hr, hpay.symm.trans hp, (hiff.mp hu).1⟩, (hiff.mp hu).2⟩
  · rintro ⟨⟨r, hr, hp, hu⟩, hk⟩
    exact ⟨r, (Table.find?_modify_ne s.events _ hk).trans hr, hp, hu⟩

theorem buried_of_insert {id : Uuid} {row : DlqRow} (hnew : s.dlq.find? id = none)
    (hrow : row.replayedAt = none) {env : EventEnvelope} {k : Uuid} :
    Buried (s.setDlq (·.insert id row)) env k ↔ Buried s env k ∨ (k = id ∧ env = row.payload) := by
  refine (Table.exists_find?_insert hnew).trans (or_congr_right (and_congr_right fun _ => ?_))
  rw [hrow, eq_self, and_true, eq_comm]

theorem buried_of_replay {now : Timestamp} {id : Uuid} {env : EventEnvelope} {k : Uuid} :
    Buried (s.setDlq (·.modify id fun r => { r with replayedAt := some now })) env k ↔
      Buried s env k ∧ k ≠ id := by
  constructor
  · rintro ⟨row, hrow, hp, hu⟩
    obtain ⟨r, hr, rfl⟩ := Option.map_eq_some_iff.mp ((Table.find?_mapRows s.dlq _ k).symm.trans hrow)
    by_cases hk : k = id
    · simp [hk] at hu
    · simp only [hk, if_false] at hp hu
      exact ⟨⟨r, hr, hp, hu⟩, hk⟩
  · rintro ⟨⟨r, hr, hp, hu⟩, hk⟩
    exact ⟨r, (Table.find?_modify_ne s.dlq _ hk).trans hr, hp, hu⟩

variable {env : EventEnvelope}

theorem Kept.inserted_of_pending (h : Kept s) {id : Uuid} (hp : Pending s env id) : Inserted s env := by
  obtain ⟨row, hrow, rfl, _⟩ := hp
  exact (h.row id row hrow).2

theorem Kept.inserted_of_buried (h : Kept s) {id : Uuid} (hb : Buried s env id) : Inserted s env := by
  obtain ⟨row, hrow, rfl, _⟩ := hb
  exact (h.dead id row hrow).2

theorem Kept.inserted (h : Kept s) (hpre : (Act.inserted env).Pre s) : Kept ((Act.inserted env).apply s) := by
  have hnew : s.events.find? env.eventId = none := hpre
  have hpending := fun {env' k} => @pending_of_insert s _ (freshRow env) hnew rfl env' k
  have hinserted := fun {env'} => @inserted_of_insert s _ (freshRow env) hnew env'
  have hnot : ¬Inserted s env := by
    rintro ⟨row, hrow, -⟩
    rw [hnew] at hrow
    cases hrow
  constructor
  · intro id row hrow
    rcases Table.find?_insert_some hrow with hold | ⟨rfl, rfl⟩
    · exact ⟨(h.row id row hold).1, hinserted.mpr (.inl (h.row id row hold).2)⟩
    · exact ⟨⟨rfl, rfl, rfl⟩, hinserted.mpr (.inr ⟨rfl, rfl⟩)⟩
  · exact fun id row hrow => ⟨(h.dead id row hrow).1, hinserted.mpr (.inl (h.dead id row hrow).2)⟩
  · intro env' hi
    rcases hinserted.mp hi with hold | ⟨-, rfl⟩
    · rcases h.somewhere env' hold with ⟨k, hk⟩ | hrest
      · exact .inl ⟨k, hpending.mpr (.inl hk)⟩
      · exact .inr hrest
    · exact .inl ⟨_, hpending.mpr (.inr ⟨rfl, rfl⟩)⟩
  · intro env' k k' hk hk'
    rcases hpending.mp hk with hk | ⟨rfl, rfl⟩ <;> rcases hpending.mp hk' with hk' | ⟨rfl, he⟩
    · exact h.onePending env' k k' hk hk'
    · exact absurd (h.inserted_of_pending hk) (he ▸ hnot)
    · exact absurd (h.inserted_of_pending hk') hnot
    · rfl
  · exact h.oneBuried
  · intro env' k k' hk hb
    rcases hpending.mp hk with hk | ⟨-, rfl⟩
    · exact h.notBoth env' k k' hk hb
    · exact hnot (h.inserted_of_buried hb)

/-- A row that is taken off the unpublished ones. -/
theorem Kept.row_markPublished (h : Kept s) {now : Timestamp} {id k : Uuid} {row : OutboxEvent}
    (hrow : (markPublished now id s).events.find? k = some row) :
    row.Tells ∧ Inserted (markPublished now id s) row.payload := by
  obtain ⟨r, hr, horg, hsubject, hpay, hkey, -⟩ := find?_markPublished hrow
  obtain ⟨⟨h₁, h₂, h₃⟩, hins⟩ := h.row k r hr
  refine ⟨⟨?_, ?_, ?_⟩, inserted_markPublished.mpr (hpay ▸ hins)⟩
  · rw [horg, hpay, h₁]
  · rw [hsubject, hpay, h₂]
  · rw [hkey, hpay, h₃]

theorem Kept.published (h : Kept s) {now : Timestamp} {id : Uuid} {row : OutboxEvent}
    (hpre : (Act.published now id row).Pre s) : Kept ((Act.published now id row).apply s) := by
  obtain ⟨hrow, hunpublished⟩ := hpre
  have hself : Pending s row.payload id := ⟨row, hrow, rfl, hunpublished⟩
  have hpending := fun {env' k} => @pending_markPublished s now id env' k
  have hinserted := fun {env'} => @inserted_markPublished s now id env'
  constructor
  · exact fun k r hr => h.row_markPublished hr
  · exact fun k r hr => ⟨(h.dead k r hr).1, hinserted.mpr (h.dead k r hr).2⟩
  · intro env' hi
    rcases h.somewhere env' (hinserted.mp hi) with ⟨k, hk⟩ | hdelivered | hburied
    · by_cases hkid : k = id
      · -- the event is delivered now
        subst hkid
        obtain ⟨r, hr, rfl, -⟩ := hk
        cases hrow.symm.trans hr
        refine .inr (.inl (List.mem_append_right _ ?_))
        rw [(h.row k row hrow).1.2.1]
        exact List.mem_singleton.mpr rfl
      · exact .inl ⟨k, hpending.mpr ⟨hk, hkid⟩⟩
    · exact .inr (.inl (List.mem_append_left _ hdelivered))
    · exact .inr (.inr hburied)
  · exact fun env' k k' hk hk' => h.onePending env' k k' (hpending.mp hk).1 (hpending.mp hk').1
  · exact h.oneBuried
  · exact fun env' k k' hk hb => h.notBoth env' k k' (hpending.mp hk).1 hb

theorem Kept.died (h : Kept s) {ctx : RelayCtx} {id : Uuid} {row : OutboxEvent} {error : String}
    (hpre : (Act.died ctx id row error).Pre s) : Kept ((Act.died ctx id row error).apply s) := by
  obtain ⟨hrow, hunpublished, hfree⟩ := hpre
  have hself : Pending s row.payload id := ⟨row, hrow, rfl, hunpublished⟩
  have hpending := fun {env' k} => @pending_markPublished (s.setDlq
    (·.insert (ctx.dlqId id) (deadRow ctx id row error))) ctx.now id env' k
  have hinserted := fun {env'} => @inserted_markPublished (s.setDlq
    (·.insert (ctx.dlqId id) (deadRow ctx id row error))) ctx.now id env'
  have hburied := fun {env' k} => @buried_of_insert s _ (deadRow ctx id row error) hfree rfl env' k
  constructor
  · intro k r hr
    have hkept := @Kept.row_markPublished s h ctx.now id k r hr
    exact hkept
  · intro k r hr
    rcases Table.find?_insert_some hr with hold | ⟨-, rfl⟩
    · exact ⟨(h.dead k r hold).1, hinserted.mpr (h.dead k r hold).2⟩
    · exact ⟨(h.row id row hrow).1, hinserted.mpr (h.row id row hrow).2⟩
  · intro env' hi
    rcases h.somewhere env' (hinserted.mp hi) with ⟨k, hk⟩ | hdelivered | ⟨d, hd⟩
    · by_cases hkid : k = id
      · -- the event is in the dead-letter queue now
        subst hkid
        obtain ⟨r, hr, rfl, -⟩ := hk
        cases hrow.symm.trans hr
        exact .inr (.inr ⟨_, hburied.mpr (.inr ⟨rfl, rfl⟩)⟩)
      · exact .inl ⟨k, hpending.mpr ⟨hk, hkid⟩⟩
    · exact .inr (.inl hdelivered)
    · exact .inr (.inr ⟨d, hburied.mpr (.inl hd)⟩)
  · exact fun env' k k' hk hk' => h.onePending env' k k' (hpending.mp hk).1 (hpending.mp hk').1
  · intro env' k k' hk hk'
    rcases hburied.mp hk with hk | ⟨rfl, rfl⟩ <;> rcases hburied.mp hk' with hk' | ⟨rfl, he⟩
    · exact h.oneBuried env' k k' hk hk'
    · exact absurd hk (he ▸ h.notBoth _ id k hself)
    · exact absurd hk' (h.notBoth _ id k' hself)
    · rfl
  · intro env' k k' hk hb
    obtain ⟨hk, hne⟩ := hpending.mp hk
    rcases hburied.mp hb with hb | ⟨-, rfl⟩
    · exact h.notBoth env' k k' hk hb
    · exact hne (h.onePending _ k id hk hself)

theorem Kept.replayed (h : Kept s) {now : Timestamp} {d n : Uuid} {row : DlqRow}
    (hpre : (Act.replayed now d row n).Pre s) : Kept ((Act.replayed now d row n).apply s) := by
  obtain ⟨hrow, hunreplayed, hfree⟩ := hpre
  have hself : Buried s row.payload d := ⟨row, hrow, rfl, hunreplayed⟩
  have hpending := fun {env' k} => @pending_of_insert s _ (replayRow now row) hfree rfl env' k
  have hinserted := fun {env'} => @inserted_of_insert s _ (replayRow now row) hfree env'
  have hburied := fun {env' k} => @buried_of_replay
    (s.setEvents (·.insert n (replayRow now row))) now d env' k
  -- the event of the row was inserted under another id
  have hsame : ∀ {env'}, Inserted (s.setEvents (·.insert n (replayRow now row))) env' → Inserted s env' := by
    intro env' hi
    rcases hinserted.mp hi with hold | ⟨hid, rfl⟩
    · exact hold
    · exact (h.dead d row hrow).2
  constructor
  · intro id r hr
    rcases Table.find?_insert_some hr with hold | ⟨rfl, rfl⟩
    · exact ⟨(h.row id r hold).1, hinserted.mpr (.inl (h.row id r hold).2)⟩
    · exact ⟨(h.dead d row hrow).1, hinserted.mpr (.inl (h.dead d row hrow).2)⟩
  · intro id r hr
    obtain ⟨r₀, hr₀, rfl⟩ := Option.map_eq_some_iff.mp ((Table.find?_mapRows s.dlq _ id).symm.trans hr)
    have hins := hinserted.mpr (.inl (h.dead id r₀ hr₀).2)
    split_ifs
    · exact ⟨(h.dead id r₀ hr₀).1, hins⟩
    · exact ⟨(h.dead id r₀ hr₀).1, hins⟩
  · intro env' hi
    rcases h.somewhere env' (hsame hi) with ⟨k, hk⟩ | hdelivered | ⟨k, hk⟩
    · exact .inl ⟨k, hpending.mpr (.inl hk)⟩
    · exact .inr (.inl hdelivered)
    · by_cases hkd : k = d
      · -- the event waits again
        subst hkd
        obtain ⟨r, hr, rfl, -⟩ := hk
        cases hrow.symm.trans hr
        exact .inl ⟨n, hpending.mpr (.inr ⟨rfl, rfl⟩)⟩
      · exact .inr (.inr ⟨k, hburied.mpr ⟨hk, hkd⟩⟩)
  · intro env' k k' hk hk'
    rcases hpending.mp hk with hold | ⟨rfl, rfl⟩ <;> rcases hpending.mp hk' with hold' | ⟨rfl, he⟩
    · exact h.onePending env' k k' hold hold'
    · have hb : Buried s env' d := by
        rw [he]
        exact hself
      exact absurd hb (h.notBoth env' k d hold)
    · exact absurd hself (h.notBoth _ k' d hold')
    · rfl
  · exact fun env' k k' hk hk' => h.oneBuried env' k k' (hburied.mp hk).1 (hburied.mp hk').1
  · intro env' k k' hk hb
    obtain ⟨hb, hne⟩ := hburied.mp hb
    rcases hpending.mp hk with hk | ⟨-, rfl⟩
    · exact h.notBoth env' k k' hk hb
    · exact hne (h.oneBuried _ k' d hb hself)

theorem Kept.apply (h : Kept s) {a : Act} (hpre : a.Pre s) : Kept (a.apply s) := by
  cases a with
  | inserted env => exact h.inserted hpre
  | published now id row => exact h.published hpre
  | died ctx id row error => exact h.died hpre
  | replayed now d row n => exact h.replayed hpre

end

end Noxara.Outbox
