import Mathlib.Data.List.Sort
import Noxara.CrmRequests
import Noxara.FinanceJournals

/-! The two read paths of the journal. `list_journals` filters by the caller's entities in its query and shows
each entry as stored; `get_journal` checks the entity of the loaded row and hides the amounts of a salary
entry from a caller without the field permission. -/
namespace Noxara.Finance

open Authz (Principal TimeFormats canonicalTimeFormats isAllowed)
open Workspace (forbidden enforceAnyScope)

/-- The journal with what only its read paths look at: who has access to which entity, and the time at which
each entry was written. The public id is unique. -/
structure Ledger where
  db : Db
  entityAccess : List (Uuid × Uuid)
  createdAt : Uuid → Timestamp
  publicIds : (db.journalEntries.values.map (·.publicId)).Nodup

structure Reader where
  userId : Uuid
  membership : Except AppError Principal

structure JournalListQuery where
  limit : Option Int := none
  offset : Option Int := none
  sourceType : Option String := none
  periodId : Option String := none

structure JournalListResponse where
  items : List JournalEntryDto
  total : Int
  deriving DecidableEq

def normalizePaging (limit offset : Option Int) : Int × Int :=
  (max 1 (min 200 (limit.getD 50)), max 0 (offset.getD 0))

def isSalaryAdjacent (sourceType : String) : Bool :=
  sourceType = "payroll" || sourceType = "payroll_reversal" || sourceType = "salary"

def JournalLineInput.redacted (line : JournalLineInput) : JournalLineInput :=
  { line with
    debitMinor := 0
    creditMinor := 0
    memo := some "[redacted]" }

def redactSalaryJournal (dto : JournalEntryDto) (canReadSalary : Bool) : JournalEntryDto :=
  if isSalaryAdjacent dto.sourceType.asStr && !canReadSalary then
    { dto with
      lines := dto.lines.map (·.redacted)
      memo := "[salary amounts redacted]" }
  else dto

def Ledger.allowedEntities (L : Ledger) (userId : Uuid) : List Uuid :=
  (L.entityAccess.filter fun r => r.2 = userId).map Prod.fst

/-- `ORDER BY entry_date DESC, created_at DESC`. -/
def Newer (createdAt : Uuid → Timestamp) (a b : Uuid × JournalEntryRow) : Prop :=
  b.2.entryDate < a.2.entryDate ∨ a.2.entryDate = b.2.entryDate ∧ createdAt b.1 ≤ createdAt a.1

instance (createdAt : Uuid → Timestamp) : DecidableRel (Newer createdAt) :=
  fun _ _ => inferInstanceAs (Decidable (_ ∨ _))

/-- The `WHERE` of the list: `entity_id = ANY(..)` is not true of an entry without an entity. -/
def selects (sourceType : Option String) (periodId : Option Uuid) (entities : Option (List Uuid))
    (row : JournalEntryRow) : Bool :=
  sourceType.all (row.sourceType.asStr = ·) && periodId.all (row.periodId = ·) &&
    entities.all fun allowed => row.entityId.any allowed.contains

/-- The rows of a list before paging. Rows of one date and time come in the order of the table. -/
def Ledger.selected (L : Ledger) (sourceType : Option String) (periodId : Option Uuid)
    (entities : Option (List Uuid)) : List (Uuid × JournalEntryRow) :=
  (L.db.journalEntries.rows.filter fun r => selects sourceType periodId entities r.2).insertionSort
    (Newer L.createdAt)

section
variable [TimeFormats]

def Reader.admitted (caller : Reader) : Except AppError Principal := do
  let principal ← caller.membership
  enforceAnyScope principal "finance.ledger.read"
  return principal

/-- Are the entries restricted to the caller's entities? -/
def Ledger.entityFilter (L : Ledger) (caller : Reader) (principal : Principal) : Bool :=
  !(L.allowedEntities caller.userId).isEmpty && !isAllowed principal "finance.consolidation.run" &&
    !isAllowed principal "finance.entity.manage"

def Ledger.restriction (L : Ledger) (caller : Reader) (principal : Principal) : Option (List Uuid) :=
  if L.entityFilter caller principal then some (L.allowedEntities caller.userId) else none

variable [Formats]

def parsePeriodId : Option String → Except AppError (Option Uuid)
  | some pid => (parsePublicId .fiscalPeriod pid).map some
  | none => .ok none

def listJournals (L : Ledger) (caller : Reader) (q : JournalListQuery) : Except AppError JournalListResponse := do
  let (limit, offset) := normalizePaging q.limit q.offset
  let principal ← caller.admitted
  let periodUuid ← parsePeriodId q.periodId
  let rows := L.selected q.sourceType periodUuid (L.restriction caller principal)
  let entryIds := ((rows.drop offset.toNat).take limit.toNat).map Prod.fst
  return ⟨entryIds.filterMap L.db.loadEntryDto, rows.length⟩

/-- The entity check of `get_journal`: an entry without an entity passes. -/
def checkEntity (entityFilter : Bool) (allowed : List Uuid) (entityId : Option Uuid) : Except AppError Unit :=
  if entityFilter && entityId.any (!allowed.contains ·) then
    .error (forbidden "entity isolation: journal belongs to another entity")
  else .ok ()

def getJournal (L : Ledger) (caller : Reader) (id : String) : Except AppError JournalEntryDto := do
  let entryId ← parseJournalPublicId id
  let principal ← caller.admitted
  let canSalary := isAllowed principal "finance.field.salary_journal_read"
  let dto ← foundOr (L.db.loadEntryDto entryId) (notFound "journal")
  let entityId := (L.db.journalEntries.find? entryId).bind (·.entityId)
  checkEntity (L.entityFilter caller principal) (L.allowedEntities caller.userId) entityId
  return redactSalaryJournal dto canSalary

inductive JournalRead
  | list (q : JournalListQuery)
  | get (id : String)

inductive JournalAnswer
  | list (answer : Except AppError JournalListResponse)
  | get (answer : Except AppError JournalEntryDto)

def JournalRead.answer (L : Ledger) (caller : Reader) : JournalRead → JournalAnswer
  | list q => .list (listJournals L caller q)
  | get id => .get (getJournal L caller id)

end

def JournalEntryRow.isSalary (row : JournalEntryRow) : Bool := isSalaryAdjacent row.sourceType.asStr

def JournalEntryRow.redacted (row : JournalEntryRow) : JournalEntryRow :=
  if row.isSalary then { row with memo := "[salary amounts redacted]" } else row

def JournalLineRow.redacted (line : JournalLineRow) : JournalLineRow :=
  { line with
    debitMinor := 0
    creditMinor := 0
    memo := some "[redacted]" }

def Db.isSalary (db : Db) (entryId : Uuid) : Bool := (db.journalEntries.find? entryId).any (·.isSalary)

/-- The tables with the amounts and memos of the salary entries taken out. -/
def Db.redacted (db : Db) : Db :=
  { db with
    journalEntries := db.journalEntries.mapRows fun _ row => row.redacted
    journalLines := db.journalLines.map fun l => if db.isSalary l.entryId then l.redacted else l }

/-- Two ledgers that differ only in the amounts and memos of salary entries. -/
structure Ledger.SameButSalary (L₁ L₂ : Ledger) : Prop where
  db : L₁.db.redacted = L₂.db.redacted
  entityAccess : L₁.entityAccess = L₂.entityAccess
  createdAt : L₁.createdAt = L₂.createdAt

@[simp] theorem JournalEntryRow.redacted_sourceType (row : JournalEntryRow) :
    row.redacted.sourceType = row.sourceType := by
  unfold redacted
  split_ifs <;> rfl

@[simp] theorem JournalEntryRow.redacted_entityId (row : JournalEntryRow) :
    row.redacted.entityId = row.entityId := by
  unfold redacted
  split_ifs <;> rfl

@[simp] theorem JournalEntryRow.redacted_entryDate (row : JournalEntryRow) :
    row.redacted.entryDate = row.entryDate := by
  unfold redacted
  split_ifs <;> rfl

@[simp] theorem JournalEntryRow.redacted_periodId (row : JournalEntryRow) :
    row.redacted.periodId = row.periodId := by
  unfold redacted
  split_ifs <;> rfl

@[simp] theorem JournalLineRow.redacted_entryId (line : JournalLineRow) :
    line.redacted.entryId = line.entryId := rfl

theorem Db.find?_redacted (db : Db) (entryId : Uuid) :
    db.redacted.journalEntries.find? entryId = (db.journalEntries.find? entryId).map (·.redacted) :=
  Table.find?_mapRows _ _ _

theorem Db.linesOf_redacted (db : Db) (entryId : Uuid) :
    db.redacted.linesOf entryId =
      if db.isSalary entryId then (db.linesOf entryId).map (·.redacted) else db.linesOf entryId := by
  have hfilter : (fun l : JournalLineRow => Decidable.decide (l.entryId = entryId)) ∘
      (fun l => if db.isSalary l.entryId then l.redacted else l) = fun l => Decidable.decide (l.entryId = entryId) := by
    funext l
    simp only [Function.comp_apply]
    split_ifs <;> rfl
  have hline : ∀ l ∈ db.linesOf entryId, l.entryId = entryId := fun l hl => by
    simpa using List.of_mem_filter hl
  simp only [linesOf, redacted, List.filter_map, hfilter]
  split_ifs with h
  · exact List.map_congr_left fun l hl => by rw [hline l hl, if_pos h]
  · rw [List.map_congr_left fun l hl => by rw [hline l hl, if_neg h], List.map_id']

section
variable [Formats]

theorem Db.loadEntryDto_redacted (db : Db) (entryId : Uuid) :
    db.redacted.loadEntryDto entryId = (db.loadEntryDto entryId).map (redactSalaryJournal · false) := by
  simp only [loadEntryDto, find?_redacted, linesOf_redacted, Option.map_map]
  cases hrow : db.journalEntries.find? entryId with
  | none => rfl
  | some row =>
    have hsalary : db.isSalary entryId = row.isSalary := by simp [isSalary, hrow]
    simp only [Option.map_some, Function.comp_apply, redactSalaryJournal, Bool.not_false, Bool.and_true]
    cases h : row.isSalary with
    | true =>
      have ha := h
      unfold JournalEntryRow.isSalary at ha
      simp [hsalary, h, ha, JournalEntryRow.redacted, JournalLineRow.redacted, JournalLineInput.redacted,
        JournalLineRow.dto, redacted, Function.comp_def]
    | false =>
      have ha := h
      unfold JournalEntryRow.isSalary at ha
      simp [hsalary, h, ha, JournalEntryRow.redacted, redacted]

end

theorem Ledger.map_selected (L : Ledger) (sourceType : Option String) (periodId : Option Uuid)
    (entities : Option (List Uuid)) :
    (L.selected sourceType periodId entities).map (fun r => (r.1, r.2.redacted)) =
      (L.db.redacted.journalEntries.rows.filter fun r => selects sourceType periodId entities r.2).insertionSort
        (Newer L.createdAt) := by
  have hfilter : (fun r : Uuid × JournalEntryRow => selects sourceType periodId entities r.2) ∘
      (fun r : Uuid × JournalEntryRow => (r.1, r.2.redacted)) = fun r => selects sourceType periodId entities r.2 := by
    funext r
    simp [selects]
  rw [selected, List.map_insertionSort (Newer L.createdAt) (Newer L.createdAt)]
  · simp only [Db.redacted, Table.mapRows, List.filter_map, hfilter]
  · intro a _ b _
    simp [Newer]

namespace Ledger.SameButSalary
variable {L₁ L₂ : Ledger} (h : L₁.SameButSalary L₂)
include h

theorem entryIds (sourceType : Option String) (periodId : Option Uuid) (entities : Option (List Uuid)) :
    (L₁.selected sourceType periodId entities).map Prod.fst =
      (L₂.selected sourceType periodId entities).map Prod.fst := by
  have hmap : (L₁.selected sourceType periodId entities).map (fun r => (r.1, r.2.redacted)) =
      (L₂.selected sourceType periodId entities).map (fun r => (r.1, r.2.redacted)) := by
    rw [L₁.map_selected, L₂.map_selected, h.db, h.createdAt]
  simpa [Function.comp_def] using congrArg (List.map Prod.fst) hmap

theorem entityId (entryId : Uuid) : (L₁.db.journalEntries.find? entryId).bind (·.entityId) =
    (L₂.db.journalEntries.find? entryId).bind (·.entityId) := by
  have hfind : ∀ db : Db, (db.redacted.journalEntries.find? entryId).bind (·.entityId) =
      (db.journalEntries.find? entryId).bind (·.entityId) := fun db => by
    rw [db.find?_redacted, Option.bind_map]
    simp
  rw [← hfind, h.db, hfind]

theorem allowedEntities (userId : Uuid) : L₁.allowedEntities userId = L₂.allowedEntities userId := by
  rw [Ledger.allowedEntities, h.entityAccess, Ledger.allowedEntities]

theorem entityFilter [TimeFormats] (caller : Reader) (principal : Principal) :
    L₁.entityFilter caller principal = L₂.entityFilter caller principal := by
  rw [Ledger.entityFilter, h.allowedEntities, Ledger.entityFilter]

theorem load [Formats] (entryId : Uuid) :
    (L₁.db.loadEntryDto entryId).map (redactSalaryJournal · false) =
      (L₂.db.loadEntryDto entryId).map (redactSalaryJournal · false) := by
  rw [← Db.loadEntryDto_redacted, h.db, Db.loadEntryDto_redacted]

end Ledger.SameButSalary

def Reader.LacksSalary [TimeFormats] (caller : Reader) : Prop :=
  ∀ principal, caller.admitted = .ok principal →
    isAllowed principal "finance.field.salary_journal_read" = false

section
variable [TimeFormats] [Formats] {L L₁ L₂ : Ledger} {caller : Reader}

/-- `get_journal` gives a caller without the permission the same answer from both. -/
theorem getJournal_same (h : L₁.SameButSalary L₂) (hlacks : caller.LacksSalary) (id : String) :
    getJournal L₁ caller id = getJournal L₂ caller id := by
  unfold getJournal
  cases parseJournalPublicId id with
  | error e => rfl
  | ok entryId =>
    cases hin : caller.admitted with
    | error e => rfl
    | ok principal =>
      have hload := h.load entryId
      simp only [bind, Except.bind, hlacks principal hin, h.entityFilter, h.allowedEntities, h.entityId]
      cases h₁ : L₁.db.loadEntryDto entryId with
      | none =>
        cases h₂ : L₂.db.loadEntryDto entryId with
        | none => rfl
        | some dto₂ => simp [h₁, h₂] at hload
      | some dto₁ =>
        cases h₂ : L₂.db.loadEntryDto entryId with
        | none => simp [h₁, h₂] at hload
        | some dto₂ =>
          have hdto : redactSalaryJournal dto₁ false = redactSalaryJournal dto₂ false := by
            simpa [h₁, h₂] using hload
          simp only [foundOr, hdto]

theorem Reader.list_refused {e : AppError} (h : caller.admitted = .error e) (q : JournalListQuery) :
    listJournals L caller q = .error e := by
  simp [listJournals, h, bind, Except.bind]

/-- The ids of all entries that the caller can list. -/
def Ledger.listable (L : Ledger) (caller : Reader) (principal : Principal) : List Uuid :=
  (L.selected none none (L.restriction caller principal)).map Prod.fst

/-- The first row of the page that starts at `n`. -/
theorem listJournals_single {principal : Principal} (h : caller.admitted = .ok principal) (n : ℕ) :
    listJournals L caller { limit := some 1, offset := some n } =
      .ok ⟨(L.listable caller principal)[n]?.toList.filterMap L.db.loadEntryDto,
        (L.listable caller principal).length⟩ := by
  have hpage : ∀ ids : List Uuid, (ids.drop n).take 1 = ids[n]?.toList := fun ids => by
    rw [List.take_one, List.head?_drop]
  simp [listJournals, normalizePaging, h, parsePeriodId, bind, Except.bind, pure, Except.pure, Ledger.listable,
    hpage]

/-- Can the caller list the entry? Its entity must be one of the caller's, if the caller is restricted. -/
def Ledger.Shows (L : Ledger) (caller : Reader) (principal : Principal) (entryId : Uuid) (row : JournalEntryRow) :
    Prop :=
  L.db.journalEntries.find? entryId = some row ∧
    ∀ allowed ∈ L.restriction caller principal, ∃ entity ∈ allowed, row.entityId = some entity

omit [Formats] in
theorem mem_listable {principal : Principal} {entryId : Uuid} :
    entryId ∈ L.listable caller principal ↔ ∃ row, L.Shows caller principal entryId row := by
  simp only [Ledger.Shows, Ledger.listable, Ledger.selected, List.mem_map, List.mem_insertionSort, List.mem_filter,
    Prod.exists,
    exists_and_right, exists_eq_right, Table.find?_eq_some, selects, Option.all_none, Bool.true_and,
    Option.mem_def]
  refine exists_congr fun row => and_congr_right fun _ => ?_
  cases L.restriction caller principal with
  | none => simp
  | some allowed =>
    cases row.entityId with
    | none => simp
    | some entity => simp

omit [Formats] in
/-- What a page shows is among what the caller can list. -/
theorem listable_of_page {principal : Principal} {sourceType : Option String} {periodId : Option Uuid}
    {n m : ℕ} {entryId : Uuid}
    (h : entryId ∈ (((L.selected sourceType periodId (L.restriction caller principal)).drop n).take m).map
      Prod.fst) : entryId ∈ L.listable caller principal := by
  obtain ⟨r, hr, rfl⟩ := List.mem_map.mp h
  have hsel := List.mem_of_mem_drop (List.mem_of_mem_take hr)
  refine List.mem_map_of_mem ?_
  simp only [Ledger.selected, List.mem_insertionSort, List.mem_filter, selects, Bool.and_eq_true] at hsel ⊢
  exact ⟨hsel.1, ⟨rfl, rfl⟩, hsel.2.2⟩

/-- `list_journals` gives the same answer from both when it shows no entry that differs. -/
theorem listJournals_same (h : L₁.SameButSalary L₂) {principal : Principal}
    (hin : caller.admitted = .ok principal)
    (hload : ∀ e ∈ L₁.listable caller principal, L₁.db.loadEntryDto e = L₂.db.loadEntryDto e)
    (q : JournalListQuery) : listJournals L₁ caller q = listJournals L₂ caller q := by
  have hrestrict : L₂.restriction caller principal = L₁.restriction caller principal := by
    simp only [Ledger.restriction, h.entityFilter, h.allowedEntities]
  simp only [listJournals, hin, bind, Except.bind]
  cases hperiod : parsePeriodId q.periodId with
  | error e => rfl
  | ok periodId =>
    have hids := h.entryIds q.sourceType periodId (L₁.restriction caller principal)
    have hlength := congrArg List.length hids
    rw [List.length_map, List.length_map] at hlength
    have hpage : ∀ ids : List Uuid, (∀ e ∈ ids, e ∈ L₁.listable caller principal) →
        ids.filterMap L₁.db.loadEntryDto = ids.filterMap L₂.db.loadEntryDto :=
      fun ids hmem => List.filterMap_congr fun e he => hload e (hmem e he)
    simp only [hrestrict, hlength, pure, Except.pure]
    rw [hpage _ fun e he => listable_of_page he, List.map_take, List.map_drop, hids, List.map_take,
      List.map_drop]

/-- The ledgers answer every list alike exactly when no entry that the caller can list differs. -/
theorem lists_same_iff (h : L₁.SameButSalary L₂) {principal : Principal}
    (hin : caller.admitted = .ok principal) :
    (∀ q, listJournals L₁ caller q = listJournals L₂ caller q) ↔
      ∀ e ∈ L₁.listable caller principal, L₁.db.loadEntryDto e = L₂.db.loadEntryDto e := by
  constructor
  · intro hlists e he
    obtain ⟨n, hn⟩ := List.mem_iff_getElem?.mp he
    have hids : L₂.listable caller principal = L₁.listable caller principal := by
      simp only [Ledger.listable, Ledger.restriction, h.entityFilter, h.allowedEntities, h.entryIds]
    have hsingle := hlists { limit := some 1, offset := some n }
    rw [listJournals_single hin, listJournals_single hin, hids, hn] at hsingle
    simp only [Except.ok.injEq, JournalListResponse.mk.injEq, Option.toList_some] at hsingle
    have hitems := hsingle.1
    cases h₁ : L₁.db.loadEntryDto e <;> cases h₂ : L₂.db.loadEntryDto e <;> simp_all
  · intro hload
    exact listJournals_same h hin hload

omit [TimeFormats] in
/-- Two ledgers that differ in salaries load the same entry when its memo and its lines are the same. -/
theorem load_eq_iff (h : L₁.SameButSalary L₂) {e : Uuid} {row₁ row₂ : JournalEntryRow}
    (h₁ : L₁.db.journalEntries.find? e = some row₁) (h₂ : L₂.db.journalEntries.find? e = some row₂) :
    L₁.db.loadEntryDto e = L₂.db.loadEntryDto e ↔ (row₁.isSalary = true →
      row₁.memo = row₂.memo ∧ (L₁.db.linesOf e).map (·.dto) = (L₂.db.linesOf e).map (·.dto)) := by
  have hload := h.load e
  simp only [Db.loadEntryDto, h₁, h₂, Option.map_some, Option.some.injEq, redactSalaryJournal, Bool.not_false,
    Bool.and_true] at hload ⊢
  have hrows : row₂.redacted = row₁.redacted := by
    have hfind := L₁.db.find?_redacted e
    rw [h.db, L₂.db.find?_redacted e, h₁, h₂] at hfind
    simpa using hfind
  have hkind : row₂.sourceType = row₁.sourceType := by
    simpa using congrArg JournalEntryRow.sourceType hrows
  constructor
  · intro heq _
    simp only [JournalEntryDto.mk.injEq] at heq
    exact ⟨heq.2.1, heq.2.2.2.2.2.1⟩
  · intro hsame
    cases hsalary : row₁.isSalary with
    | false =>
      unfold JournalEntryRow.isSalary at hsalary
      simpa only [hkind, hsalary, Bool.false_eq_true, if_false] using hload
    | true =>
      have hs := hsalary
      unfold JournalEntryRow.isSalary at hs
      simp only [hkind, hs, if_true, JournalEntryDto.mk.injEq] at hload ⊢
      exact ⟨hload.1, (hsame hsalary).1, trivial, hload.2.2.2.1, hload.2.2.2.2.1, (hsame hsalary).2,
        hload.2.2.2.2.2.2⟩

/-- A caller without the field permission gets the same answers from two ledgers that differ in salaries exactly
when it can list no salary entry that differs. -/
theorem answers_same_iff (h : L₁.SameButSalary L₂) (hlacks : caller.LacksSalary) :
    (∀ reads : List JournalRead, reads.map (·.answer L₁ caller) = reads.map (·.answer L₂ caller)) ↔
      ∀ principal, caller.admitted = .ok principal → ∀ e row₁ row₂, L₁.Shows caller principal e row₁ →
        L₂.db.journalEntries.find? e = some row₂ → row₁.isSalary = true →
        row₁.memo = row₂.memo ∧ (L₁.db.linesOf e).map (·.dto) = (L₂.db.linesOf e).map (·.dto) := by
  constructor
  · intro hreads principal hin e row₁ row₂ hshows h₂
    have hlists : ∀ q, listJournals L₁ caller q = listJournals L₂ caller q := fun q => by
      simpa [JournalRead.answer] using hreads [.list q]
    exact (load_eq_iff h hshows.1 h₂).mp
      ((lists_same_iff h hin).mp hlists e (mem_listable.mpr ⟨row₁, hshows⟩))
  · intro hsame reads
    refine List.map_congr_left fun read _ => ?_
    cases read with
    | get id => exact congrArg JournalAnswer.get (getJournal_same h hlacks id)
    | list q =>
      refine congrArg JournalAnswer.list ?_
      cases hin : caller.admitted with
      | error err => rw [Reader.list_refused hin, Reader.list_refused hin]
      | ok principal =>
        refine listJournals_same h hin (fun e he => ?_) q
        obtain ⟨row₁, hshows⟩ := mem_listable.mp he
        cases h₂ : L₂.db.journalEntries.find? e with
        | some row₂ =>
          exact (load_eq_iff h hshows.1 h₂).mpr (hsame principal hin e row₁ row₂ hshows h₂)
        | none =>
          have hload := h.load e
          simp [Db.loadEntryDto, hshows.1, h₂] at hload

/-- Some page of the list shows the entry as `dto`. -/
def Ledger.Lists (L : Ledger) (caller : Reader) (entryId : Uuid) (dto : JournalEntryDto) : Prop :=
  ∃ q r, listJournals L caller q = .ok r ∧ dto ∈ r.items ∧
    (L.db.journalEntries.find? entryId).map (·.publicId) = some dto.id

/-- Has the entry nothing to redact: no amounts, and the memos of a redacted entry? -/
def Db.Blank (db : Db) (entryId : Uuid) (row : JournalEntryRow) : Prop :=
  row.memo = "[salary amounts redacted]" ∧
    ∀ l ∈ db.linesOf entryId, l.debitMinor = 0 ∧ l.creditMinor = 0 ∧ l.memo = some "[redacted]"

omit [TimeFormats] in
theorem Ledger.loadEntryDto_id {e : Uuid} {dto : JournalEntryDto} (h : L.db.loadEntryDto e = some dto) :
    (L.db.journalEntries.find? e).map (·.publicId) = some dto.id := by
  obtain ⟨row, hrow, rfl⟩ := Option.map_eq_some_iff.mp h
  simp [hrow]

omit [TimeFormats] [Formats] in
theorem Ledger.entry_unique {e e' : Uuid} {id : String}
    (h : (L.db.journalEntries.find? e).map (·.publicId) = some id)
    (h' : (L.db.journalEntries.find? e').map (·.publicId) = some id) : e = e' := by
  obtain ⟨row, hrow, hid⟩ := Option.map_eq_some_iff.mp h
  obtain ⟨row', hrow', hid'⟩ := Option.map_eq_some_iff.mp h'
  have hunique := L.publicIds
  rw [Table.values, List.map_map] at hunique
  have hinj := List.inj_on_of_nodup_map hunique (Table.find?_eq_some.mp hrow) (Table.find?_eq_some.mp hrow')
    (hid.trans hid'.symm)
  exact congrArg Prod.fst hinj

theorem lists_iff {principal : Principal} (hin : caller.admitted = .ok principal) {e : Uuid}
    {dto : JournalEntryDto} :
    L.Lists caller e dto ↔ (∃ row, L.Shows caller principal e row) ∧ L.db.loadEntryDto e = some dto := by
  constructor
  · rintro ⟨q, r, hr, hdto, hid⟩
    simp only [listJournals, hin, bind, Except.bind] at hr
    cases hperiod : parsePeriodId q.periodId with
    | error err => simp [hperiod] at hr
    | ok periodId =>
      simp only [hperiod, pure, Except.pure, Except.ok.injEq] at hr
      subst hr
      obtain ⟨e', he', hload⟩ := List.mem_filterMap.mp hdto
      obtain rfl := Ledger.entry_unique hid (Ledger.loadEntryDto_id hload)
      exact ⟨mem_listable.mp (listable_of_page he'), hload⟩
  · rintro ⟨hshows, hload⟩
    obtain ⟨n, hn⟩ := List.mem_iff_getElem?.mp (mem_listable.mpr hshows)
    refine ⟨_, _, listJournals_single hin n, ?_, Ledger.loadEntryDto_id hload⟩
    simp [hn, hload]

omit [TimeFormats] [Formats] in
theorem checkEntity_ok {entityFilter : Bool} {allowed : List Uuid} {entityId : Option Uuid} :
    checkEntity entityFilter allowed entityId = .ok () ↔
      (entityFilter = true → ∀ entity ∈ entityId, entity ∈ allowed) := by
  cases entityFilter <;> cases entityId <;> simp [checkEntity]

theorem getJournal_ok {principal : Principal} (hin : caller.admitted = .ok principal) {id : String} {e : Uuid}
    (hid : parseJournalPublicId id = .ok e) {dto : JournalEntryDto} :
    getJournal L caller id = .ok dto ↔ ∃ row, L.db.journalEntries.find? e = some row ∧
      (L.entityFilter caller principal = true →
        ∀ entity ∈ row.entityId, entity ∈ L.allowedEntities caller.userId) ∧
      ∃ loaded, L.db.loadEntryDto e = some loaded ∧
        redactSalaryJournal loaded (isAllowed principal "finance.field.salary_journal_read") = dto := by
  simp only [getJournal, hid, hin, bind, Except.bind]
  cases hrow : L.db.journalEntries.find? e with
  | none => simp [Db.loadEntryDto, hrow, foundOr]
  | some row =>
    have hload : ∃ loaded, L.db.loadEntryDto e = some loaded := ⟨_, by rw [Db.loadEntryDto, hrow]; rfl⟩
    obtain ⟨loaded, hload⟩ := hload
    simp only [hload, foundOr, Option.bind_some, Option.some.injEq, exists_eq_left', ← checkEntity_ok]
    cases hcheck : checkEntity (L.entityFilter caller principal) (L.allowedEntities caller.userId) row.entityId with
    | error err => simp
    | ok u => simp [pure, Except.pure]

omit [TimeFormats] in
theorem redact_eq_self {e : Uuid} {row : JournalEntryRow} {loaded : JournalEntryDto} {canSalary : Bool}
    (hrow : L.db.journalEntries.find? e = some row) (hload : L.db.loadEntryDto e = some loaded) :
    redactSalaryJournal loaded canSalary = loaded ↔
      (row.isSalary = true → canSalary = false → L.db.Blank e row) := by
  have hloaded := hload
  simp only [Db.loadEntryDto, hrow, Option.map_some, Option.some.injEq] at hloaded
  have hkind : isSalaryAdjacent loaded.sourceType.asStr = row.isSalary := by
    rw [← hloaded]
    rfl
  have hlines : loaded.lines = (L.db.linesOf e).map (·.dto) := by rw [← hloaded]
  have hmemo : loaded.memo = row.memo := by rw [← hloaded]
  simp only [redactSalaryJournal, hkind]
  cases row.isSalary with
  | false => simp
  | true =>
    cases canSalary with
    | true => simp
    | false =>
      have hfields : ∀ l : JournalLineRow, l.dto.redacted = l.dto ↔
          l.debitMinor = 0 ∧ l.creditMinor = 0 ∧ l.memo = some "[redacted]" := fun l => by
        simp only [JournalLineInput.redacted, JournalLineRow.dto, JournalLineInput.mk.injEq, true_and, eq_comm]
      simp only [Bool.not_false, Bool.and_self, if_true, true_imp_iff, Db.Blank, ← hfields, ← hmemo]
      constructor
      · intro heq
        have hl := congrArg JournalEntryDto.lines heq
        simp only [hlines, List.map_map, List.map_inj_left, Function.comp_apply] at hl
        exact ⟨(congrArg JournalEntryDto.memo heq).symm, hl⟩
      · rintro ⟨hm, hl⟩
        have hmap : loaded.lines.map (·.redacted) = loaded.lines := by
          simpa only [hlines, List.map_map, List.map_inj_left, Function.comp_apply] using hl
        rw [hmap, ← hm]

/-- The list shows an entry exactly as `get_journal` returns it, when the caller's restriction to entities
leaves no entry without one and no salary is left to redact. -/
theorem reads_agree_iff {id : String} {e : Uuid} (hid : parseJournalPublicId id = .ok e) :
    (∀ dto, L.Lists caller e dto ↔ getJournal L caller id = .ok dto) ↔
      ∀ principal, caller.admitted = .ok principal → ∀ row, L.db.journalEntries.find? e = some row →
        (L.entityFilter caller principal = true → row.entityId ≠ none) ∧
        (L.Shows caller principal e row → row.isSalary = true →
          isAllowed principal "finance.field.salary_journal_read" = false → L.db.Blank e row) := by
  cases hin : caller.admitted with
  | error err =>
    refine iff_of_true (fun dto => iff_of_false ?_ ?_) fun _ h => by cases h
    · rintro ⟨q, r, hr, _⟩
      rw [Reader.list_refused hin] at hr
      cases hr
    · simp [getJournal, hid, hin, bind, Except.bind]
  | ok principal =>
    simp only [lists_iff hin, getJournal_ok hin hid, Except.ok.injEq, forall_eq']
    cases hrow : L.db.journalEntries.find? e with
    | none => simp [Ledger.Shows, hrow]
    | some row =>
      have hload : ∃ loaded, L.db.loadEntryDto e = some loaded := ⟨_, by rw [Db.loadEntryDto, hrow]; rfl⟩
      obtain ⟨loaded, hload⟩ := hload
      have hshows : (∃ row', L.Shows caller principal e row') ↔ L.Shows caller principal e row := by
        simp [Ledger.Shows, hrow]
      simp only [hshows, hload, Option.some.injEq, exists_eq_left', forall_eq']
      have hself := @redact_eq_self _ _ _ _ _ (isAllowed principal "finance.field.salary_journal_read") hrow hload
      have hvisible : L.Shows caller principal e row ↔ (L.entityFilter caller principal = true →
          ∃ entity ∈ L.allowedEntities caller.userId, row.entityId = some entity) := by
        simp only [Ledger.Shows, hrow, true_and, Ledger.restriction]
        split_ifs with hf <;> simp [hf]
      constructor
      · intro hagree
        refine ⟨fun hfilter hnone => ?_, fun hv hsalary hcan => ?_⟩
        · have hget := (hagree (redactSalaryJournal loaded
            (isAllowed principal "finance.field.salary_journal_read"))).mpr ⟨fun _ => by simp [hnone], rfl⟩
          obtain ⟨entity, _, hentity⟩ := hvisible.mp hget.1 hfilter
          simp [hnone] at hentity
        · exact hself.mp ((hagree loaded).mp ⟨hv, rfl⟩).2 hsalary hcan
      · rintro ⟨hentity, hblank⟩ dto
        have hsame : L.Shows caller principal e row ↔ (L.entityFilter caller principal = true →
            ∀ entity ∈ row.entityId, entity ∈ L.allowedEntities caller.userId) := by
          rw [hvisible]
          refine imp_congr_right fun hfilter => ?_
          cases hid : row.entityId with
          | none => exact absurd hid (hentity hfilter)
          | some entity => simp
        rw [← hsame]
        refine and_congr_right fun hv => ?_
        rw [hself.mpr (hblank hv)]

end

theorem salary_journals_confidential [TimeFormats] [Formats] (L₁ L₂ : Ledger) (caller : Reader)
    (hsame : L₁.SameButSalary L₂) (hlacks : caller.LacksSalary) (L : Ledger) (reader : Reader) (id : String)
    (e : Uuid) (hid : parseJournalPublicId id = .ok e) :
    ((∀ reads : List JournalRead, reads.map (·.answer L₁ caller) = reads.map (·.answer L₂ caller)) ↔
      ∀ principal, caller.admitted = .ok principal →
        ∀ entryId row₁ row₂, L₁.Shows caller principal entryId row₁ →
        L₂.db.journalEntries.find? entryId = some row₂ → row₁.isSalary = true →
        row₁.memo = row₂.memo ∧ (L₁.db.linesOf entryId).map (·.dto) = (L₂.db.linesOf entryId).map
          (·.dto)) ∧
    ((∀ dto, L.Lists reader e dto ↔ getJournal L reader id = .ok dto) ↔
      ∀ principal, reader.admitted = .ok principal → ∀ row, L.db.journalEntries.find? e = some row →
        (L.entityFilter reader principal = true → row.entityId ≠ none) ∧
        (L.Shows reader principal e row → row.isSalary = true →
          isAllowed principal "finance.field.salary_journal_read" = false → L.db.Blank e row)) :=
  ⟨answers_same_iff hsame hlacks, reads_agree_iff hid⟩

/-- One payroll entry without an entity. `access` restricts user 7 to entity 5. -/
def payrollLedger (amount : Int) (access : List (Uuid × Uuid)) : Ledger where
  db := { Db.empty with
    journalEntries := Table.empty.insert 1
      ⟨"jrn_1", ⟨2024, 3, 31, by decide⟩, "Payroll for March", .payroll, 9, "USD", 2, none, none, none⟩
    journalLines := [⟨1, "6100", amount, 0, some "Net pay"⟩, ⟨1, "1000", 0, amount, none⟩] }
  entityAccess := access
  createdAt _ := 0
  publicIds := List.nodup_singleton _

def bookkeeper : Reader := ⟨7, .ok (.fromPermissionIds ["finance.ledger.read"])⟩

theorem payrollLedger_same (a b : Int) (access : List (Uuid × Uuid)) :
    (payrollLedger a access).SameButSalary (payrollLedger b access) := ⟨rfl, rfl, rfl⟩

theorem bookkeeper_admitted [TimeFormats] :
    bookkeeper.admitted = .ok (.fromPermissionIds ["finance.ledger.read"]) := rfl

theorem bookkeeper_lacksSalary [TimeFormats] : bookkeeper.LacksSalary := by
  intro principal h
  rw [bookkeeper_admitted] at h
  cases h
  rfl

/-- The list shows the salaries that `get_journal` hides, and leaves out an entry that it returns. -/
theorem salary_journals_leak :
    letI := canonicalTimeFormats
    letI := canonicalFormats
    (∃ (L₁ L₂ : Ledger) (caller : Reader) (reads : List JournalRead), L₁.SameButSalary L₂ ∧
      caller.LacksSalary ∧
      reads.map (·.answer L₁ caller) ≠ reads.map (·.answer L₂ caller)) ∧
    ∃ (L : Ledger) (caller : Reader) (id : String) (e : Uuid) (dto : JournalEntryDto),
      parseJournalPublicId id = .ok e ∧ getJournal L caller id = .ok dto ∧ ¬L.Lists caller e dto := by
  let := canonicalTimeFormats
  let := canonicalFormats
  constructor
  · refine ⟨payrollLedger 100 [], payrollLedger 200 [], bookkeeper, [.list ⟨none, none, none, none⟩],
      payrollLedger_same _ _ _, bookkeeper_lacksSalary, fun heq => ?_⟩
    simp only [List.map_cons, List.map_nil, JournalRead.answer, List.cons.injEq, JournalAnswer.list.injEq,
      and_true] at heq
    have hamounts : (listJournals (payrollLedger 100 []) bookkeeper ⟨none, none, none, none⟩).toOption.map
        (·.items.flatMap fun dto => dto.lines.map (·.debitMinor)) = some [100, 0] := by decide +kernel
    have hother : (listJournals (payrollLedger 200 []) bookkeeper ⟨none, none, none, none⟩).toOption.map
        (·.items.flatMap fun dto => dto.lines.map (·.debitMinor)) = some [200, 0] := by decide +kernel
    rw [heq, hother] at hamounts
    simp at hamounts
  · have hget : ∃ dto, getJournal (payrollLedger 100 [(5, 7)]) bookkeeper
        "jrn_00000000-0000-0000-0000-000000000001" = .ok dto := ⟨_, rfl⟩
    obtain ⟨dto, hget⟩ := hget
    refine ⟨payrollLedger 100 [(5, 7)], bookkeeper, "jrn_00000000-0000-0000-0000-000000000001", 1, dto, rfl, hget,
      fun hlists => ?_⟩
    obtain ⟨⟨row, hrow, hentity⟩, _⟩ := (lists_iff bookkeeper_admitted).mp hlists
    obtain ⟨entity, _, hsome⟩ := hentity [5] rfl
    cases hrow
    cases hsome

/-- A caller restricted to an entity does not list the entry, and learns nothing of its amounts; but
`get_journal` returns it. -/
theorem salary_journals_confidential_restricted :
    letI := canonicalTimeFormats
    letI := canonicalFormats
    (∀ reads : List JournalRead, reads.map (·.answer (payrollLedger 100 [(5, 7)]) bookkeeper) =
      reads.map (·.answer (payrollLedger 200 [(5, 7)]) bookkeeper)) ∧
    ¬∀ dto, (payrollLedger 100 [(5, 7)]).Lists bookkeeper 1 dto ↔
      getJournal (payrollLedger 100 [(5, 7)]) bookkeeper "jrn_00000000-0000-0000-0000-000000000001" = .ok dto := by
  let := canonicalTimeFormats
  let := canonicalFormats
  have h := salary_journals_confidential (payrollLedger 100 [(5, 7)]) (payrollLedger 200 [(5, 7)]) bookkeeper
    (payrollLedger_same _ _ _) bookkeeper_lacksSalary (payrollLedger 100 [(5, 7)]) bookkeeper
    "jrn_00000000-0000-0000-0000-000000000001" 1 rfl
  refine ⟨h.1.mpr fun principal hin entryId row₁ row₂ hshows _ _ => ?_, fun hagree => ?_⟩
  · cases bookkeeper_admitted.symm.trans hin
    obtain ⟨entity, _, hsome⟩ := hshows.2 [5] rfl
    have hrow := Table.find?_eq_some.mp hshows.1
    cases List.mem_singleton.mp hrow
    cases hsome
  · exact (h.2.mp hagree _ bookkeeper_admitted _ rfl).1 rfl rfl

end Noxara.Finance
