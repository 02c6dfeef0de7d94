import Noxara.HandlerEffects

/-! Journals posted by request: payroll, manual and inventory entries, and reversals. A reversal
takes its lines from the stored entry with the sides swapped, and everything else, its currency
included, from the request. -/
namespace Noxara.Finance

open Transaction

def JournalLineRow.dto (l : JournalLineRow) : JournalLineInput :=
  ⟨l.accountCode, l.debitMinor, l.creditMinor, l.memo⟩

def JournalLineRow.inverted (l : JournalLineRow) : LedgerLine :=
  ⟨l.accountCode, l.creditMinor, l.debitMinor, l.memo⟩

def JournalLineInput.line (l : JournalLineInput) : LedgerLine :=
  ⟨l.accountCode, l.debitMinor, l.creditMinor, l.memo⟩

def Db.reversedLines (db : Db) : Option Uuid → List LedgerLine
  | some e => (db.linesOf e).map (·.inverted)
  | none => []

def Db.sourceEntries (db : Db) (sourceType : SourceType) (sourceId : Uuid) :
    List (Uuid × JournalEntryRow) :=
  db.journalEntries.rows.filter fun r => r.2.sourceType = sourceType ∧ r.2.sourceId = sourceId

def allowedSourceTypes : List SourceType :=
  [.payroll, .manual, .inventoryReceipt, .inventoryCogs, .inventoryDepreciation, .vendorBill,
    .vendorPayment]

/-- `resolve_active_account_code`. -/
def resolveActiveAccountCode (code : String) : Tx String := do
  let row ← Prog.query fun db => db.accounts.find? code
  match row with
  | some acct =>
    if acct.isActive then pure code
    else lift (.error (validation s!"account {code} is inactive"))
  | none => lift (.error (validation s!"unknown account_code: {code}"))

/-- The lines of an entry with debit and credit swapped. -/
def invertLines : List JournalLineInput → Tx (List LedgerLine)
  | [] => pure []
  | l :: ls => do
    let code ← resolveActiveAccountCode l.accountCode
    let rest ← invertLines ls
    pure (⟨code, l.creditMinor, l.debitMinor, l.memo⟩ :: rest)

def JournalLineInput.OneSided (l : JournalLineInput) : Prop :=
  ¬((l.debitMinor > 0 ∧ l.creditMinor > 0) ∨ (l.debitMinor = 0 ∧ l.creditMinor = 0) ∨
    l.debitMinor < 0 ∨ l.creditMinor < 0)

instance (l : JournalLineInput) : Decidable l.OneSided := inferInstanceAs (Decidable (¬_))

def explicitLines : List JournalLineInput → Tx (List LedgerLine)
  | [] => pure []
  | l :: ls => do
    Prog.require l.OneSided
      (.error (validation "each line must have exactly one of debit_minor or credit_minor > 0"))
    let code ← resolveActiveAccountCode l.accountCode
    let rest ← explicitLines ls
    pure (⟨code, l.debitMinor, l.creditMinor, l.memo⟩ :: rest)

section Handlers
variable [Formats]

def parseJournalPublicId (raw : String) : Except AppError Uuid :=
  let s := trim raw
  match Formats.uuidParseStr ((stripPrefix s "jrn_").getD s) with
  | some id => .ok id
  | none => .error (validation s!"invalid journal id: {raw}")

def Db.loadEntryDto (db : Db) (entryId : Uuid) : Option JournalEntryDto :=
  (db.journalEntries.find? entryId).map fun je =>
    { id := je.publicId
      memo := je.memo
      sourceType := je.sourceType
      sourceId := Formats.uuidDisplay je.sourceId
      currency := je.currency
      lines := (db.linesOf entryId).map (·.dto)
      entryDate := je.entryDate
      periodId := (db.periods.find? je.periodId).map (·.publicId)
      entityId := je.entityId.bind fun e => (db.entities.find? e).map (·.publicId) }

structure PostJournalRequest where
  sourceType : String
  sourceId : String := ""
  currency : String
  memo : Option String := none
  lines : List JournalLineInput
  entryDate : Option String := none
  reversesOf : Option String := none

def parseSourceType (raw : String) : Except AppError SourceType :=
  foundOr (allowedSourceTypes.find? fun t => t.asStr = trim raw) (validation
    ("source_type must be one of: " ++ ", ".intercalate (allowedSourceTypes.map (·.asStr))))

/-- A manual entry without a source document gets an id of its own. -/
def parseSourceId (ctx : RequestCtx) (sourceType : SourceType) (raw : String) :
    Except AppError Uuid :=
  if trim raw = "" then
    if sourceType = .manual then .ok (ctx.fresh 5)
    else .error (validation "source_id must be a UUID for payroll")
  else foundOr (Formats.uuidParseStr (trim raw)) (validation "source_id must be a UUID")

def parseEntryDate : Option String → Except AppError (Option Date)
  | none => .ok none
  | some s => (foundOr (Formats.dateParseFromStr (trim s))
      (validation "entry_date must be YYYY-MM-DD")).map some

def parseReversesOf : Option String → Except AppError (Option Uuid)
  | none => .ok none
  | some raw => (parseJournalPublicId raw).map some

/-- The lines of a request: those of the entry it reverses, inverted, and its own after them. -/
def requestLines (body : PostJournalRequest) : Option Uuid → Tx (List LedgerLine)
  | some origId => do
    let orig ← Prog.query (·.loadEntryDto origId)
    let orig ← lift (foundOr orig (notFound "journal to reverse"))
    let inverted ← invertLines orig.lines
    let added ← explicitLines body.lines
    pure (inverted ++ added)
  | none => do
    Prog.require (body.lines ≠ []) (.error (validation "lines required"))
    explicitLines body.lines

def defaultMemo (sourceType : SourceType) (sourceId : Uuid) : Option Uuid → String
  | some rid => s!"Reversal of jrn_{Formats.uuidDisplay rid}"
  | none => s!"{sourceType.asStr} journal for {Formats.uuidDisplay sourceId}"

/-- The answer for a key that was used: the stored entry, from a transaction that is dropped. -/
def replayJournal (key : Option String) : Tx Unit :=
  match key with
  | none => pure ()
  | some k => do
    match ← Idempotency.get "journal.post" k with
    | none => pure ()
    | some stored =>
      match stored.responseBody with
      | .journal dto => Prog.fail (.answered ⟨200, .journal dto⟩)
      | _ => lift (.error (internal "stored response is not a journal entry"))

/-- One of the entries of the source document, as `LIMIT 1` picks it. -/
def fetchBySource (pick : Nat) (sourceType : SourceType) (sourceId : Uuid) :
    Tx (Option JournalEntryDto) := do
  let row ← Prog.query fun db =>
    let rows := db.sourceEntries sourceType sourceId
    rows[pick % rows.length]?
  match row with
  | some (id, _) => Prog.query (·.loadEntryDto id)
  | none => pure none

def postJournalHandler (ctx : RequestCtx) (body : PostJournalRequest) : Tx Response := do
  lift (ctx.authorize .journalPost)
  let sourceType ← lift (parseSourceType body.sourceType)
  let currency ← lift ((Currency.new body.currency).mapError fun _ => validation "invalid currency")
  let sourceId ← lift (parseSourceId ctx sourceType body.sourceId)
  let entryDate ← lift (parseEntryDate body.entryDate)
  ensureLedgerAccounts
  let reversesEntryId ← lift (parseReversesOf body.reversesOf)
  let lines ← requestLines body reversesEntryId
  Prog.require (lines ≠ []) (.error (validation "lines required"))
  let draft : JournalDraft :=
    { memo := body.memo.getD (defaultMemo sourceType sourceId reversesEntryId)
      sourceType
      sourceId
      currency
      lines
      entryDate
      reversesEntryId
      postedBy := some ctx.actorUserId }
  lift (draft.assertBalanced.mapError fun _ => validation "journal lines must balance")
  replayJournal ctx.idempotencyKey
  match ← fetchBySource (ctx.pick 2) sourceType sourceId with
  | some existing => do
    Idempotency.record ctx.idempotencyKey "journal.post" 200 (.journal existing)
    pure ⟨200, .journal existing⟩
  | none => do
    let entryId ← postJournal ctx draft
    let dto ← Prog.query (·.loadEntryDto entryId)
    let dto ← lift (foundOr dto ⟨.internal, "journal missing after post"⟩)
    Idempotency.record ctx.idempotencyKey "journal.post" 201 (.journal dto)
    pure ⟨201, .journal dto⟩

omit [Formats] in
theorem resolveActiveAccountCode_ok {code code' : String} {s t : Db}
    (h : (resolveActiveAccountCode code).run s = .ok (code', t)) : code' = code ∧ t = s := by
  simp only [resolveActiveAccountCode, Prog.run_query_bind] at h
  split at h
  · split_ifs at h
    · cases h
      exact ⟨rfl, rfl⟩
    · simp at h
  · simp at h

omit [Formats] in
theorem invertLines_ok {ls : List JournalLineInput} {inverted : List LedgerLine} {s t : Db}
    (h : (invertLines ls).run s = .ok (inverted, t)) :
    inverted = ls.map (fun l => ⟨l.accountCode, l.creditMinor, l.debitMinor, l.memo⟩) ∧ t = s := by
  induction ls generalizing inverted t with
  | nil =>
    cases h
    exact ⟨rfl, rfl⟩
  | cons l ls ih =>
    obtain ⟨code, s₁, hc, hls⟩ := Prog.run_bind_ok.mp h
    obtain ⟨rfl, rfl⟩ := resolveActiveAccountCode_ok hc
    obtain ⟨rest, s₂, hr, hp⟩ := Prog.run_bind_ok.mp hls
    obtain ⟨rfl, rfl⟩ := ih hr
    cases hp
    exact ⟨rfl, rfl⟩

omit [Formats] in
theorem explicitLines_ok {ls : List JournalLineInput} {added : List LedgerLine} {s t : Db}
    (h : (explicitLines ls).run s = .ok (added, t)) : added = ls.map (·.line) ∧ t = s := by
  induction ls generalizing added t with
  | nil =>
    cases h
    exact ⟨rfl, rfl⟩
  | cons l ls ih =>
    obtain ⟨_, hl⟩ := Prog.run_require_bind_ok.mp h
    obtain ⟨code, s₁, hc, hls⟩ := Prog.run_bind_ok.mp hl
    obtain ⟨rfl, rfl⟩ := resolveActiveAccountCode_ok hc
    obtain ⟨rest, s₂, hr, hp⟩ := Prog.run_bind_ok.mp hls
    obtain ⟨rfl, rfl⟩ := ih hr
    cases hp
    exact ⟨rfl, rfl⟩

theorem requestLines_ok {body : PostJournalRequest} {reverses : Option Uuid} {lines : List LedgerLine}
    {s t : Db} (h : (requestLines body reverses).run s = .ok (lines, t)) :
    t = s ∧ lines = s.reversedLines reverses ++ body.lines.map (·.line) := by
  cases reverses with
  | none =>
    obtain ⟨_, h⟩ := Prog.run_require_bind_ok.mp h
    obtain ⟨rfl, rfl⟩ := explicitLines_ok h
    exact ⟨rfl, rfl⟩
  | some e =>
    simp only [requestLines, Prog.run_query_bind, run_lift_bind_ok, foundOr_ok] at h
    obtain ⟨orig, horig, h⟩ := h
    obtain ⟨je, _, rfl⟩ := Option.map_eq_some_iff.mp horig
    obtain ⟨inverted, s₁, hi, ha⟩ := Prog.run_bind_ok.mp h
    obtain ⟨rfl, rfl⟩ := invertLines_ok hi
    obtain ⟨added, s₂, he, hp⟩ := Prog.run_bind_ok.mp ha
    obtain ⟨rfl, rfl⟩ := explicitLines_ok he
    cases hp
    refine ⟨rfl, ?_⟩
    simp only [Db.reversedLines, List.map_map]
    rfl

omit [Formats] in
theorem replayJournal_ok {key : Option String} {s t : Db} (h : (replayJournal key).run s = .ok ((), t)) :
    Idempotency.lookup s key "journal.post" = none ∧ t = s := by
  cases key with
  | none =>
    cases h
    exact ⟨rfl, rfl⟩
  | some k =>
    simp only [replayJournal, Idempotency.get, AnswerTable.get, Prog.run_query_bind] at h
    split at h
    · next hn =>
      cases h
      exact ⟨hn, rfl⟩
    · split at h
      · cases h
      · simp at h

omit [Formats] in
/-- `LIMIT 1` finds a row when there is one. -/
theorem getElem?_mod_none {α : Type} {l : List α} {n : Nat} : l[n % l.length]? = none ↔ l = [] := by
  rw [List.getElem?_eq_none_iff]
  constructor
  · intro h
    by_contra hne
    have := Nat.mod_lt n (List.length_pos_of_ne_nil hne)
    omega
  · rintro rfl
    exact Nat.zero_le _

theorem fetchBySource_ok {pick : Nat} {sourceType : SourceType} {sourceId : Uuid} {s t : Db}
    {found : Option JournalEntryDto}
    (h : (fetchBySource pick sourceType sourceId).run s = .ok (found, t)) :
    t = s ∧ (found = none ↔ s.sourceEntries sourceType sourceId = []) := by
  simp only [fetchBySource, Prog.run_query_bind] at h
  split at h
  · next id row hrow =>
    cases h
    have hm := List.mem_of_getElem? hrow
    have hfind := Table.find?_eq_some.mpr (List.mem_of_mem_filter hm)
    exact ⟨rfl, iff_of_false (by simp [Db.loadEntryDto, hfind]) (List.ne_nil_of_mem hm)⟩
  · next hrow =>
    cases h
    exact ⟨rfl, iff_of_true rfl (getElem?_mod_none.mp hrow)⟩

/-- A request that was not replayed by its key: the source document has an entry and nothing is
posted, or the draft was posted. -/
theorem postJournalHandler_ok {ctx : RequestCtx} {body : PostJournalRequest} {s t : Db} {r : Response}
    (h : (postJournalHandler ctx body).run s = .ok (r, t)) :
    ∃ accounts sourceType sourceId reverses, parseSourceType body.sourceType = .ok sourceType ∧
      parseSourceId ctx sourceType body.sourceId = .ok sourceId ∧
      parseReversesOf body.reversesOf = .ok reverses ∧
      Idempotency.lookup s ctx.idempotencyKey "journal.post" = none ∧
      ((s.sourceEntries sourceType sourceId ≠ [] ∧
        ∃ idempotency, t = { s with accounts, idempotency }) ∨
      (s.sourceEntries sourceType sourceId = [] ∧
        ∃ draft s' idempotency, draft.sourceType = sourceType ∧ draft.sourceId = sourceId ∧
          draft.currency.code = body.currency ∧ draft.reversesEntryId = reverses ∧
          draft.lines = s.reversedLines reverses ++ body.lines.map (·.line) ∧
          Posted ctx draft { s with accounts } s' ∧ t = { s' with idempotency })) := by
  simp only [postJournalHandler, run_lift_bind_ok, mapError_ok] at h
  obtain ⟨_, _, sourceType, htype, currency, hcur, sourceId, hsource, entryDate, _, h⟩ := h
  obtain ⟨accounts, h⟩ := run_ensureLedgerAccounts_bind h
  obtain ⟨reverses, hrev, h⟩ := run_lift_bind_ok.mp h
  obtain ⟨lines, s₁, hlines, h⟩ := Prog.run_bind_ok.mp h
  obtain ⟨rfl, hadd⟩ := requestLines_ok hlines
  simp only [Prog.run_require_bind_ok, run_lift_bind_ok] at h
  obtain ⟨_, _, _, h⟩ := h
  obtain ⟨_, s₂, hreplay, h⟩ := Prog.run_bind_ok.mp h
  obtain ⟨hkey, rfl⟩ := replayJournal_ok hreplay
  obtain ⟨found, s₃, hfound, h⟩ := Prog.run_bind_ok.mp h
  obtain ⟨rfl, hnone⟩ := fetchBySource_ok hfound
  refine ⟨accounts, sourceType, sourceId, reverses, htype, hsource, hrev, hkey, ?_⟩
  cases found with
  | some existing =>
    simp only [Idempotency.run_record_bind_ok] at h
    cases h
    refine .inl ⟨fun he => ?_, _, rfl⟩
    cases hnone.mpr he
  | none =>
    obtain ⟨entryId, s', hp, h⟩ := Prog.run_bind_ok.mp h
    simp only [Prog.run_query_bind, run_lift_bind_ok, Idempotency.run_record_bind_ok] at h
    obtain ⟨dto, _, h⟩ := h
    cases h
    refine .inr ⟨hnone.mp rfl, _, s', _, rfl, rfl, Currency.new_ok hcur, rfl, hadd.trans ?_,
      (postJournal_ok hp).2, rfl⟩
    cases reverses <;> rfl

omit [Formats] in
theorem exits_resolveActiveAccountCode (code : String) :
    (resolveActiveAccountCode code).Exits TxExit.IsError := by
  refine (Prog.exits_query _).bind fun row => ?_
  cases row with
  | none => exact exits_lift _
  | some acct =>
    change (if acct.isActive then pure code else lift _ : Tx String).Exits _
    split_ifs
    · trivial
    · exact exits_lift _

omit [Formats] in
theorem exits_invertLines (ls : List JournalLineInput) : (invertLines ls).Exits TxExit.IsError := by
  induction ls with
  | nil => trivial
  | cons l ls ih => exact (exits_resolveActiveAccountCode _).bind fun _ => ih.bind fun _ => trivial

omit [Formats] in
theorem exits_explicitLines (ls : List JournalLineInput) :
    (explicitLines ls).Exits TxExit.IsError := by
  induction ls with
  | nil => trivial
  | cons l ls ih =>
    refine (Prog.exits_require trivial).bind fun _ => ?_
    exact (exits_resolveActiveAccountCode _).bind fun _ => ih.bind fun _ => trivial

theorem exits_requestLines (body : PostJournalRequest) (reverses : Option Uuid) :
    (requestLines body reverses).Exits TxExit.IsError := by
  cases reverses with
  | none => exact (Prog.exits_require trivial).bind fun _ => exits_explicitLines _
  | some e =>
    refine (Prog.exits_query _).bind fun _ => (exits_lift _).bind fun _ => ?_
    exact (exits_invertLines _).bind fun _ => (exits_explicitLines _).bind fun _ => trivial

theorem exits_fetchBySource (pick : Nat) (sourceType : SourceType) (sourceId : Uuid) :
    (fetchBySource pick sourceType sourceId).Exits TxExit.IsError := by
  refine (Prog.exits_query _).bind fun row => ?_
  cases row with
  | none => trivial
  | some row => exact Prog.exits_query _

omit [Formats] in
theorem replayJournal_answered {key : Option String} {s : Db} {r : Response}
    (h : (replayJournal key).run s = .error (.answered r)) :
    Idempotency.lookup s key "journal.post" ≠ none := by
  cases key with
  | none => cases h
  | some k =>
    simp only [replayJournal, Idempotency.get, AnswerTable.get, Prog.run_query_bind] at h
    intro hn
    change (Idempotency.answers.rows s).find? ("journal.post", k) = none at hn
    rw [hn] at h
    cases h

omit [Formats] in
/-- Answering early is nothing a pure step does. -/
theorem run_lift_bind_answered {α β : Type} {x : Except AppError α} {g : α → Tx β} {s : Db}
    {r : Response} (h : (lift x >>= g).run s = .error (.answered r)) :
    ∃ a, (g a).run s = .error (.answered r) := by
  cases x with
  | error e => cases h
  | ok a => exact ⟨a, h⟩

/-- A success without a commit is a replay by the key. -/
theorem postJournalHandler_answered {ctx : RequestCtx} {body : PostJournalRequest} {s : Db} {r : Response}
    (h : (postJournalHandler ctx body).run s = .error (.answered r)) :
    Idempotency.lookup s ctx.idempotencyKey "journal.post" ≠ none := by
  have hne : ¬TxExit.IsError (.answered r) := fun h => h
  obtain ⟨_, h⟩ := run_lift_bind_answered h
  obtain ⟨_, h⟩ := run_lift_bind_answered h
  obtain ⟨_, h⟩ := run_lift_bind_answered h
  obtain ⟨_, h⟩ := run_lift_bind_answered h
  obtain ⟨_, h⟩ := run_lift_bind_answered h
  obtain ⟨_, s₁, hseed, h⟩ := (exits_upsertAccounts _).run_bind_error hne h
  obtain ⟨accounts, hrun⟩ := upsertAccounts_run standardAccounts s
  cases hrun.symm.trans hseed
  obtain ⟨reverses, h⟩ := run_lift_bind_answered h
  obtain ⟨_, s₂, hlines, h⟩ := (exits_requestLines _ _).run_bind_error hne h
  obtain ⟨rfl, _⟩ := requestLines_ok hlines
  obtain ⟨_, s₃, hreq, h⟩ := (Prog.exits_require trivial).run_bind_error hne h
  cases (Prog.run_require_ok.mp hreq).2
  obtain ⟨_, h⟩ := run_lift_bind_answered h
  rw [Prog.run_bind] at h
  cases hreplay : (replayJournal ctx.idempotencyKey).run { s with accounts } with
  | error e =>
    rw [hreplay] at h
    cases h
    have hused := replayJournal_answered hreplay
    exact hused
  | ok res =>
    rw [hreplay] at h
    refine absurd (Prog.Exits.run_error ?_ h) hne
    refine (exits_fetchBySource _ _ _).bind fun found => ?_
    cases found with
    | some existing => exact (Idempotency.exits_record _ _ _ _).bind fun _ => trivial
    | none =>
      refine (exits_postJournal _ _).bind fun _ => (Prog.exits_query _).bind fun _ => ?_
      exact (exits_lift _).bind fun _ => (Idempotency.exits_record _ _ _ _).bind fun _ => trivial

end Handlers

end Noxara.Finance
