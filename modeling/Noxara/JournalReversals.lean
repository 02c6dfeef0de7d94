import Noxara.FinanceJournals
import Noxara.JournalNets

/-! Reversals of one entry over runs of accepted journal requests. A pure reversal takes away what
the entry adds, but in the currency of its own request, and nothing bounds how many are posted. -/
namespace Noxara.Finance

open Transaction

/-- What an entry adds to an account in a currency. -/
def Db.entryEffect (db : Db) (id : Uuid) (code currency : String) : Int :=
  match db.journalEntries.find? id with
  | some row => if row.currency = currency then db.entryNet id code else 0
  | none => 0

/-- The entry `r` reverses `e` and has the lines of `e` with the sides swapped, and no more. -/
def Db.PureReversal (db : Db) (e : Uuid) (r : Uuid × JournalEntryRow) : Prop :=
  r.2.reversesEntryId = some e ∧
    (db.linesOf r.1).Perm ((db.reversedLines (some e)).map (·.row r.1))

instance (db : Db) (e : Uuid) (r : Uuid × JournalEntryRow) : Decidable (db.PureReversal e r) :=
  inferInstanceAs (Decidable (_ ∧ _))

def Db.pureReversals (db : Db) (e : Uuid) : List (Uuid × JournalEntryRow) :=
  db.journalEntries.rows.filter fun r => db.PureReversal e r

def Db.reversalCurrencies (db : Db) (e : Uuid) : List String :=
  (db.pureReversals e).map (·.2.currency)

/-- What an entry and its pure reversals add together to an account in a currency. -/
def Db.reversedEffect (db : Db) (e : Uuid) (code currency : String) : Int :=
  db.entryEffect e code currency +
    ((db.pureReversals e).map fun r => db.entryEffect r.1 code currency).sum

theorem JournalLineRow.netOn_inverted (l : JournalLineRow) (id : Uuid) (code : String) :
    (l.inverted.row id).netOn code = -l.netOn code := by
  by_cases h : l.accountCode = code <;>
    simp [JournalLineRow.netOn, LedgerLine.row, JournalLineRow.inverted, h]

theorem Db.PureReversal.entryNet {db : Db} {e : Uuid} {r : Uuid × JournalEntryRow}
    (h : db.PureReversal e r) (code : String) : db.entryNet r.1 code = -db.entryNet e code := by
  have hperm := (h.2.map (·.netOn code)).sum_eq
  simp only [Db.entryNet, hperm, Db.reversedLines, List.map_map, Function.comp_def,
    JournalLineRow.netOn_inverted, List.sum_neg]

theorem sum_map_ite_eq_count (cs : List String) (c : String) (x : Int) :
    (cs.map fun d => if d = c then x else 0).sum = cs.count c * x := by
  induction cs with
  | nil => simp
  | cons d cs ih =>
    rw [List.map_cons, List.sum_cons, ih, List.count_cons]
    by_cases h : d = c <;> simp [h, add_mul, add_comm]

theorem Db.reversedEffect_eq {db : Db} {e : Uuid} {je : JournalEntryRow}
    (he : db.journalEntries.find? e = some je) (code currency : String) :
    db.reversedEffect e code currency =
      ([je.currency].count currency - (db.reversalCurrencies e).count currency) * db.entryNet e code := by
  have hrev : ((db.pureReversals e).map fun r => db.entryEffect r.1 code currency) =
      (db.reversalCurrencies e).map fun d => if d = currency then -db.entryNet e code else 0 := by
    rw [Db.reversalCurrencies, List.map_map]
    refine List.map_congr_left fun r hr => ?_
    obtain ⟨hm, hp⟩ := List.mem_filter.mp hr
    have hfind := Table.find?_eq_some.mpr hm
    simp only [Db.entryEffect, hfind, Function.comp_apply, (of_decide_eq_true hp).entryNet]
  have hown : db.entryEffect e code currency =
      [je.currency].count currency * db.entryNet e code := by
    simp only [Db.entryEffect, he, List.count_singleton]
    by_cases h : je.currency = currency <;> simp [h]
  rw [Db.reversedEffect, hrev, sum_map_ite_eq_count, hown, sub_mul, mul_neg, sub_eq_add_neg]

/-- Entry and reversals cancel exactly when there is nothing to cancel, or there is one reversal
and it is in the currency of the entry. -/
theorem Db.reversedEffect_zero_iff {db : Db} {e : Uuid} {je : JournalEntryRow}
    (he : db.journalEntries.find? e = some je) :
    (∀ code currency, db.reversedEffect e code currency = 0) ↔
      (∀ code, db.entryNet e code = 0) ∨ db.reversalCurrencies e = [je.currency] := by
  constructor
  · intro h
    by_cases hz : ∀ code, db.entryNet e code = 0
    · exact .inl hz
    · obtain ⟨code, hne⟩ := not_forall.mp hz
      refine .inr (List.perm_singleton.mp (List.perm_iff_count.mpr fun currency => ?_))
      have hc := h code currency
      rw [Db.reversedEffect_eq he] at hc
      have := (mul_eq_zero.mp hc).resolve_right hne
      omega
  · rintro (hz | hc) code currency
    · rw [Db.reversedEffect_eq he, hz, mul_zero]
    · rw [Db.reversedEffect_eq he, hc, sub_self, zero_mul]

section Requests
variable [Formats]

/-- A posting that takes over the lines of an entry, swapped, adds a pure reversal of it when it
adds no lines of its own. -/
theorem Posted.reversalCurrencies {ctx : RequestCtx} {draft : JournalDraft} {s t : Db}
    (h : Posted ctx draft s t) (hfk : s.LinesBelong) {e : Uuid} {je : JournalEntryRow}
    (he : s.journalEntries.find? e = some je) {added : List LedgerLine}
    (hlines : draft.lines = s.reversedLines draft.reversesEntryId ++ added) :
    t.reversalCurrencies e = s.reversalCurrencies e ++
      if draft.reversesEntryId = some e ∧ added = [] then [draft.currency.code] else [] := by
  have hne : e ≠ ctx.fresh 0 := by
    rintro rfl
    cases he.symm.trans h.unused
  have hrev : t.reversedLines (some e) = s.reversedLines (some e) := by
    simp only [Db.reversedLines, h.linesOf_of_ne hne]
  have hold : ∀ r ∈ s.journalEntries.rows, t.PureReversal e r ↔ s.PureReversal e r := by
    intro r hr
    have hr' : r.1 ≠ ctx.fresh 0 := by
      rintro hid
      have := Table.find?_eq_some.mpr (hid ▸ hr : (ctx.fresh 0, r.2) ∈ s.journalEntries.rows)
      cases this.symm.trans h.unused
    simp only [Db.PureReversal, h.linesOf_of_ne hr', hrev]
  obtain ⟨_, pid, _, _, _, _, ht⟩ := h.stored
  have hnew : t.PureReversal e (ctx.fresh 0, draft.row ctx (ctx.fresh 0) pid) ↔
      draft.reversesEntryId = some e ∧ added = [] := by
    simp only [Db.PureReversal, h.linesOf_new hfk, hrev, JournalDraft.row]
    refine and_congr_right fun hr => ?_
    rw [hlines, hr, List.map_append]
    constructor
    · intro hp
      have := hp.length_eq
      simp only [List.length_append, List.length_map] at this
      exact List.eq_nil_of_length_eq_zero (by omega)
    · rintro rfl
      simp
  have hrows : t.journalEntries.rows = s.journalEntries.rows ++
      [(ctx.fresh 0, draft.row ctx (ctx.fresh 0) pid)] := by
    rw [ht]
    exact Table.rows_insert h.unused _
  simp only [Db.reversalCurrencies, Db.pureReversals, hrows, List.filter_append, List.map_append]
  congr 1
  · exact congrArg _ (List.filter_congr fun r hr => decide_eq_decide.mpr (hold r hr))
  · by_cases hr : draft.reversesEntryId = some e ∧ added = []
    · rw [if_pos hr, List.filter_singleton, decide_eq_true (hnew.mpr hr)]
      rfl
    · rw [if_neg hr, List.filter_singleton, decide_eq_false (hr ∘ hnew.mp)]
      rfl

structure JournalRequest where
  ctx : RequestCtx
  body : PostJournalRequest

/-- The ledger after an accepted request: what it committed, or the same when it was answered from
the store. -/
def JournalRequest.serve (req : JournalRequest) (s : Db) : Option Db :=
  match (postJournalHandler req.ctx req.body).run s with
  | .ok (_, t) => some t
  | .error (.answered _) => some s
  | .error (.error _) => none

/-- Accepted requests one after another, each with the ledger it started from. -/
inductive JournalRun : Db → List (Db × JournalRequest) → Db → Prop
  | nil (s : Db) : JournalRun s [] s
  | step {s t u steps req} (prior : JournalRun s steps t) (served : JournalRequest.serve req t = some u) :
      JournalRun s (steps ++ [(t, req)]) u

namespace JournalRequest
variable (req : JournalRequest)

def source : Except AppError (SourceType × Uuid) := do
  let sourceType ← parseSourceType req.body.sourceType
  let sourceId ← parseSourceId req.ctx sourceType req.body.sourceId
  .ok (sourceType, sourceId)

/-- The source document has no entry yet. -/
def FreshSource (db : Db) : Prop :=
  match req.source with
  | .ok (sourceType, sourceId) => db.sourceEntries sourceType sourceId = []
  | .error _ => False

/-- The request asks for a pure reversal of `e`, with a source document of its own. -/
def AsksReversal (e : Uuid) (db : Db) : Prop :=
  parseReversesOf req.body.reversesOf = .ok (some e) ∧ req.body.lines = [] ∧ req.FreshSource db

/-- The request posts a pure reversal of `e`: it asks for one, and its key is unused. -/
def Reverses (e : Uuid) (db : Db) : Prop :=
  req.AsksReversal e db ∧ Idempotency.lookup db req.ctx.idempotencyKey "journal.post" = none

instance (db : Db) : Decidable (req.FreshSource db) := by
  unfold FreshSource
  split <;> infer_instance

instance (e : Uuid) (db : Db) : Decidable (req.AsksReversal e db) :=
  inferInstanceAs (Decidable (_ ∧ _))

instance (e : Uuid) (db : Db) : Decidable (req.Reverses e db) := inferInstanceAs (Decidable (_ ∧ _))

end JournalRequest

theorem serve_reversals {req : JournalRequest} {s t : Db} (h : req.serve s = some t)
    (hfk : s.LinesBelong) {e : Uuid} {je : JournalEntryRow}
    (he : s.journalEntries.find? e = some je) :
    t.LinesBelong ∧ t.journalEntries.find? e = some je ∧ t.linesOf e = s.linesOf e ∧
      t.reversalCurrencies e = s.reversalCurrencies e ++
        if req.Reverses e s then [req.body.currency] else [] := by
  unfold JournalRequest.serve at h
  split at h
  · next r t' hrun =>
    cases h
    obtain ⟨accounts, sourceType, sourceId, reverses, htype, hsource, hrev, hkey, hcase⟩ :=
      postJournalHandler_ok hrun
    have hsrc : req.source = .ok (sourceType, sourceId) := by
      simp [JournalRequest.source, htype, hsource, bind, Except.bind]
    rcases hcase with ⟨hold, idempotency, rfl⟩ | ⟨hfresh, draft, s', idempotency, _, _, hcur,
      hdraft, hlines, hp, rfl⟩
    · have hno : ¬req.Reverses e s := by
        rintro ⟨⟨_, _, hf⟩, _⟩
        rw [JournalRequest.FreshSource, hsrc] at hf
        exact hold hf
      rw [if_neg hno, List.append_nil]
      exact ⟨hfk, he, rfl, rfl⟩
    · have hne : e ≠ req.ctx.fresh 0 := by
        rintro rfl
        cases he.symm.trans hp.unused
      have hcurrencies := hp.reversalCurrencies hfk he (hlines.trans (by rw [hdraft]; rfl))
      have hiff : req.Reverses e s ↔ draft.reversesEntryId = some e ∧ req.body.lines.map (·.line) = [] := by
        simp only [JournalRequest.Reverses, JournalRequest.AsksReversal, JournalRequest.FreshSource,
          hsrc, hfresh, hkey, hrev, hdraft, Except.ok.injEq, and_true, List.map_eq_nil_iff]
      have hfind : s'.journalEntries.find? e = some je := by
        obtain ⟨_, _, _, _, _, _, rfl⟩ := hp.stored
        exact Table.find?_insert_of_some he _
      refine ⟨hp.linesBelong hfk, hfind, hp.linesOf_of_ne hne, hcurrencies.trans ?_⟩
      simp only [hiff, hcur]
      rfl
  · next r hrun =>
    cases h
    have hno : ¬req.Reverses e s := fun hr => postJournalHandler_answered hrun hr.2
    rw [if_neg hno, List.append_nil]
    exact ⟨hfk, he, rfl, rfl⟩
  · cases h

/-- The reversals at the end of a run: those there were, and one for each request that posted one. -/
theorem run_reversals {s t : Db} {steps : List (Db × JournalRequest)} (h : JournalRun s steps t)
    (hfk : s.LinesBelong) {e : Uuid} {je : JournalEntryRow}
    (he : s.journalEntries.find? e = some je) :
    t.LinesBelong ∧ t.journalEntries.find? e = some je ∧ t.linesOf e = s.linesOf e ∧
      t.reversalCurrencies e = s.reversalCurrencies e ++
        (steps.filter fun x => x.2.Reverses e x.1).map (·.2.body.currency) := by
  induction h with
  | nil => exact ⟨hfk, he, rfl, by simp⟩
  | @step t u steps req _ served ih =>
    obtain ⟨hfk, he, hl, hc⟩ := ih
    obtain ⟨hfk, he, hl', hc'⟩ := serve_reversals served hfk he
    refine ⟨hfk, he, hl'.trans hl, ?_⟩
    rw [hc', hc, List.filter_append, List.map_append, List.append_assoc, List.filter_singleton]
    by_cases hr : req.Reverses e t <;> simp [hr]

/-- An entry and its pure reversals cancel on every account and currency exactly when the entry
nets to nothing anyway, or it has one reversal, from before the run or posted in it, and that
reversal was asked for in the currency of the entry. -/
theorem reversals_cancel_iff {s t : Db} {steps : List (Db × JournalRequest)} {e : Uuid}
    {je : JournalEntryRow} (hfk : s.LinesBelong) (he : s.journalEntries.find? e = some je)
    (h : JournalRun s steps t) :
    (∀ code currency, t.reversedEffect e code currency = 0) ↔
      (∀ code, s.entryNet e code = 0) ∨
        s.reversalCurrencies e ++
          (steps.filter fun x => x.2.Reverses e x.1).map (·.2.body.currency) = [je.currency] := by
  obtain ⟨_, het, hl, hc⟩ := run_reversals h hfk he
  rw [Db.reversedEffect_zero_iff het, hc]
  simp only [Db.entryNet, hl]

/-- Serve the requests, as long as they are accepted. -/
def JournalRun.play : List JournalRequest → Db → List (Db × JournalRequest) →
    Option (List (Db × JournalRequest) × Db)
  | [], s, done => some (done, s)
  | req :: reqs, s, done =>
    match req.serve s with
    | some t => play reqs t (done ++ [(s, req)])
    | none => none

theorem JournalRun.play_runs {reqs : List JournalRequest} {s₀ s t : Db}
    {done steps : List (Db × JournalRequest)} (h0 : JournalRun s₀ done s)
    (h : JournalRun.play reqs s done = some (steps, t)) : JournalRun s₀ steps t := by
  induction reqs generalizing s done with
  | nil =>
    cases h
    exact h0
  | cons req reqs ih =>
    simp only [JournalRun.play] at h
    split at h
    · next hr => exact ih (h0.step hr) h
    · cases h

theorem JournalRun.of_play (reqs : List JournalRequest) (s : Db)
    (P : List (Db × JournalRequest) → Db → Bool)
    (h : (JournalRun.play reqs s []).any (fun r => P r.1 r.2) = true) :
    ∃ steps t, JournalRun s steps t ∧ P steps t = true := by
  obtain ⟨⟨steps, t⟩, hp, hP⟩ := (Option.any_eq_true _ _).mp h
  exact ⟨steps, t, JournalRun.play_runs (.nil s) hp, hP⟩

def reverseOneEntry (currency : String) : JournalRequest where
  ctx := .nth 1
  body :=
    { sourceType := "manual"
      currency
      lines := []
      reversesOf := some (journalPublicId 41) }

theorem Db.oneEntry_linesBelong : Db.oneEntry.LinesBelong := by
  intro l hl
  simp only [Db.oneEntry, List.mem_cons, List.not_mem_nil, or_false] at hl
  rcases hl with rfl | rfl <;> rfl

omit [Formats] in
theorem reversals_cancel_iff_dollar :
    letI := canonicalFormats
    ∃ steps t, JournalRun Db.oneEntry steps t ∧ steps.length = 1 ∧
      ((∀ code currency, t.reversedEffect 41 code currency = 0) ↔
        (∀ code, Db.oneEntry.entryNet 41 code = 0) ∨
          Db.oneEntry.reversalCurrencies 41 ++
            (steps.filter fun x => x.2.Reverses 41 x.1).map (·.2.body.currency) = ["USD"]) := by
  let := canonicalFormats
  obtain ⟨steps, t, hrun, hlen⟩ := JournalRun.of_play [reverseOneEntry "USD"] Db.oneEntry
    (fun steps _ => steps.length = 1) (by decide +kernel)
  exact ⟨steps, t, hrun, of_decide_eq_true hlen,
    reversals_cancel_iff Db.oneEntry_linesBelong (Table.find?_insert_self rfl _) hrun⟩

omit [Formats] in
/-- A dollar reversed in euros: both stay on the account. -/
theorem reversal_in_euros :
    letI := canonicalFormats
    ∃ steps t, JournalRun Db.oneEntry steps t ∧ (∃ x ∈ steps, x.2.AsksReversal 41 x.1) ∧
      t.reversedEffect 41 codes.CASH "USD" = 100 ∧ t.reversedEffect 41 codes.CASH "EUR" = -100 := by
  let := canonicalFormats
  obtain ⟨steps, t, hrun, ht⟩ := JournalRun.of_play [reverseOneEntry "EUR"] Db.oneEntry
    (fun steps t => (∃ x ∈ steps, x.2.AsksReversal 41 x.1) ∧
      t.reversedEffect 41 codes.CASH "USD" = 100 ∧ t.reversedEffect 41 codes.CASH "EUR" = -100)
    (by decide +kernel)
  exact ⟨steps, t, hrun, of_decide_eq_true ht⟩

end Requests

end Noxara.Finance
