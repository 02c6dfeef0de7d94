import Noxara.FinanceJournal

/-! What the journal adds up to: on an account, in one entry, and over the entries that come
from a kind of source document. -/
namespace Noxara.Finance

open Transaction

def Db.accountNet (db : Db) (code : String) : Int := (db.journalLines.map (·.netOn code)).sum

def JournalDraft.net (d : JournalDraft) (code : String) : Int :=
  (d.lines.map fun l => (l.row 0).netOn code).sum

/-- The lines of an entry on an account, whatever its currency. -/
def Db.entryNet (db : Db) (id : Uuid) (code : String) : Int :=
  ((db.linesOf id).map (·.netOn code)).sum

/-- The foreign key of the journal lines. -/
def Db.LinesBelong (db : Db) : Prop :=
  ∀ l ∈ db.journalLines, (db.journalEntries.find? l.entryId).isSome

/-- The entries that come from the sources `p` picks. -/
def Db.entriesFrom (db : Db) (p : SourceType → Uuid → Bool) : List (Uuid × JournalEntryRow) :=
  db.journalEntries.rows.filter fun r => p r.2.sourceType r.2.sourceId

/-- What the lines of those entries add up to. -/
def Db.sumFrom (db : Db) (p : SourceType → Uuid → Bool) (f : JournalLineRow → Int) : Int :=
  ((db.entriesFrom p).map fun r => ((db.linesOf r.1).map f).sum).sum

theorem addLine_ok {acc acc' : Int × Int} {l : LedgerLine} (h : addLine acc l = .ok acc') :
    acc' = (acc.1 + l.debitMinor, acc.2 + l.creditMinor) := by
  simp only [addLine, bind_ok] at h
  obtain ⟨debit, hd, credit, hc, h⟩ := h
  split_ifs at h
  cases h
  rw [(checked_ok.mp hd).2, (checked_ok.mp hc).2]

theorem foldlM_addLine_ok {ls : List LedgerLine} {acc acc' : Int × Int}
    (h : ls.foldlM addLine acc = .ok acc') :
    acc' = (acc.1 + (ls.map (·.debitMinor)).sum, acc.2 + (ls.map (·.creditMinor)).sum) := by
  induction ls generalizing acc with
  | nil =>
    cases h
    simp
  | cons l ls ih =>
    simp only [List.foldlM_cons, bind_ok] at h
    obtain ⟨mid, hl, h⟩ := h
    rw [ih h, addLine_ok hl]
    simp [add_assoc]

theorem JournalDraft.debits_eq_credits {d : JournalDraft} (h : d.assertBalanced = .ok ()) :
    (d.lines.map (·.debitMinor)).sum = (d.lines.map (·.creditMinor)).sum := by
  simp only [assertBalanced, bind_ok] at h
  obtain ⟨⟨debit, credit⟩, hsum, h⟩ := h
  have he := foldlM_addLine_ok hsum
  split_ifs at h with hne
  simp only [Prod.mk.injEq, zero_add] at he
  rw [← he.1, ← he.2]
  exact not_not.mp hne

section Posting
variable [Formats] {ctx : RequestCtx} {draft : JournalDraft} {s t : Db}

theorem Posted.accountNet (h : Posted ctx draft s t) (code : String) :
    t.accountNet code = s.accountNet code + draft.net code := by
  obtain ⟨_, _, _, _, _, _, rfl⟩ := h.stored
  simp only [Db.accountNet, JournalDraft.net, List.map_append, List.sum_append, List.map_map]
  rfl

theorem Posted.linesOf_of_ne (h : Posted ctx draft s t) {id : Uuid} (hid : id ≠ ctx.fresh 0) :
    t.linesOf id = s.linesOf id := by
  obtain ⟨_, _, _, _, _, _, rfl⟩ := h.stored
  simp only [Db.linesOf, List.filter_append, List.append_right_eq_self, List.filter_eq_nil_iff]
  intro l hl
  obtain ⟨x, _, rfl⟩ := List.mem_map.mp hl
  exact fun hx => hid (of_decide_eq_true hx).symm

theorem Posted.linesOf_new (h : Posted ctx draft s t) (hfk : s.LinesBelong) :
    t.linesOf (ctx.fresh 0) = draft.lines.map (·.row (ctx.fresh 0)) := by
  have hold : s.linesOf (ctx.fresh 0) = [] := by
    refine List.filter_eq_nil_iff.mpr fun l hl he => ?_
    have := hfk l hl
    rw [of_decide_eq_true he, h.unused] at this
    cases this
  obtain ⟨_, _, _, _, _, _, rfl⟩ := h.stored
  simp only [Db.linesOf] at hold
  simp only [Db.linesOf, List.filter_append, hold, List.nil_append, List.filter_eq_self]
  intro l hl
  obtain ⟨x, _, rfl⟩ := List.mem_map.mp hl
  simp [LedgerLine.row]

theorem Posted.linesBelong (h : Posted ctx draft s t) (hfk : s.LinesBelong) : t.LinesBelong := by
  obtain ⟨_, _, _, _, _, _, rfl⟩ := h.stored
  intro l hl
  rcases List.mem_append.mp hl with hl | hl
  · obtain ⟨row, hrow⟩ := Option.isSome_iff_exists.mp (hfk l hl)
    exact Option.isSome_iff_exists.mpr ⟨row, Table.find?_insert_of_some hrow _⟩
  · obtain ⟨x, _, rfl⟩ := List.mem_map.mp hl
    exact Option.isSome_iff_exists.mpr ⟨_, Table.find?_insert_self h.unused _⟩

theorem Posted.entriesFrom (h : Posted ctx draft s t) (p : SourceType → Uuid → Bool) :
    ∃ row, t.entriesFrom p = s.entriesFrom p ++
      if p draft.sourceType draft.sourceId then [(ctx.fresh 0, row)] else [] := by
  obtain ⟨row, _, hrows, hsource, hid, _⟩ := h.adds
  refine ⟨row, ?_⟩
  simp only [Db.entriesFrom, hrows, List.filter_append, List.filter_singleton, hsource, hid]
  cases p draft.sourceType draft.sourceId <;> rfl

/-- A posting adds the lines of the draft when its source is picked, and nothing otherwise. -/
theorem Posted.sumFrom (h : Posted ctx draft s t) (hfk : s.LinesBelong)
    (p : SourceType → Uuid → Bool) (f : JournalLineRow → Int) :
    t.sumFrom p f = s.sumFrom p f + if p draft.sourceType draft.sourceId then
      (draft.lines.map fun l => f (l.row (ctx.fresh 0))).sum else 0 := by
  have hold : (s.entriesFrom p).map (fun r => ((t.linesOf r.1).map f).sum) =
      (s.entriesFrom p).map fun r => ((s.linesOf r.1).map f).sum := by
    refine List.map_congr_left fun r hr => ?_
    have hne : r.1 ≠ ctx.fresh 0 := by
      intro he
      have hfind := Table.find?_eq_some.mpr (List.mem_filter.mp hr).1
      rw [he, h.unused] at hfind
      cases hfind
    rw [h.linesOf_of_ne hne]
  obtain ⟨row, hrows⟩ := h.entriesFrom p
  simp only [Db.sumFrom, hrows, List.map_append, List.sum_append, hold]
  cases p draft.sourceType draft.sourceId with
  | false => simp
  | true => simp [h.linesOf_new hfk, List.map_map, Function.comp_def]

end Posting

end Noxara.Finance
