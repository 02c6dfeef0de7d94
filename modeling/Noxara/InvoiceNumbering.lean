import Noxara.HandlerEffects
import Noxara.LedgerGate
import Noxara.TransactionGate

/-! Issue in any interleaving: one entry for each issued invoice and none for a draft, and the
numbers of the issued invoices are 1 to n. -/
namespace Noxara.Finance

open Transaction

def Db.issueEntries (db : Db) (id : Uuid) : List JournalEntryRow :=
  db.journalEntries.values.filter fun e => e.sourceType = .invoiceIssue ∧ e.sourceId = id

def Db.IssuedAs (db : Db) (number : String) (id : Uuid) : Prop :=
  ∃ r, db.invoices.find? id = some r ∧ r.status ≠ .draft ∧ r.invoiceNumber = some number

/-- The issued invoices of a year have the numbers 1 to `n`, each number once, and one issue entry
each; drafts have neither; the sequence goes on with `n + 1`. -/
structure Gapless (db : Db) (year : Int) (n : Nat) : Prop where
  drafts : ∀ id r, db.invoices.find? id = some r → r.status = .draft →
    r.invoiceNumber = none ∧ db.issueEntries id = []
  issued : ∀ id r, db.invoices.find? id = some r → r.status ≠ .draft →
    (db.issueEntries id).length = 1 ∧
      ∃ k : Nat, 1 ≤ k ∧ k ≤ n ∧ r.invoiceNumber = some (invoiceNumber year k)
  numbers : ∀ k : Nat, 1 ≤ k → k ≤ n → ∃! id, db.IssuedAs (invoiceNumber year k) id
  next : (db.invoiceSeq.insert year 1).find? year = some (n + 1 : Int)

variable {s t : Db} {year : Int} {n : Nat}

theorem Gapless.congr (h : Gapless s year n) (hi : t.invoices = s.invoices)
    (he : t.journalEntries = s.journalEntries) (hs : t.invoiceSeq = s.invoiceSeq) :
    Gapless t year n where
  drafts := by simpa only [Db.issueEntries, hi, he] using h.drafts
  issued := by simpa only [Db.issueEntries, hi, he] using h.issued
  numbers := by simpa only [Db.IssuedAs, hi] using h.numbers
  next := by rw [hs]; exact h.next

theorem next_seq {seq : Table Int Int} {m : Int} (h : (seq.insert year 1).find? year = some m) :
    (((seq.insert year 1).modify year (· + 1)).insert year 1).find? year = some (m + 1) := by
  have hfind : ((seq.insert year 1).modify year (· + 1)).find? year = some (m + 1) := by
    rw [Table.find?_modify_self, h]
    rfl
  rw [Table.insert_of_mem (Table.mem_keys_of_find? hfind), hfind]

variable [Formats]

theorem Issued.numbering {ctx : RequestCtx} {body : IssueInvoiceRequest} {i : Uuid}
    (h : Issued ctx body i s t) :
    ∃ row row' entry m, s.invoices.find? i = some row ∧ row.status = .draft ∧
      (s.invoiceSeq.insert ctx.today.year 1).find? ctx.today.year = some m ∧
      t.invoiceSeq = (s.invoiceSeq.insert ctx.today.year 1).modify ctx.today.year (· + 1) ∧
      t.invoices.find? i = some row' ∧ row'.status = .issued ∧
      row'.invoiceNumber = some (invoiceNumber ctx.today.year m) ∧
      (∀ j, j ≠ i → t.invoices.find? j = s.invoices.find? j) ∧
      (∀ j r, j ≠ i → s.invoices.find? j = some r →
        r.invoiceNumber ≠ some (invoiceNumber ctx.today.year m)) ∧
      t.journalEntries.values = s.journalEntries.values ++ [entry] ∧
      entry.sourceType = .invoiceIssue ∧ entry.sourceId = i := by
  obtain ⟨row, currency, m, issueDate, fxDate, due, computed, doc, base, journal, s₁, s₂, hrow, hd, _,
    hm, _, _, rfl, hj, hp, hfree, rfl⟩ := h
  obtain ⟨_, rfl⟩ := JournalDraft.balanced_ok.mp hj
  obtain ⟨entry, _, hentry, htype, hsource, _⟩ := hp.adds
  have hinv := hp.invoices
  have hseq : s₂.invoiceSeq = (s.invoiceSeq.insert ctx.today.year 1).modify ctx.today.year (· + 1) := by
    obtain ⟨_, _, _, _, _, _, rfl⟩ := hp.stored
    rfl
  have hne : ∀ j, j ≠ i → s₂.invoices.find? j = s.invoices.find? j := by
    intro j hij
    rw [hinv]
    exact Table.find?_modify_ne _ _ hij
  refine ⟨row, body.apply ctx (invoiceNumber ctx.today.year m) doc base issueDate fxDate due
    (doc.apply row), entry, m, hrow, hd, hm, hseq, ?_, rfl, rfl, fun j hij => ?_, fun j r hij hr => ?_, ?_,
    htype, hsource⟩
  · rw [Table.find?_modify_self, hinv, Table.find?_modify_self, hrow]
    rfl
  · rw [Table.find?_modify_ne _ _ hij, hne j hij]
  · exact hfree.resolve_left nofun (j, r) (Table.find?_eq_some.mp ((hne j hij).trans hr)) hij
  · exact (congrArg (List.map Prod.snd) hentry).trans List.map_append

theorem Gapless.issue {ctx : RequestCtx} {body : IssueInvoiceRequest} {i : Uuid}
    (h : Gapless s year n) (hy : ctx.today.year = year) (hi : Issued ctx body i s t) :
    Gapless t year (n + 1) := by
  obtain ⟨row, row', entry, m, hrow, hd, hm, hseq, hrow', hstatus, hnumber, hother, hfree, hentries,
    htype, hsource⟩ := hi.numbering
  subst hy
  obtain rfl : m = n + 1 := Option.some.inj (hm.symm.trans h.next)
  have hpast : ∀ k : Nat, 1 ≤ k → k ≤ n → ∀ j, j ≠ i →
      (t.IssuedAs (invoiceNumber ctx.today.year k) j ↔ s.IssuedAs (invoiceNumber ctx.today.year k) j) := by
    intro k _ _ j hj
    simp only [Db.IssuedAs, hother j hj]
  have hentry : ∀ j, t.issueEntries j = s.issueEntries j ++ if j = i then [entry] else [] := by
    intro j
    rw [Db.issueEntries, hentries, List.filter_append, Db.issueEntries]
    by_cases hj : j = i
    · simp [hj, htype, hsource]
    · simp [hj, htype, hsource, Ne.symm hj]
  have hnew : t.IssuedAs (invoiceNumber ctx.today.year (n + 1)) i :=
    ⟨row', hrow', by simp [hstatus], hnumber⟩
  have hold : ∀ k, ¬s.IssuedAs k i := by
    rintro k ⟨r, hr, hne, _⟩
    obtain rfl := Option.some.inj (hrow.symm.trans hr)
    exact hne hd
  refine ⟨fun j r hr hdraft => ?_, fun j r hr hne => ?_, fun k hk hkn => ?_, ?_⟩
  · have hj : j ≠ i := by
      rintro rfl
      obtain rfl := Option.some.inj (hrow'.symm.trans hr)
      cases hstatus.symm.trans hdraft
    rw [hother j hj] at hr
    simpa [hentry, hj] using h.drafts j r hr hdraft
  · by_cases hj : j = i
    · subst hj
      obtain rfl := Option.some.inj (hrow'.symm.trans hr)
      refine ⟨by simp [hentry, (h.drafts j row hrow hd).2], n + 1, by omega, le_rfl, ?_⟩
      exact_mod_cast hnumber
    · rw [hother j hj] at hr
      obtain ⟨hone, k, hk, hkn, hr⟩ := h.issued j r hr hne
      exact ⟨by simpa [hentry, hj] using hone, k, hk, by omega, hr⟩
  · rcases Nat.lt_or_eq_of_le hkn with hlt | rfl
    · -- An earlier number keeps its invoice: the one issued now had none and got another.
      obtain ⟨j, hj, huniq⟩ := h.numbers k hk (by omega)
      have hji : j ≠ i := fun he => hold _ (he ▸ hj)
      refine ⟨j, (hpast k hk (by omega) j hji).mpr hj, fun l hl => ?_⟩
      by_cases hli : l = i
      · subst hli
        obtain ⟨r, hr, _, hk'⟩ := hl
        obtain rfl := Option.some.inj (hrow'.symm.trans hr)
        obtain ⟨r', hr', _, hk''⟩ := hj
        exact absurd (hk''.trans (hk'.symm.trans hnumber)) (hfree j r' hji hr')
      · exact huniq l ((hpast k hk (by omega) l hli).mp hl)
    · refine ⟨i, by exact_mod_cast hnew, fun l hl => ?_⟩
      by_contra hli
      obtain ⟨r, hr, _, hk'⟩ := hl
      rw [hother l hli] at hr
      exact hfree l r hli hr (by exact_mod_cast hk')
  · rw [hseq, next_seq h.next]
    push_cast
    rfl

theorem Gapless.step {ctx : RequestCtx} {raw : String} {body : IssueInvoiceRequest} {r : Response}
    (h : Gapless s year n) (hy : ctx.today.year = year)
    (ho : (issueInvoice ctx raw body).run s = .ok (r, t)) : ∃ m, Gapless t year m := by
  obtain ⟨accounts, i, _, ⟨_, _, _, rfl⟩ | ⟨_, s', dto, hi, _, _, rfl⟩⟩ := issueInvoice_ok ho
  · exact ⟨n, h.congr rfl rfl rfl⟩
  · have hs : Gapless { s with accounts } year n := h.congr rfl rfl rfl
    exact ⟨n + 1, (hs.issue hy hi).congr rfl rfl rfl⟩

/-- In every interleaving of issues in one year, whatever fails, every committed store has the
issued invoices numbered 1 to n, with one issue entry each and none for a draft. -/
theorem gapless_interleaving {ι : Type} [DecidableEq ι] {ctx : ι → RequestCtx} {ids : ι → String}
    {body : ι → IssueInvoiceRequest} {db : Db} {c : Config ι Db RowKey TxExit Response}
    (hy : ∀ i, (ctx i).today.year = year) (h0 : ∃ n, Gapless db year n)
    (h : Reachable (fun i => issueInvoice (ctx i) (ids i) (body i)) db c) :
    ∃ n, Gapless c.db year n :=
  h.gated_invariant (I := fun s => ∃ n, Gapless s year n)
    (fun i => issueInvoice_gated (ctx i) (ids i) (body i)) h0
    fun i _ _ _ ⟨_, hs⟩ ho => hs.step (hy i) ho

theorem Db.oneDraft_gapless : Gapless Db.oneDraft 2024 0 where
  drafts id r hr _ := by
    obtain ⟨-, rfl⟩ := Prod.mk.inj (List.mem_singleton.mp (Table.find?_eq_some.mp hr))
    exact ⟨rfl, rfl⟩
  issued id r hr hne := by
    obtain ⟨-, rfl⟩ := Prod.mk.inj (List.mem_singleton.mp (Table.find?_eq_some.mp hr))
    exact absurd rfl hne
  numbers k hk hk0 := by omega
  next := rfl

def issueTwice (i : Fin 2) : Tx Response :=
  issueInvoice (.nth (1 + i)) (PublicId.mk .invoice 31).asStr {}

omit [Formats] in
theorem gapless_interleaving_twice :
    letI := canonicalFormats
    ∃ c, Reachable issueTwice Db.oneDraft c ∧
      c.log.map (fun l => (l.1, l.2.toBool)) = [(0, true), (1, false)] ∧
      ∃ n, Gapless c.db 2024 n := by
  let := canonicalFormats
  obtain ⟨c, hc, hlog⟩ := Reachable.of_play issueTwice Db.oneDraft
    (Move.through 0 36 ++ Move.through 1 20)
    (fun c => c.log.map (fun l => (l.1, l.2.toBool)) = [(0, true), (1, false)]) (by decide +kernel)
  exact ⟨c, hc, of_decide_eq_true hlog,
    gapless_interleaving (fun _ => rfl) ⟨0, Db.oneDraft_gapless⟩ hc⟩

end Noxara.Finance
