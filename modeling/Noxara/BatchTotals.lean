import Noxara.ReimbursementBatches

/-! Whether a reimbursement batch is worth the expenses in it. The loop over the request counts an expense each time
its id is repeated, and the expense joins the batch once. -/
namespace Noxara.Reimbursements

open Transaction
open Finance (Uuid Timestamp AppError Formats parsePublicId canonicalFormats)

/-- The expense can be put into a batch in this currency. -/
def Db.Eligible (db : Db) (currency : String) (eid : Uuid) : Prop :=
  ∃ row, db.expenses.find? eid = some row ∧ (row.status = .posted ∨ row.status = .approved) ∧
    row.reimbursementBatchId = none ∧ row.currency = currency

def amountIn (t : Table Uuid ExpenseRow) (eid : Uuid) : Int := (t.find? eid).elim 0 (·.amountMinor)

/-- What the loop has collected after the ids `eids`. -/
structure Collects (s : Db) (eids : List Uuid) (acc out : Collected) : Prop where
  expenses : out.expenses = acc.expenses ++ eids
  total : out.totalMinor = acc.totalMinor + (eids.map (amountIn s.expenses)).sum
  keeps : ∀ c, acc.currency = some c → out.currency = some c
  eligible : ∀ eid ∈ eids, ∃ c, out.currency = some c ∧ s.Eligible c eid

theorem Collects.append {s : Db} {eids more : List Uuid} {acc mid out : Collected} (h : Collects s eids acc mid)
    (h' : Collects s more mid out) : Collects s (eids ++ more) acc out where
  expenses := by rw [h'.expenses, h.expenses, List.append_assoc]
  total := by rw [h'.total, h.total, List.map_append, List.sum_append, Int.add_assoc]
  keeps c hc := h'.keeps c (h.keeps c hc)
  eligible eid he := by
    rcases List.mem_append.mp he with he | he
    · obtain ⟨c, hc, hel⟩ := h.eligible eid he
      exact ⟨c, h'.keeps c hc, hel⟩
    · exact h'.eligible eid he

section
variable [Formats]

theorem collectExpense_ok {raw : String} {acc out : Collected} {s t : Db}
    (h : (collectExpense raw acc).run s = .ok (out, t)) :
    t = s ∧ ∃ eid, parsePublicId .expense raw = .ok eid ∧ Collects s [eid] acc out := by
  simp only [collectExpense, Prog.run_ofExcept_bind_ok, Prog.run_query_bind, Prog.run_okOr_bind_ok,
    Prog.run_require_bind_ok] at h
  obtain ⟨eid, heid, row, hrow, hstatus, hbatch, hcurrency, total, htotal, h⟩ := h
  have hsum : acc.totalMinor + row.amountMinor = total := by
    cases hc : Finance.checked (acc.totalMinor + row.amountMinor) with
    | error e =>
      rw [hc] at htotal
      cases htotal
    | ok x =>
      rw [hc] at htotal
      cases htotal
      exact (Finance.checked_ok.mp hc).2
  cases h
  refine ⟨rfl, eid, heid, rfl, ?_, ?_, ?_⟩
  · simp [amountIn, hrow, hsum]
  · intro c hc
    simp [hc]
  · intro x hx
    obtain rfl := List.mem_singleton.mp hx
    exact ⟨_, rfl, row, hrow, hstatus, hbatch, hcurrency.symm⟩

theorem collectExpenses_ok {raws : List String} {acc out : Collected} {s t : Db}
    (h : (collectExpenses raws acc).run s = .ok (out, t)) :
    t = s ∧ ∃ eids, raws.map (parsePublicId .expense) = eids.map .ok ∧ Collects s eids acc out := by
  induction raws generalizing acc with
  | nil =>
    cases h
    exact ⟨rfl, [], rfl, by simp, by simp, fun _ hc => hc, by simp⟩
  | cons raw raws ih =>
    obtain ⟨mid, u, hraw, hrest⟩ := Prog.run_bind_ok.mp h
    obtain ⟨rfl, eid, heid, hone⟩ := collectExpense_ok hraw
    obtain ⟨rfl, eids, heids, hmore⟩ := ih hrest
    exact ⟨rfl, eid :: eids, by simp [heid, heids], hone.append hmore⟩

end

def batchSum (batchId : Uuid) (t : Table Uuid ExpenseRow) : Int :=
  t.sumBy fun x => if x.reimbursementBatchId = some batchId then x.amountMinor else 0

def joinAll (batchId : Uuid) (now : Timestamp) (eids : List Uuid) (t : Table Uuid ExpenseRow) :
    Table Uuid ExpenseRow :=
  eids.foldl (fun t eid => t.modify eid (·.join batchId now)) t

def Outside (batchId : Uuid) (t : Table Uuid ExpenseRow) (eids : List Uuid) : Prop :=
  ∀ eid ∈ eids, ∀ x, t.find? eid = some x → x.reimbursementBatchId ≠ some batchId

section
variable {batchId : Uuid} {now : Timestamp} {t : Table Uuid ExpenseRow}

theorem amountIn_modify (eid other : Uuid) :
    amountIn (t.modify eid (·.join batchId now)) other = amountIn t other := by
  by_cases h : other = eid
  · subst h
    unfold amountIn
    rw [Table.find?_modify_self]
    cases t.find? other <;> rfl
  · unfold amountIn
    rw [Table.find?_modify_ne _ _ h]

theorem batchSum_modify {eid : Uuid} {row : ExpenseRow} (h : t.find? eid = some row) :
    batchSum batchId (t.modify eid (·.join batchId now)) =
      batchSum batchId t + if row.reimbursementBatchId = some batchId then 0 else row.amountMinor := by
  rw [batchSum, batchSum, Table.sumBy_modify h]
  simp only [ExpenseRow.join, if_true]
  split_ifs <;> omega

theorem outside_modify {eid : Uuid} {row : ExpenseRow} (h : t.find? eid = some row) (eids : List Uuid) :
    Outside batchId (t.modify eid (·.join batchId now)) eids ↔ eid ∉ eids ∧ Outside batchId t eids := by
  constructor
  · intro hout
    have hnot : eid ∉ eids := by
      intro hmem
      refine hout eid hmem (row.join batchId now) ?_ rfl
      rw [Table.find?_modify_self, h]
      rfl
    refine ⟨hnot, fun other hother x hx => hout other hother x ?_⟩
    have hne : other ≠ eid := by
      rintro rfl
      exact hnot hother
    rwa [Table.find?_modify_ne _ _ hne]
  · rintro ⟨hnot, hout⟩ other hother x hx
    have hne : other ≠ eid := by
      rintro rfl
      exact hnot hother
    rw [Table.find?_modify_ne _ _ hne] at hx
    exact hout other hother x hx

/-- The batch gains at most the amounts of the list, and all of them only when no id is repeated. -/
theorem batchSum_joinAll (batchId : Uuid) (now : Timestamp) {t : Table Uuid ExpenseRow} (eids : List Uuid)
    (hfound : ∀ eid ∈ eids, (t.find? eid).isSome) :
    batchSum batchId (joinAll batchId now eids t) ≤ batchSum batchId t + (eids.map (amountIn t)).sum ∧
      (batchSum batchId (joinAll batchId now eids t) = batchSum batchId t + (eids.map (amountIn t)).sum ↔
        eids.Nodup ∧ Outside batchId t eids) := by
  induction eids generalizing t with
  | nil => simp [joinAll, Outside]
  | cons eid eids ih =>
    obtain ⟨row, hrow⟩ := Option.isSome_iff_exists.mp (hfound eid (List.mem_cons_self ..))
    have hstill : ∀ other ∈ eids, ((t.modify eid (·.join batchId now)).find? other).isSome := by
      intro other hother
      rw [Table.isSome_find?_modify]
      exact hfound other (List.mem_cons_of_mem _ hother)
    have hrest := ih hstill
    have hamounts : eids.map (amountIn (t.modify eid (·.join batchId now))) = eids.map (amountIn t) :=
      List.map_congr_left fun other _ => amountIn_modify eid other
    have hamount : amountIn t eid = row.amountMinor := by simp [amountIn, hrow]
    have hpositive := row.positive
    rw [hamounts, batchSum_modify hrow, outside_modify hrow] at hrest
    simp only [joinAll, List.foldl_cons, List.map_cons, List.sum_cons, List.nodup_cons, hamount] at hrest ⊢
    have hcons : Outside batchId t (eid :: eids) ↔
        row.reimbursementBatchId ≠ some batchId ∧ Outside batchId t eids := by
      simp [Outside, hrow]
    rw [hcons]
    obtain ⟨hle, hiff⟩ := hrest
    split_ifs at hle hiff with hin
    · constructor
      · omega
      · constructor
        · intro heq
          omega
        · rintro ⟨_, hne, _⟩
          exact absurd hin hne
    · constructor
      · omega
      · rw [← Int.add_assoc, hiff]
        tauto

theorem find?_joinAll (eids : List Uuid) (id : Uuid) :
    (joinAll batchId now eids t).find? id =
      (t.find? id).map fun x => if id ∈ eids then x.join batchId now else x := by
  induction eids generalizing t with
  | nil => simp [joinAll]
  | cons eid eids ih =>
    rw [joinAll, List.foldl_cons, ← joinAll, ih]
    by_cases h : id = eid
    · subst h
      rw [Table.find?_modify_self, Option.map_map]
      congr 1
      funext x
      by_cases hin : id ∈ eids <;> simp [hin, ExpenseRow.join]
    · rw [Table.find?_modify_ne _ _ h]
      simp [h]

end

theorem run_joinBatches (ctx : RequestCtx) (eids : List Uuid) (s : Db) :
    (Prog.each (joinBatch ctx) eids).run s =
      .ok ((), { s with expenses := joinAll ctx.batchId ctx.now eids s.expenses }) := by
  have hone : ∀ eid (u : Db), (joinBatch ctx eid).run u =
      .ok ((), { u with expenses := u.expenses.modify eid (·.join ctx.batchId ctx.now) }) := by
    intro eid u
    simp [joinBatch, Prog.run_execute, Except.map]
  rw [Prog.run_each hone]
  congr 2
  induction eids generalizing s with
  | nil => rfl
  | cons eid eids ih => exact ih _

theorem run_record_ok {key : Option String} {scope : String} {status : Int} {dto : ReimbursementBatchDto} {s t : Db}
    {u : Unit} (h : (Idempotency.record key scope status dto).run s = .ok (u, t)) :
    t.expenses = s.expenses ∧ t.batches = s.batches := by
  cases (AnswerTable.run_record_ok (t := Idempotency.answers) fun _ => rfl).mp h
  exact ⟨rfl, rfl⟩

theorem answerWith_expenses (ctx : RequestCtx) (t : Db) (a : Answer) :
    (answerWith ctx t a).2.expenses = t.expenses := by
  unfold answerWith
  split
  · rfl
  · split <;> rfl

/-- The linked approval leaves the row's other columns. -/
theorem answerWith_batch {ctx : RequestCtx} {t : Db} {a : Answer} {batchId : Uuid} {batch : BatchRow}
    (h : (answerWith ctx t a).2.batches.find? batchId = some batch) :
    ∃ row, t.batches.find? batchId = some row ∧ batch.totalMinor = row.totalMinor ∧
      batch.currency = row.currency := by
  unfold answerWith at h
  split at h
  · exact ⟨batch, h, rfl, rfl⟩
  · split at h
    · exact ⟨batch, h, rfl, rfl⟩
    · simp only [Db.linkApproval, Table.modify, Table.find?_mapRows, Option.map_eq_some_iff] at h
      obtain ⟨row, hrow, rfl⟩ := h
      refine ⟨row, hrow, ?_⟩
      split_ifs <;> exact ⟨rfl, rfl⟩

/-- The foreign key: an expense is in a batch that exists. -/
def Db.References (db : Db) : Prop :=
  ∀ id x, db.expenses.find? id = some x → ∀ b, x.reimbursementBatchId = some b → (db.batches.find? b).isSome

/-- The batch is worth the expenses in it, and each of them could be put into it before. -/
def Db.Totals (s t : Db) (batchId : Uuid) (batch : BatchRow) : Prop :=
  batch.totalMinor = batchSum batchId t.expenses ∧
    ∀ id x, t.expenses.find? id = some x → x.reimbursementBatchId = some batchId → s.Eligible batch.currency id

theorem Db.References.outside {s : Db} (h : s.References) {batchId : Uuid} (hnew : s.batches.find? batchId = none)
    (eids : List Uuid) : Outside batchId s.expenses eids := by
  intro eid _ x hx hin
  have := h eid x hx batchId hin
  simp [hnew] at this

theorem Db.References.batchSum {s : Db} (h : s.References) {batchId : Uuid}
    (hnew : s.batches.find? batchId = none) : batchSum batchId s.expenses = 0 := by
  have hzero : ∀ r ∈ s.expenses.rows, r.2.reimbursementBatchId ≠ some batchId := by
    rintro ⟨id, x⟩ hr
    exact h.outside hnew [id] id (List.mem_singleton_self _) x (Table.find?_eq_some.mpr hr)
  unfold Reimbursements.batchSum Table.sumBy Table.values
  refine List.sum_eq_zero fun m hm => ?_
  simp only [List.map_map, List.mem_map, Function.comp_apply] at hm
  obtain ⟨r, hr, rfl⟩ := hm
  rw [if_neg (hzero r hr)]

section
variable [Formats]

/-- The transaction put the expenses `eids` into a new batch. -/
def Creates (ctx : RequestCtx) (eids : List Uuid) (out : Collected) (s t : Db) : Prop :=
  s.batches.find? ctx.batchId = none ∧ t.expenses = joinAll ctx.batchId ctx.now eids s.expenses ∧
    t.batches = s.batches.insert ctx.batchId (ctx.batchRow (out.currency.getD "USD") out.totalMinor)

theorem createBatch_ok {ctx : RequestCtx} {body : CreateReimbursementBatchRequest} {s t : Db} {a : Answer}
    (h : (createBatch ctx body).run s = .ok (a, t)) : ∃ dto eids out, a = .created dto ∧
      body.expenseIds.map (parsePublicId .expense) = eids.map .ok ∧
      Collects s eids ⟨[], 0, body.currency⟩ out ∧ Creates ctx eids out s t := by
  obtain ⟨out, u, hcollect, hrest⟩ := Prog.run_bind_ok.mp h
  obtain ⟨rfl, eids, heids, hout⟩ := collectExpenses_ok hcollect
  simp only [insertBatch, insertEvent, Prog.run_execute_bind_ok] at hrest
  obtain ⟨hcheck, hrest⟩ := hrest
  have hnone : u.batches.find? ctx.batchId = none := by
    cases hfind : u.batches.find? ctx.batchId with
    | none => rfl
    | some r => simp [hfind] at hcheck
  have hlist : out.expenses = eids := by simpa using hout.expenses
  rw [Prog.run_bind, run_joinBatches, hlist] at hrest
  simp only [Except.bind, Prog.run_execute_bind_ok, Prog.run_query_bind, Prog.run_okOr_bind_ok, true_and] at hrest
  obtain ⟨dto, _, hrest⟩ := hrest
  obtain ⟨_, v, hrecord, hlast⟩ := Prog.run_bind_ok.mp hrest
  obtain ⟨hexpenses, hbatches⟩ := run_record_ok hrecord
  cases hlast
  exact ⟨dto, eids, out, rfl, heids, hout, hnone, hexpenses, hbatches⟩

theorem batchTx_ok {ctx : RequestCtx} {body : CreateReimbursementBatchRequest} {s t : Db} {a : Answer}
    (h : (batchTx ctx body).run s = .ok (a, t)) :
    (∃ status dto, a = .stored status dto ∧ t = s) ∨ (createBatch ctx body).run s = .ok (a, t) := by
  rcases AnswerTable.replayOr_ok.mp h with ⟨stored, -, hr⟩ | ⟨-, hrun⟩
  · cases hr
    exact .inl ⟨_, _, rfl, rfl⟩
  · exact .inr hrun

theorem createReimbursementBatch_ok {ctx : RequestCtx} {body : CreateReimbursementBatchRequest} {s t : Db}
    {r : Response} (h : createReimbursementBatch ctx body s = .ok (r, t))
    (hnew : s.batches.find? ctx.batchId = none) {batch : BatchRow}
    (hbatch : t.batches.find? ctx.batchId = some batch) : ∃ eids out,
      body.expenseIds.map (parsePublicId .expense) = eids.map .ok ∧
      Collects s eids ⟨[], 0, body.currency⟩ out ∧ t.expenses = joinAll ctx.batchId ctx.now eids s.expenses ∧
      batch.totalMinor = out.totalMinor ∧ batch.currency = out.currency.getD "USD" := by
  simp only [createReimbursementBatch, Finance.bind_ok] at h
  obtain ⟨_, _, h⟩ := h
  split_ifs at h
  obtain ⟨⟨a, u⟩, hrun, h⟩ := Finance.bind_ok.mp h
  have ht : (answerWith ctx u a).2 = t := congrArg Prod.snd (Except.ok.inj h)
  rw [← ht] at hbatch ⊢
  obtain ⟨row, hrow, htotal, hcurrency⟩ := answerWith_batch hbatch
  rw [answerWith_expenses]
  rcases batchTx_ok hrun with ⟨_, _, _, rfl⟩ | hcreate
  · rw [hnew] at hrow
    cases hrow
  · obtain ⟨dto, eids, out, _, heids, hout, hnone, hexpenses, hbatches⟩ := createBatch_ok hcreate
    rw [hbatches, Table.find?_insert_self hnone] at hrow
    cases hrow
    exact ⟨eids, out, heids, hout, hexpenses, htotal, hcurrency⟩

/-- The total of a new batch is the sum over its expenses, all of which were eligible, if and only if the request
names no expense twice. -/
theorem batch_total_iff (ctx : RequestCtx) (body : CreateReimbursementBatchRequest) {s t : Db} {r : Response}
    (hrefs : s.References) (h : createReimbursementBatch ctx body s = .ok (r, t))
    (hnew : s.batches.find? ctx.batchId = none) {batch : BatchRow}
    (hbatch : t.batches.find? ctx.batchId = some batch) :
    s.Totals t ctx.batchId batch ↔ (body.expenseIds.map (parsePublicId .expense)).Nodup := by
  obtain ⟨eids, out, heids, hout, hexpenses, htotal, hcurrency⟩ := createReimbursementBatch_ok h hnew hbatch
  have hfound : ∀ eid ∈ eids, (s.expenses.find? eid).isSome := by
    intro eid he
    obtain ⟨_, _, row, hrow, _⟩ := hout.eligible eid he
    simp [hrow]
  have hsum := (batchSum_joinAll ctx.batchId ctx.now eids hfound).2
  have hcollected := hout.total
  rw [hrefs.batchSum hnew, ← hexpenses] at hsum
  have hmembers : ∀ id x, t.expenses.find? id = some x → x.reimbursementBatchId = some ctx.batchId →
      s.Eligible batch.currency id := by
    intro id x hx hin
    rw [hexpenses, find?_joinAll] at hx
    obtain ⟨y, hy, rfl⟩ := Option.map_eq_some_iff.mp hx
    by_cases hmem : id ∈ eids
    · obtain ⟨c, hc, hel⟩ := hout.eligible id hmem
      rwa [hcurrency, hc]
    · rw [if_neg hmem] at hin
      exact absurd hin (hrefs.outside hnew [id] id (List.mem_singleton_self _) y hy)
  have hnodup : (eids.map (Except.ok (ε := AppError))).Nodup ↔ eids.Nodup :=
    List.nodup_map_iff fun a b hab => Except.ok.inj hab
  rw [heids, hnodup, Db.Totals, htotal, hcollected]
  simp only [Int.zero_add] at hsum ⊢
  constructor
  · rintro ⟨heq, _⟩
    exact (hsum.mp heq.symm).1
  · intro hnd
    exact ⟨(hsum.mpr ⟨hnd, hrefs.outside hnew eids⟩).symm, hmembers⟩

end

theorem created_of_check {x : Except AppError (Response × Db)} {batchId : Uuid} {P : Db → BatchRow → Bool}
    (h : (x.toOption.any fun r => (r.2.batches.find? batchId).any (P r.2)) = true) :
    ∃ r t batch, x = .ok (r, t) ∧ t.batches.find? batchId = some batch ∧ P t batch = true := by
  cases x with
  | error e => simp [Except.toOption] at h
  | ok r =>
    have hfound : (r.2.batches.find? batchId).any (P r.2) = true := h
    obtain ⟨batch, hbatch, hP⟩ := (Option.any_eq_true ..).mp hfound
    exact ⟨r.1, r.2, batch, rfl, hbatch, hP⟩

def twoExpenses : Db where
  expenses :=
    (Table.empty.insert 1 ⟨"exp_1", .approved, "EUR", 100, none, 0, by decide⟩).insert 2
      ⟨"exp_2", .approved, "EUR", 50, none, 0, by decide⟩
  batches := .empty
  idempotency := .empty
  outbox := []

theorem twoExpenses_references : twoExpenses.References := by
  intro id x hx b hb
  have hnone : ∀ r ∈ twoExpenses.expenses.rows, r.2.reimbursementBatchId = none := by decide
  rw [hnone (id, x) (Table.find?_eq_some.mp hx)] at hb
  cases hb

def exampleCtx : RequestCtx := ⟨7, .ok (), none, 9, none, 1⟩

def expenseRequest [Formats] (eids : List Uuid) : CreateReimbursementBatchRequest :=
  { expenseIds := eids.map fun eid => Finance.PublicId.asStr ⟨.expense, eid⟩ }

/-- The batch of one expense named twice has twice its amount as total. -/
theorem batch_total_repeated :
    letI := canonicalFormats
    ∃ r t batch, twoExpenses.References ∧
      createReimbursementBatch exampleCtx (expenseRequest [1, 1]) twoExpenses = .ok (r, t) ∧
      twoExpenses.batches.find? 9 = none ∧ t.batches.find? 9 = some batch ∧ batch.totalMinor = 200 ∧
      batchSum 9 t.expenses = 100 ∧ ¬twoExpenses.Totals t 9 batch := by
  let := canonicalFormats
  have hcheck : ∃ r t batch,
      createReimbursementBatch exampleCtx (expenseRequest [1, 1]) twoExpenses = .ok (r, t) ∧
        t.batches.find? 9 = some batch ∧
        (fun (u : Db) (b : BatchRow) =>
          Decidable.decide (b.totalMinor = 200 ∧ batchSum 9 u.expenses = 100)) t batch = true :=
    created_of_check (by decide +kernel)
  obtain ⟨r, t, batch, hrun, hbatch, hP⟩ := hcheck
  obtain ⟨htotal, hsum⟩ := of_decide_eq_true hP
  refine ⟨r, t, batch, twoExpenses_references, hrun, rfl, hbatch, htotal, hsum, ?_⟩
  rintro ⟨heq, -⟩
  rw [htotal, hsum] at heq
  omega

theorem batch_total_distinct :
    letI := canonicalFormats
    ∃ r t batch, createReimbursementBatch exampleCtx (expenseRequest [1, 2]) twoExpenses = .ok (r, t) ∧
      t.batches.find? 9 = some batch ∧ twoExpenses.Totals t 9 batch := by
  let := canonicalFormats
  have hcheck : ∃ r t batch,
      createReimbursementBatch exampleCtx (expenseRequest [1, 2]) twoExpenses = .ok (r, t) ∧
        t.batches.find? 9 = some batch ∧ true = true :=
    created_of_check (by decide +kernel)
  obtain ⟨r, t, batch, hrun, hbatch, -⟩ := hcheck
  have hids : ((expenseRequest [1, 2]).expenseIds.map (parsePublicId .expense)) = [.ok 1, .ok 2] := by
    decide +kernel
  refine ⟨r, t, batch, hrun, hbatch,
    (batch_total_iff exampleCtx (expenseRequest [1, 2]) twoExpenses_references hrun rfl hbatch).mpr ?_⟩
  rw [hids]
  simp

end Noxara.Reimbursements
