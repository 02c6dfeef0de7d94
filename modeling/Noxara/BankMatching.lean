import Noxara.BankReconciliation
import Noxara.GreedyMatching

/-! What auto-match makes of a statement: a matching that pairs every line and payment at most once and leaves no
pair that agrees. Whether the currencies of a pair agree is looked at nowhere. -/
namespace Noxara.Bank

open Transaction
open Finance (Uuid Formats wrapI64 i64Max i64Min parsePublicId canonicalFormats)

def pick (line : LineRow) (free : List PaymentCand) : Option PaymentCand :=
  match free.find? fun pay => agrees line pay && refOk line pay with
  | some pay => some pay
  | none => free.find? (agrees line)

def unused (used : List Uuid) (payments : List PaymentCand) : List PaymentCand :=
  payments.filter fun pay => !used.contains pay.id

theorem best_eq (line : LineRow) (payments : List PaymentCand) (used : List Uuid) :
    best line payments used = pick line (unused used payments) := by
  have hfree : ∀ p : PaymentCand → Bool,
      (unused used payments).find? p = payments.find? fun pay => !used.contains pay.id && p pay := fun p => by
    unfold unused
    rw [List.find?_filter]
    simp only [Bool.decide_and, Bool.decide_eq_true]
  unfold pick
  rw [hfree, hfree]
  rfl

theorem pick_mem {line : LineRow} {free : List PaymentCand} {pay : PaymentCand} (h : pick line free = some pay) :
    pay ∈ free ∧ agrees line pay = true := by
  unfold pick at h
  split at h
  · next hfirst =>
    cases h
    have hcheck := List.find?_some hfirst
    simp only [Bool.and_eq_true] at hcheck
    exact ⟨List.mem_of_find?_eq_some hfirst, hcheck.1⟩
  · exact ⟨List.mem_of_find?_eq_some h, List.find?_some (p := agrees line) h⟩

theorem pick_none {line : LineRow} {free : List PaymentCand} (h : pick line free = none) :
    ∀ pay ∈ free, agrees line pay = false := by
  unfold pick at h
  split at h
  · cases h
  · intro pay hpay
    simpa using List.find?_eq_none.mp h pay hpay

theorem pick_filter_none {line : LineRow} {free : List PaymentCand} (h : pick line free = none)
    (q : PaymentCand → Bool) : pick line (free.filter q) = none := by
  cases hp : pick line (free.filter q) with
  | none => rfl
  | some pay =>
    obtain ⟨hmem, hagrees⟩ := pick_mem hp
    have hfalse := pick_none h pay (List.mem_filter.mp hmem).1
    rw [hagrees] at hfalse
    cases hfalse

theorem find?_filter_of_some {p q : PaymentCand → Bool} {l : List PaymentCand} {pay : PaymentCand}
    (h : l.find? p = some pay) (hq : q pay = true) : (l.filter q).find? p = some pay := by
  induction l with
  | nil => cases h
  | cons x l ih =>
    rw [List.find?_cons] at h
    rw [List.filter_cons]
    split at h
    · next hx =>
      cases h
      simp [hq, hx]
    · next hx =>
      split_ifs
      · rw [List.find?_cons, hx]
        exact ih h
      · exact ih h

theorem pick_filter_some {line : LineRow} {free : List PaymentCand} {pay : PaymentCand}
    (h : pick line free = some pay) {q : PaymentCand → Bool} (hq : q pay = true) :
    pick line (free.filter q) = some pay := by
  unfold pick at h ⊢
  split at h
  · next hfirst =>
    cases h
    rw [find?_filter_of_some hfirst hq]
  · next hfirst =>
    have hnone : ((free.filter q).find? fun pay => agrees line pay && refOk line pay) = none := by
      rw [List.find?_eq_none] at hfirst ⊢
      exact fun x hx => hfirst x (List.mem_filter.mp hx).1
    rw [hnone]
    exact find?_filter_of_some h hq

theorem unused_cons {payments : List PaymentCand} (hids : (payments.map (·.id)).Nodup) (used : List Uuid)
    {pay : PaymentCand} (hpay : pay ∈ payments) :
    unused (pay.id :: used) payments = (unused used payments).filter fun c => c ≠ pay := by
  rw [unused, unused, List.filter_filter]
  refine List.filter_congr fun c hc => ?_
  have hiff : c.id = pay.id ↔ c = pay := by
    constructor
    · exact fun h => List.inj_on_of_nodup_map hids hc hpay h
    · rintro rfl
      rfl
  by_cases h : c = pay <;> simp [hiff, h]

/-- The store after the pairs `ps` have been written. -/
structure Written (ps : List (LineRow × PaymentCand)) (s t : Db) : Prop where
  rows : ∃ new, t.reconciliations.rows = s.reconciliations.rows ++ new ∧
    new.map (fun r => (r.2.statementLineId, r.2.matchedPaymentId)) = ps.map fun p => (p.1.id, some p.2.id)
  lines : ∀ id, t.lines.find? id =
    (s.lines.find? id).map fun r => if id ∈ ps.map (·.1.id) then r.markMatched else r
  payments : t.payments = s.payments

theorem Written.nil (s : Db) : Written [] s s where
  rows := ⟨[], by simp⟩
  lines id := by simp
  payments := rfl

theorem Written.append {ps qs : List (LineRow × PaymentCand)} {s t u : Db} (h : Written ps s t)
    (h' : Written qs t u) : Written (ps ++ qs) s u where
  rows := by
    obtain ⟨new, hnew, hps⟩ := h.rows
    obtain ⟨more, hmore, hqs⟩ := h'.rows
    exact ⟨new ++ more, by rw [hmore, hnew, List.append_assoc], by rw [List.map_append, hps, hqs, List.map_append]⟩
  lines id := by
    rw [h'.lines, h.lines, Option.map_map]
    congr 1
    funext r
    simp only [Function.comp_apply, List.map_append, List.mem_append]
    by_cases hp : id ∈ ps.map (·.1.id)
    · by_cases hq : id ∈ qs.map (·.1.id)
      · simp only [hp, hq, or_self, if_true]
        rfl
      · simp only [hp, hq, or_false, if_true, if_false]
    · simp only [hp, false_or, if_false]
  payments := h'.payments.trans h.payments

section
variable [Formats] {ctx : RequestCtx} {bank : BankRef} {payments : List PaymentCand}

theorem matchLine_ok {line : LineRow} {st out : MatchState} {s t : Db}
    (h : (matchLine ctx bank payments line st).run s = .ok (out, t)) :
    (pick line (unused st.usedPayments payments) = none ∧ out = st ∧ t = s) ∨
      ∃ pay, pick line (unused st.usedPayments payments) = some pay ∧
        out.usedPayments = pay.id :: st.usedPayments ∧ Written [(line, pay)] s t := by
  unfold matchLine at h
  rw [best_eq] at h
  cases hp : pick line (unused st.usedPayments payments) with
  | none =>
    rw [hp] at h
    cases h
    exact .inl ⟨rfl, rfl, rfl⟩
  | some pay =>
    rw [hp] at h
    simp only [insertReconciliation, updateLine, Prog.run_execute_bind_ok, true_and] at h
    obtain ⟨hcheck, h⟩ := h
    cases h
    have hnone : s.reconciliations.find? (ctx.fresh st.reconciliations.length) = none := by
      cases hfind : s.reconciliations.find? (ctx.fresh st.reconciliations.length) with
      | none => rfl
      | some r => simp [hfind] at hcheck
    refine .inr ⟨pay, rfl, rfl, ⟨_, Table.rows_insert hnone _, ?_⟩, ?_, rfl⟩
    · simp [reconciliationRow]
    · intro id
      by_cases hid : id = line.id
      · subst hid
        rw [Table.find?_modify_self]
        simp
      · rw [Table.find?_modify_ne _ _ hid]
        simp [hid]

theorem matchLines_ok (hids : (payments.map (·.id)).Nodup) {lines : List LineRow} {st out : MatchState} {s t : Db}
    (h : (matchLines ctx bank payments lines st).run s = .ok (out, t)) :
    Written (Greedy.pairs pick lines (unused st.usedPayments payments)) s t := by
  induction lines generalizing st s with
  | nil =>
    cases h
    exact Written.nil _
  | cons line lines ih =>
    obtain ⟨mid, u, hline, hrest⟩ := Prog.run_bind_ok.mp h
    rcases matchLine_ok hline with ⟨hp, rfl, rfl⟩ | ⟨pay, hp, hused, hwritten⟩
    · rw [Greedy.pairs_cons_none hp]
      exact ih hrest
    · have hmem := (List.mem_filter.mp (pick_mem hp).1).1
      have hlast := ih hrest
      rw [hused, unused_cons hids st.usedPayments hmem] at hlast
      rw [Greedy.pairs_cons_some hp]
      exact hwritten.append hlast

end

def Fits (line : StatementLineRow) (pay : PaymentRow) : Prop :=
  line.currency = pay.currency ∧ |line.amountMinor| = pay.amountMinor ∧
    |line.txnDate.dayNumber - pay.receivedDate.dayNumber| ≤ 3

def Db.Waits (db : Db) (stmtId id : Uuid) (line : StatementLineRow) : Prop :=
  db.lines.find? id = some line ∧ line.statementId = stmtId ∧ line.status = .unmatched

/-- The payment waits for a match. -/
def Db.Open (db : Db) (id : Uuid) (pay : PaymentRow) : Prop := db.payments.find? id = some pay ∧ db.Unreconciled id

/-- The reconciliations that were not there before. -/
def created (s t : Db) : List (Uuid × ReconciliationRow) :=
  t.reconciliations.rows.filter fun r => r.1 ∉ s.reconciliations.keys

/-- A valid matching of the lines of a statement. -/
structure Matching (stmtId : Uuid) (s t : Db) : Prop where
  lineOnce : ((created s t).map (·.2.statementLineId)).Nodup
  paymentOnce : ((created s t).map (·.2.matchedPaymentId)).Nodup
  fits : ∀ r ∈ created s t, ∃ line id pay, s.Waits stmtId r.2.statementLineId line ∧
    r.2.matchedPaymentId = some id ∧ s.Open id pay ∧ Fits line pay
  maximal : ∀ lineId line id pay, t.Waits stmtId lineId line → t.Open id pay → ¬Fits line pay

def sameCurrency (db : Db) (line : LineRow) (pay : PaymentCand) : Bool :=
  (db.lines.find? line.id).map (·.currency) = (db.payments.find? pay.id).map (·.currency)

section
variable {s t : Db} {stmtId : Uuid}

theorem mem_unmatchedLines {line : LineRow} : line ∈ s.unmatchedLines stmtId ↔
    ∃ row, s.Waits stmtId line.id row ∧ line = ⟨line.id, row.txnDate, row.amountMinor, row.reference⟩ := by
  simp only [Db.unmatchedLines, List.mem_map, List.mem_insertionSort, List.mem_filter, Bool.decide_and,
    Bool.and_eq_true, decide_eq_true_eq, Db.Waits, Table.find?_eq_some]
  constructor
  · rintro ⟨⟨id, row⟩, ⟨hrow, hstmt, hstatus⟩, rfl⟩
    exact ⟨row, ⟨hrow, hstmt, hstatus⟩, rfl⟩
  · rintro ⟨row, ⟨hrow, hstmt, hstatus⟩, hline⟩
    exact ⟨(line.id, row), ⟨hrow, hstmt, hstatus⟩, hline.symm⟩

theorem mem_candidates {pay : PaymentCand} : pay ∈ s.candidates ↔
    ∃ row, s.Open pay.id row ∧ pay = ⟨pay.id, row.publicId, row.amountMinor, row.receivedDate⟩ := by
  simp only [Db.candidates, List.mem_map, List.mem_filter, decide_eq_true_eq, Db.Open, Table.find?_eq_some]
  constructor
  · rintro ⟨⟨id, row⟩, ⟨hrow, hopen⟩, rfl⟩
    exact ⟨row, ⟨hrow, hopen⟩, rfl⟩
  · rintro ⟨row, ⟨hrow, hopen⟩, hpay⟩
    exact ⟨(pay.id, row), ⟨hrow, hopen⟩, hpay.symm⟩

theorem unmatchedLines_nodup (s : Db) (stmtId : Uuid) : ((s.unmatchedLines stmtId).map (·.id)).Nodup := by
  have hkeys : ((s.lines.rows.filter fun r => r.2.statementId = stmtId ∧ r.2.status = .unmatched).map
      Prod.fst).Nodup := (List.filter_sublist.map _).nodup s.lines.nodup
  rw [Db.unmatchedLines, List.map_map]
  exact ((List.perm_insertionSort _ _).map Prod.fst).nodup_iff.mpr hkeys

theorem candidates_nodup (s : Db) : (s.candidates.map (·.id)).Nodup := by
  have hkeys : ((s.payments.rows.filter fun r => s.Unreconciled r.1).map Prod.fst).Nodup :=
    (List.filter_sublist.map _).nodup s.payments.nodup
  rw [Db.candidates, List.map_map]
  exact hkeys

/-- The comparison of the words is that of the amounts: no payment is as large as the least word's magnitude. -/
theorem agrees_iff {id lineId : Uuid} (row : StatementLineRow) (prow : PaymentRow) :
    agrees ⟨lineId, row.txnDate, row.amountMinor, row.reference⟩
      ⟨id, prow.publicId, prow.amountMinor, prow.receivedDate⟩ = true ↔
    |row.amountMinor| = prow.amountMinor ∧
      |row.txnDate.dayNumber - prow.receivedDate.dayNumber| ≤ 3 := by
  have hword : wrapI64 |row.amountMinor| = prow.amountMinor ↔ |row.amountMinor| = prow.amountMinor := by
    obtain ⟨hlow, hhigh⟩ := Finance.inI64_iff.mp row.word
    have hpositive := prow.positive
    have hpay := prow.word
    have habs := abs_nonneg row.amountMinor
    have hle : |row.amountMinor| ≤ 9223372036854775808 := by
      rw [abs_le]
      simp only [i64Min, i64Max] at hlow hhigh
      omega
    unfold i64Max at *
    rw [Finance.wrapI64_eq_bmod, Int.bmod_def, Finance.i64Modulus]
    split_ifs <;> omega
  simp only [agrees, Bool.and_eq_true, decide_eq_true_eq, hword]

/-- What the loop has written is what was not there before. -/
theorem Written.created {ps : List (LineRow × PaymentCand)} (h : Written ps s t) :
    (created s t).map (fun r => (r.2.statementLineId, r.2.matchedPaymentId)) =
      ps.map fun p => (p.1.id, some p.2.id) := by
  obtain ⟨new, hnew, hps⟩ := h.rows
  have hnodup : (t.reconciliations.rows.map Prod.fst).Nodup := t.reconciliations.nodup
  rw [hnew, List.map_append, List.nodup_append] at hnodup
  have hold : s.reconciliations.rows.filter (fun r => r.1 ∉ s.reconciliations.keys) = [] := by
    rw [List.filter_eq_nil_iff]
    intro r hr
    have hmem : r.1 ∈ s.reconciliations.keys := List.mem_map_of_mem hr
    simp [hmem]
  have hkeep : new.filter (fun r => r.1 ∉ s.reconciliations.keys) = new := by
    rw [List.filter_eq_self]
    intro r hr
    have hmem : r.1 ∉ s.reconciliations.keys := by
      intro hk
      exact hnodup.2.2 r.1 hk r.1 (List.mem_map_of_mem hr) rfl
    simpa using hmem
  rw [Bank.created, hnew, List.filter_append, hold, hkeep, List.nil_append, hps]

def pairsOf (ctx : RequestCtx) (s : Db) (stmtId : Uuid) : List (LineRow × PaymentCand) :=
  Greedy.pairs pick (s.unmatchedLines stmtId) (ctx.scan s.candidates)

variable {ctx : RequestCtx}

theorem mem_scan {pay : PaymentCand} : pay ∈ ctx.scan s.candidates ↔ pay ∈ s.candidates :=
  (ctx.scan_perm s.candidates).mem_iff

theorem scan_nodup (ctx : RequestCtx) (s : Db) : ((ctx.scan s.candidates).map (·.id)).Nodup :=
  ((ctx.scan_perm s.candidates).map (·.id)).nodup_iff.mpr (candidates_nodup s)

theorem mem_pairsOf {p : LineRow × PaymentCand} (hp : p ∈ pairsOf ctx s stmtId) :
    p.1 ∈ s.unmatchedLines stmtId ∧ p.2 ∈ s.candidates ∧ agrees p.1 p.2 = true := by
  have hmem := Greedy.mem_of_pairs (fun _ _ _ h => (pick_mem h).1) hp
  have hagrees := Greedy.pairs_fit (R := fun l c => agrees l c = true) (fun _ _ _ h => (pick_mem h).2) hp
  exact ⟨hmem.1, mem_scan.mp hmem.2, hagrees⟩

theorem Written.lineOnce (h : Written (pairsOf ctx s stmtId) s t) :
    ((Bank.created s t).map (·.2.statementLineId)).Nodup := by
  have hfst : (Bank.created s t).map (·.2.statementLineId) = (pairsOf ctx s stmtId).map (·.1.id) := by
    have := congrArg (List.map Prod.fst) h.created
    simpa only [List.map_map, Function.comp_def] using this
  have hsub := (Greedy.pairs_fst_sublist pick (s.unmatchedLines stmtId) (ctx.scan s.candidates)).map (·.id)
  rw [List.map_map] at hsub
  rw [hfst]
  exact hsub.nodup (unmatchedLines_nodup s stmtId)

theorem Written.paymentOnce (h : Written (pairsOf ctx s stmtId) s t) :
    ((Bank.created s t).map (·.2.matchedPaymentId)).Nodup := by
  have hsnd : (Bank.created s t).map (·.2.matchedPaymentId) =
      ((pairsOf ctx s stmtId).map Prod.snd).map fun c => some c.id := by
    have := congrArg (List.map Prod.snd) h.created
    simpa only [List.map_map, Function.comp_def] using this
  have hnodup : ((pairsOf ctx s stmtId).map Prod.snd).Nodup :=
    Greedy.pairs_snd_nodup (fun _ _ _ hp => (pick_mem hp).1) _ _
  rw [hsnd]
  refine hnodup.map_on fun c hc d hd hcd => ?_
  obtain ⟨p, hp, rfl⟩ := List.mem_map.mp hc
  obtain ⟨q, hq, rfl⟩ := List.mem_map.mp hd
  exact List.inj_on_of_nodup_map (candidates_nodup s) (mem_pairsOf hp).2.1 (mem_pairsOf hq).2.1 (Option.some.inj hcd)

theorem Written.waits {ps : List (LineRow × PaymentCand)} (h : Written ps s t) {id : Uuid} {line : StatementLineRow}
    (hw : t.Waits stmtId id line) : s.Waits stmtId id line ∧ id ∉ ps.map (·.1.id) := by
  obtain ⟨hline, hstmt, hstatus⟩ := hw
  rw [h.lines] at hline
  obtain ⟨row, hrow, heq⟩ := Option.map_eq_some_iff.mp hline
  split_ifs at heq with hin
  · subst heq
    cases hstatus
  · subst heq
    exact ⟨⟨hrow, hstmt, hstatus⟩, hin⟩

theorem Written.open_before {ps : List (LineRow × PaymentCand)} (h : Written ps s t) {id : Uuid} {pay : PaymentRow}
    (ho : t.Open id pay) : s.Open id pay ∧ id ∉ ps.map (·.2.id) := by
  obtain ⟨hpay, hunreconciled⟩ := ho
  obtain ⟨new, hnew, hps⟩ := h.rows
  rw [h.payments] at hpay
  refine ⟨⟨hpay, fun r hr => hunreconciled r ?_⟩, fun hin => ?_⟩
  · rw [hnew]
    exact List.mem_append_left _ hr
  · obtain ⟨p, hp, hpid⟩ := List.mem_map.mp hin
    have hpair : (p.1.id, some p.2.id) ∈ new.map fun r => (r.2.statementLineId, r.2.matchedPaymentId) := by
      rw [hps]
      exact List.mem_map_of_mem hp
    obtain ⟨r, hr, hrp⟩ := List.mem_map.mp hpair
    refine hunreconciled r ?_ ?_
    · rw [hnew]
      exact List.mem_append_right _ hr
    · rw [(Prod.mk.inj hrp).2, hpid]

/-- No line and payment are left that agree in amount and date, in whatever currencies. -/
theorem Written.maximal (h : Written (pairsOf ctx s stmtId) s t) {lineId id : Uuid} {line : StatementLineRow}
    {pay : PaymentRow} (hline : t.Waits stmtId lineId line) (hpay : t.Open id pay) : ¬Fits line pay := by
  rintro ⟨_, hamount, hdate⟩
  obtain ⟨hwaits, hleft⟩ := h.waits hline
  obtain ⟨hopen, hunused⟩ := h.open_before hpay
  have hmem : (⟨lineId, line.txnDate, line.amountMinor, line.reference⟩ : LineRow) ∈ s.unmatchedLines stmtId :=
    mem_unmatchedLines.mpr ⟨line, hwaits, rfl⟩
  have hfree : (⟨id, pay.publicId, pay.amountMinor, pay.receivedDate⟩ : PaymentCand) ∈ ctx.scan s.candidates :=
    mem_scan.mpr (mem_candidates.mpr ⟨pay, hopen, rfl⟩)
  have hno := Greedy.pairs_maximal pick (R := fun l c => agrees l c = true)
    (fun _ _ hp c hc hagrees => by simp [pick_none hp c hc] at hagrees) hmem
    (fun hin => hleft (by
      obtain ⟨p, hp, hpl⟩ := List.mem_map.mp hin
      exact List.mem_map.mpr ⟨p, hp, congrArg (·.id) hpl⟩)) hfree
    (fun hin => hunused (by
      obtain ⟨p, hp, hpc⟩ := List.mem_map.mp hin
      exact List.mem_map.mpr ⟨p, hp, congrArg (·.id) hpc⟩))
  exact hno ((agrees_iff line pay).mpr ⟨hamount, hdate⟩)

theorem fits_pair {p : LineRow × PaymentCand} (hp : p ∈ pairsOf ctx s stmtId) : ∃ line pay,
    s.Waits stmtId p.1.id line ∧ s.Open p.2.id pay ∧ (Fits line pay ↔ sameCurrency s p.1 p.2 = true) := by
  obtain ⟨hl, hc, hagrees⟩ := mem_pairsOf hp
  obtain ⟨line, hwaits, hline⟩ := mem_unmatchedLines.mp hl
  obtain ⟨pay, hopen, hpay⟩ := mem_candidates.mp hc
  rw [hline, hpay, agrees_iff] at hagrees
  refine ⟨line, pay, hwaits, hopen, ?_⟩
  simp [Fits, hagrees, sameCurrency, hwaits.1, hopen.1]

theorem Written.fits_iff (h : Written (pairsOf ctx s stmtId) s t) :
    (∀ r ∈ Bank.created s t, ∃ line id pay, s.Waits stmtId r.2.statementLineId line ∧
      r.2.matchedPaymentId = some id ∧ s.Open id pay ∧ Fits line pay) ↔
    ∀ p ∈ pairsOf ctx s stmtId, sameCurrency s p.1 p.2 = true := by
  constructor
  · intro hall p hp
    have hpair := List.mem_map_of_mem (f := fun p : LineRow × PaymentCand => (p.1.id, some p.2.id)) hp
    rw [← h.created] at hpair
    obtain ⟨r, hr, hrp⟩ := List.mem_map.mp hpair
    obtain ⟨hlid, hpid⟩ := Prod.mk.inj hrp
    obtain ⟨line, id, pay, hwaits, hid, hopen, hfits⟩ := hall r hr
    obtain ⟨line', pay', hwaits', hopen', hiff⟩ := fits_pair hp
    rw [hlid] at hwaits
    rw [hpid] at hid
    obtain rfl := Option.some.inj hid
    obtain rfl : line = line' := Option.some.inj (hwaits.1.symm.trans hwaits'.1)
    obtain rfl : pay = pay' := Option.some.inj (hopen.1.symm.trans hopen'.1)
    exact hiff.mp hfits
  · intro hall r hr
    have hpair := List.mem_map_of_mem
      (f := fun r : Uuid × ReconciliationRow => (r.2.statementLineId, r.2.matchedPaymentId)) hr
    rw [h.created] at hpair
    obtain ⟨p, hp, hrp⟩ := List.mem_map.mp hpair
    obtain ⟨hlid, hpid⟩ := Prod.mk.inj hrp
    obtain ⟨line, pay, hwaits, hopen, hiff⟩ := fits_pair hp
    exact ⟨line, p.2.id, pay, hlid ▸ hwaits, hpid.symm, hopen, hiff.mpr (hall p hp)⟩

end

section
variable [Formats]

/-- Auto-match makes a valid matching if and only if, each line in turn, the payments in other currencies change
nothing about the payment that it finds among those still free. -/
theorem auto_match_iff (ctx : RequestCtx) (id : String) {stmtId : Uuid}
    (hid : parsePublicId .bankStatement id = .ok stmtId) {s t : Db} {resp : ReconcileResponse}
    (h : (autoMatchStatement ctx id).run s = .ok (resp, t)) :
    Matching stmtId s t ↔
      Greedy.Undisturbed pick (sameCurrency s) (s.unmatchedLines stmtId) (ctx.scan s.candidates) := by
  simp only [autoMatchStatement, Prog.run_ofExcept_bind_ok, Prog.run_query_bind, Prog.run_okOr_bind_ok] at h
  obtain ⟨stmtId', hid', _, _, stmt, _, account, _, h⟩ := h
  obtain rfl : stmtId = stmtId' := Except.ok.inj (hid.symm.trans hid')
  obtain ⟨st, u, hloop, hlast⟩ := Prog.run_bind_ok.mp h
  have hwritten := matchLines_ok (scan_nodup ctx s) hloop
  have hall : unused [] (ctx.scan s.candidates) = ctx.scan s.candidates := by simp [unused]
  rw [hall] at hwritten
  simp only [insertEvent, Prog.run_execute_bind_ok, true_and] at hlast
  cases hlast
  have hw : Written (pairsOf ctx s stmtId) s _ := ⟨hwritten.rows, hwritten.lines, hwritten.payments⟩
  have hcurrencies := Greedy.pairs_all_iff_undisturbed pick (sameCurrency s) (fun _ _ _ hp => (pick_mem hp).1)
    (fun _ _ hp => pick_filter_none hp _) (fun _ _ _ hp hq => pick_filter_some hp hq) (s.unmatchedLines stmtId)
    (ctx.scan s.candidates)
  rw [← hcurrencies]
  change _ ↔ ∀ p ∈ pairsOf ctx s stmtId, _
  rw [← hw.fits_iff]
  constructor
  · exact fun hm => hm.fits
  · intro hfits
    exact ⟨hw.lineOnce, hw.paymentOnce, hfits, fun _ _ _ _ hl hp => hw.maximal hl hp⟩

end

theorem hundred_pos : (0 : Int) < 100 := by decide

theorem fifty_pos : (0 : Int) < 50 := by decide

theorem monday_valid : 1 ≤ 3 ∧ 3 ≤ 12 ∧ 1 ≤ 2 ∧ 2 ≤ Finance.daysInMonth 2026 3 := by decide

/-- A statement line over 100 euros and a payment of 100 of a currency, on the same day. -/
def oneOfEach (currency : String) : Db where
  bankAccounts := Table.empty.insert 3 ⟨"bank_3"⟩
  statements := Table.empty.insert 4 ⟨"stmt_4", 3⟩
  lines := Table.empty.insert 1
    ⟨4, 1, ⟨2026, 3, 2, monday_valid⟩, 100, "EUR", none, .unmatched, by decide⟩
  payments := Table.empty.insert 2 ⟨"pay_2", currency, 100, ⟨2026, 3, 2, monday_valid⟩, hundred_pos, by decide⟩
  reconciliations := .empty
  outbox := []

def exampleCtx : RequestCtx := ⟨7, .ok (), fun k => 10 + k, fun l => l, fun l => .refl l⟩

def statementText [Formats] : String := Finance.PublicId.asStr ⟨.bankStatement, 4⟩

/-- The euros of the statement are matched with a payment in dollars. -/
theorem auto_match_currencies :
    letI := canonicalFormats
    ∃ resp t, (autoMatchStatement exampleCtx statementText).run (oneOfEach "USD") = .ok (resp, t) ∧
      (created (oneOfEach "USD") t).map (fun r => (r.2.statementLineId, r.2.matchedPaymentId)) = [(1, some 2)] ∧
      ¬Matching 4 (oneOfEach "USD") t := by
  let := canonicalFormats
  have hcheck : ∃ (resp : ReconcileResponse) (t : Db),
      (autoMatchStatement exampleCtx statementText).run (oneOfEach "USD") = .ok (resp, t) ∧
        Decidable.decide ((created (oneOfEach "USD") t).map
          (fun r => (r.2.statementLineId, r.2.matchedPaymentId)) = [(1, some 2)]) = true :=
    Prog.run_of_check (by decide +kernel)
  obtain ⟨resp, t, hrun, hcreated⟩ := hcheck
  have hcreated := of_decide_eq_true hcreated
  refine ⟨resp, t, hrun, hcreated, fun hm => ?_⟩
  have hpair : (1, some 2) ∈ (created (oneOfEach "USD") t).map
      (fun r => (r.2.statementLineId, r.2.matchedPaymentId)) := by
    rw [hcreated]
    exact List.mem_singleton_self _
  obtain ⟨r, hr, hrp⟩ := List.mem_map.mp hpair
  obtain ⟨hlid, hpid⟩ := Prod.mk.inj hrp
  obtain ⟨line, id, pay, hwaits, hid, hopen, hcurrency, _⟩ := hm.fits r hr
  rw [hlid] at hwaits
  obtain rfl := Option.some.inj (hpid.symm.trans hid)
  have hline : line.currency = "EUR" := by
    have := hwaits.1
    cases this
    rfl
  have hpay : pay.currency = "USD" := by
    have := hopen.1
    cases this
    rfl
  rw [hline, hpay] at hcurrency
  exact absurd hcurrency (by decide)

/-- Two lines in euros, a payment for each, and a payment in dollars that fits neither. -/
def twoOfEach : Db :=
  { oneOfEach "EUR" with
    lines := (oneOfEach "EUR").lines.insert 5
      ⟨4, 2, ⟨2026, 3, 2, monday_valid⟩, 50, "EUR", none, .unmatched, by decide⟩
    payments := ((oneOfEach "EUR").payments.insert 6
      ⟨"pay_6", "EUR", 50, ⟨2026, 3, 2, monday_valid⟩, fifty_pos, by decide⟩).insert 8
        ⟨"pay_8", "USD", 70, ⟨2026, 3, 2, monday_valid⟩, by decide, by decide⟩ }

theorem auto_match_two_of_each :
    letI := canonicalFormats
    ∃ resp t, (autoMatchStatement exampleCtx statementText).run twoOfEach = .ok (resp, t) ∧
      (created twoOfEach t).map (fun r => (r.2.statementLineId, r.2.matchedPaymentId)) =
        [(1, some 2), (5, some 6)] ∧ Matching 4 twoOfEach t := by
  let := canonicalFormats
  have hcheck : ∃ (resp : ReconcileResponse) (t : Db),
      (autoMatchStatement exampleCtx statementText).run twoOfEach = .ok (resp, t) ∧
        Decidable.decide ((created twoOfEach t).map (fun r => (r.2.statementLineId, r.2.matchedPaymentId)) =
          [(1, some 2), (5, some 6)]) = true :=
    Prog.run_of_check (by decide +kernel)
  obtain ⟨resp, t, hrun, hcreated⟩ := hcheck
  have hid : parsePublicId .bankStatement statementText = .ok 4 := by decide +kernel
  refine ⟨resp, t, hrun, of_decide_eq_true hcreated, (auto_match_iff exampleCtx statementText hid hrun).mpr ?_⟩
  have hlines : twoOfEach.unmatchedLines 4 =
      [⟨1, ⟨2026, 3, 2, by decide⟩, 100, none⟩, ⟨5, ⟨2026, 3, 2, by decide⟩, 50, none⟩] := by
        decide +kernel
  have hpayments : exampleCtx.scan twoOfEach.candidates =
      [⟨2, "pay_2", 100, ⟨2026, 3, 2, by decide⟩⟩, ⟨6, "pay_6", 50, ⟨2026, 3, 2, by decide⟩⟩,
        ⟨8, "pay_8", 70, ⟨2026, 3, 2, by decide⟩⟩] := by decide +kernel
  rw [hlines, hpayments]
  exact ⟨by decide +kernel, by decide +kernel, trivial⟩

end Noxara.Bank
