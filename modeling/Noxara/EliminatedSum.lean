import Noxara.FinanceConsolidation
import Mathlib.Algebra.BigOperators.Group.Finset.Basic

/-! What a consolidation run adds up. The combined balance of an account is the sum over the
selected entities, an entity as often as it is named and whatever its entries' dates; elimination
moves only the intercompany accounts, and by the same amount on both sides. -/
namespace Noxara.Finance

open Transaction

theorem byAccountCode_perm (rows : List TrialBalanceRow) : (byAccountCode rows).Perm rows :=
  List.perm_insertionSort _ _

/-- Dropping rows on which `g` is zero does not change its sum. -/
theorem sum_filter_of_zero {α : Type} {p : α → Bool} {g : α → Int} {l : List α}
    (h : ∀ x ∈ l, p x = false → g x = 0) : ((l.filter p).map g).sum = (l.map g).sum := by
  induction l with
  | nil => rfl
  | cons x l ih =>
    have ih := ih fun y hy => h y (List.mem_cons_of_mem x hy)
    cases hp : p x with
    | true => simp [hp, ih]
    | false => simp [hp, ih, h x (by simp) hp]

def TrialBalanceRow.on (code : String) (f : TrialBalanceRow → Int) (r : TrialBalanceRow) : Int :=
  if r.accountCode = code then f r else 0

def TrialBalanceRow.net (r : TrialBalanceRow) : Int := r.debitMinor - r.creditMinor

/-- The debit-minus-credit net of an account. -/
def TrialBalance.net (tb : TrialBalance) (code : String) : Int :=
  (tb.rows.map (TrialBalanceRow.on code TrialBalanceRow.net)).sum

theorem sum_map_sub {α : Type} (f g : α → Int) (l : List α) :
    (l.map fun x => f x - g x).sum = (l.map f).sum - (l.map g).sum := by
  induction l with
  | nil => rfl
  | cons x l ih =>
    simp only [List.map_cons, List.sum_cons, ih]
    omega

theorem modulus_dvd_sub_wrap (x : Int) : (i64Modulus : Int) ∣ x - wrapI64 x := by
  rw [wrapI64_eq, sub_sub_cancel]
  exact dvd_mul_right _ _

theorem wrapI64_eq_iff {x y : Int} : wrapI64 x = wrapI64 y ↔ (i64Modulus : Int) ∣ x - y := by
  rw [wrapI64_eq_bmod, wrapI64_eq_bmod, Int.bmod_eq_bmod_iff_bmod_sub_eq_zero, Int.dvd_iff_bmod_eq_zero]

theorem TrialBalance.ofRows_balanced {currency : String} {rows : List TrialBalanceRow} :
    (TrialBalance.ofRows currency rows).balanced = true ↔
      (i64Modulus : Int) ∣ (rows.map TrialBalanceRow.net).sum := by
  rw [show TrialBalanceRow.net = fun r => r.debitMinor - r.creditMinor from rfl, sum_map_sub,
    ← wrapI64_eq_iff]
  exact decide_eq_true_iff

def CombinedRow.net (e : CombinedRow) : Int := e.debitMinor - e.creditMinor

namespace Combined
variable {t : Combined} {code : String}

/-- The balances of an account are the totals `debit` and `credit`, as words. -/
def Holds (t : Combined) (code : String) (debit credit : Int) : Prop :=
  t.amount code CombinedRow.debitMinor = wrapI64 debit ∧
    t.amount code CombinedRow.creditMinor = wrapI64 credit

theorem find?_addRow_ne (r : TrialBalanceRow) (h : code ≠ r.accountCode) :
    (t.addRow r).find? code = t.find? code := by
  rw [Combined.addRow, Table.find?_modify_ne _ _ h, Table.find?_insert_ne _ _ h]

theorem find?_addRow_self (r : TrialBalanceRow) :
    (t.addRow r).find? r.accountCode =
      some ((((t.find? r.accountCode).getD ⟨r.accountName, r.accountType, 0, 0⟩).addDebit
        r.debitMinor).addCredit r.creditMinor) := by
  rw [Combined.addRow, Table.find?_modify_self]
  cases h : t.find? r.accountCode with
  | none => rw [Table.find?_insert_self h]; rfl
  | some e => rw [Table.find?_insert_of_some h]; rfl

theorem Holds.addRow {debit credit : Int} (h : t.Holds code debit credit) (r : TrialBalanceRow) :
    (t.addRow r).Holds code (debit + r.on code (·.debitMinor)) (credit + r.on code (·.creditMinor)) := by
  obtain ⟨hd, hc⟩ := h
  unfold Holds TrialBalanceRow.on
  by_cases hr : r.accountCode = code
  · subst hr
    simp only [amount, find?_addRow_self, Option.elim_some, CombinedRow.addCredit,
      CombinedRow.addDebit, if_true] at hd hc ⊢
    rw [← wrapI64_add_left debit, ← wrapI64_add_left credit, ← hd, ← hc]
    cases t.find? r.accountCode <;> exact ⟨rfl, rfl⟩
  · simp only [amount, find?_addRow_ne r (Ne.symm hr), if_neg hr, add_zero] at hd hc ⊢
    exact ⟨hd, hc⟩

theorem Holds.addRows {debit credit : Int} (h : t.Holds code debit credit)
    (rows : List TrialBalanceRow) :
    (rows.foldl Combined.addRow t).Holds code
      (debit + (rows.map (TrialBalanceRow.on code (·.debitMinor))).sum)
      (credit + (rows.map (TrialBalanceRow.on code (·.creditMinor))).sum) := by
  induction rows generalizing t debit credit with
  | nil => simpa using h
  | cons r rows ih => simpa only [List.foldl_cons, List.map_cons, List.sum_cons, add_assoc] using ih (h.addRow r)

/-- The balances differ by a multiple of the word size. -/
def Balanced (t : Combined) : Prop := (i64Modulus : Int) ∣ t.sumBy CombinedRow.net

theorem sumBy_addRow (t : Combined) (r : TrialBalanceRow) :
    (i64Modulus : Int) ∣ (t.sumBy CombinedRow.net + r.net) - (t.addRow r).sumBy CombinedRow.net := by
  have hmove : ∀ e : CombinedRow, (i64Modulus : Int) ∣
      r.net - (CombinedRow.net ((e.addDebit r.debitMinor).addCredit r.creditMinor) - e.net) := by
    intro e
    have hd := modulus_dvd_sub_wrap (e.debitMinor + r.debitMinor)
    have hc := modulus_dvd_sub_wrap (e.creditMinor + r.creditMinor)
    refine (dvd_sub hd hc).trans (dvd_of_eq ?_)
    simp only [CombinedRow.net, CombinedRow.addDebit, CombinedRow.addCredit, TrialBalanceRow.net]
    omega
  cases h : t.find? r.accountCode with
  | none =>
    rw [Combined.addRow, Table.sumBy_modify (Table.find?_insert_self h _), Table.sumBy_insert h]
    have hzero : CombinedRow.net ⟨r.accountName, r.accountType, 0, 0⟩ = 0 := rfl
    refine (hmove ⟨r.accountName, r.accountType, 0, 0⟩).trans (dvd_of_eq ?_)
    omega
  | some e =>
    rw [Combined.addRow, Table.insert_of_mem (Table.mem_keys_of_find? h), Table.sumBy_modify h]
    refine (hmove e).trans (dvd_of_eq ?_)
    omega

theorem Balanced.addRows (h : t.Balanced) {rows : List TrialBalanceRow}
    (hrows : (i64Modulus : Int) ∣ (rows.map TrialBalanceRow.net).sum) :
    (rows.foldl Combined.addRow t).Balanced := by
  suffices hdiff : (i64Modulus : Int) ∣ (t.sumBy CombinedRow.net + (rows.map TrialBalanceRow.net).sum) -
      (rows.foldl Combined.addRow t).sumBy CombinedRow.net by
    exact (dvd_sub_right (dvd_add h hrows)).mp hdiff
  clear h hrows
  induction rows generalizing t with
  | nil => simp
  | cons r rows ih =>
    refine (dvd_add (sumBy_addRow t r) (ih (t := t.addRow r))).trans (dvd_of_eq ?_)
    simp only [List.foldl_cons, List.map_cons, List.sum_cons]
    omega

theorem find?_cancel_ne {credited debited : String} (hc : code ≠ credited) (hd : code ≠ debited)
    (amount : Int) : (t.cancel credited debited amount).find? code = t.find? code := by
  unfold cancel
  split_ifs
  · rw [Table.find?_modify_ne _ _ hd, Table.find?_modify_ne _ _ hc]
  · rfl

/-- Both accounts are there when an amount is cancelled between them, so the balances move by the
same amount. -/
theorem Balanced.cancel (h : t.Balanced) {credited debited : String} (hne : credited ≠ debited)
    {amount : Int} (hin : 0 < amount → (t.find? credited).isSome ∧ (t.find? debited).isSome) :
    (t.cancel credited debited amount).Balanced := by
  unfold Combined.cancel
  split_ifs with hpos
  · obtain ⟨hcr, hdb⟩ := hin hpos
    obtain ⟨c, hc⟩ := Option.isSome_iff_exists.mp hcr
    obtain ⟨d, hd⟩ := Option.isSome_iff_exists.mp hdb
    have hd' : (t.modify credited (CombinedRow.addCredit amount)).find? debited = some d := by
      rwa [Table.find?_modify_ne _ _ hne.symm]
    have hwc := modulus_dvd_sub_wrap (c.creditMinor + amount)
    have hwd := modulus_dvd_sub_wrap (d.debitMinor + amount)
    rw [Balanced, Table.sumBy_modify hd', Table.sumBy_modify hc]
    refine (dvd_add h (dvd_sub hwc hwd)).trans (dvd_of_eq ?_)
    simp only [CombinedRow.net, CombinedRow.addDebit, CombinedRow.addCredit]
    omega
  · exact h

theorem isSome_of_amount_pos {f : CombinedRow → Int} (h : 0 < t.amount code f) :
    (t.find? code).isSome := by
  cases hf : t.find? code with
  | none => simp [amount, hf] at h
  | some e => rfl

theorem Balanced.eliminate (h : t.Balanced) : t.eliminate.Balanced := by
  have hbs : 0 < t.elimBs → (t.find? codes.IC_RECEIVABLE).isSome ∧ (t.find? codes.IC_PAYABLE).isSome := by
    intro hpos
    unfold elimBs at hpos
    exact ⟨isSome_of_amount_pos (f := CombinedRow.debitNet) (by omega),
      isSome_of_amount_pos (f := CombinedRow.creditNet) (by omega)⟩
  have hpnl : 0 < t.elimPnl → (t.find? codes.IC_EXPENSE).isSome ∧ (t.find? codes.IC_REVENUE).isSome := by
    intro hpos
    unfold elimPnl at hpos
    exact ⟨isSome_of_amount_pos (f := CombinedRow.debitNet) (by omega),
      isSome_of_amount_pos (f := CombinedRow.creditNet) (by omega)⟩
  refine (h.cancel (by decide) hbs).cancel (by decide) fun hpos => ?_
  rw [find?_cancel_ne (by decide) (by decide), find?_cancel_ne (by decide) (by decide)]
  exact hpnl hpos

theorem Holds.eliminate {debit credit : Int} (h : t.Holds code debit credit)
    (hcode : code ∉ intercompanyCodes) : t.eliminate.Holds code debit credit := by
  simp only [intercompanyCodes, List.mem_cons, List.not_mem_nil, not_or, not_false_eq_true,
    and_true] at hcode
  obtain ⟨hrecv, hpay, hrev, hexp⟩ := hcode
  simp only [Holds, amount, Combined.eliminate, find?_cancel_ne hexp hrev,
    find?_cancel_ne hrecv hpay] at h ⊢
  exact h

theorem sum_consolidatedRows (t : Combined) {g : TrialBalanceRow → Int}
    (hg : ∀ r, r.debitMinor = r.creditMinor → g r = 0) :
    ((consolidatedRows t.rowsByCode).map g).sum =
      (t.rows.map fun (code, e) =>
        g ⟨code, e.name, e.accountType, e.debitMinor, e.creditMinor⟩).sum := by
  rw [consolidatedRows, sum_filter_of_zero, sum_filter_of_zero, rowsByCode,
    ((byAccountCode_perm _).map g).sum_eq, sum_filter_of_zero, List.map_map]
  · rfl
  · intro r _ hr
    have := of_decide_eq_false hr
    simp only [TrialBalanceRow.Nonzero, not_or, not_not] at this
    exact hg r (this.1.trans this.2.symm)
  · intro r _ hr
    have := of_decide_eq_false hr
    exact hg r (not_not.mp (not_or.mp this).1)
  · intro r _ hr
    exact hg r (not_not.mp (of_decide_eq_false hr))

theorem Balanced.ofRows (h : t.Balanced) (currency : String) :
    (TrialBalance.ofRows currency (consolidatedRows t.rowsByCode)).balanced = true := by
  rw [TrialBalance.ofRows_balanced, sum_consolidatedRows]
  · rw [Balanced, Table.sumBy, Table.values, List.map_map] at h
    exact h
  · intro r hr
    rw [TrialBalanceRow.net, hr, sub_self]

theorem Holds.net_ofRows {debit credit : Int} (h : t.Holds code debit credit) (currency : String) :
    (TrialBalance.ofRows currency (consolidatedRows t.rowsByCode)).net code =
      wrapI64 debit - wrapI64 credit := by
  rw [TrialBalance.net, TrialBalance.ofRows, sum_consolidatedRows]
  · rw [← h.1, ← h.2]
    refine (Table.sum_map_key t code CombinedRow.net).trans ?_
    simp only [amount]
    cases t.find? code <;> rfl
  · intro r hr
    simp [TrialBalanceRow.on, TrialBalanceRow.net, hr]

end Combined

def Db.entityDebit (db : Db) (currency code : String) (entityId : Uuid) : Int :=
  (((db.entityLines entityId currency).filter fun l => l.accountCode = code).map (·.debitMinor)).sum

def Db.entityCredit (db : Db) (currency code : String) (entityId : Uuid) : Int :=
  (((db.entityLines entityId currency).filter fun l => l.accountCode = code).map (·.creditMinor)).sum

theorem sum_tbRows {db : Db} {entityId : Uuid} {currency code : String} {acct : AccountRow}
    (hacct : db.accounts.find? code = some acct) {f : TrialBalanceRow → Int}
    (hf : ∀ r, ¬r.Nonzero → f r = 0) :
    ((db.tbRows entityId currency).map (TrialBalanceRow.on code f)).sum =
      f (tbRow (db.entityLines entityId currency) (code, acct)) := by
  rw [Db.tbRows, ((byAccountCode_perm _).map _).sum_eq, sum_filter_of_zero, List.map_map]
  · have hkey := Table.sum_map_key db.accounts code fun a =>
      f (tbRow (db.entityLines entityId currency) (code, a))
    rw [hacct] at hkey
    refine (congrArg List.sum (List.map_congr_left fun r _ => ?_)).trans hkey
    by_cases h : r.1 = code
    · subst h
      rfl
    · rw [if_neg h]
      exact if_neg h
  · intro r _ hr
    rw [TrialBalanceRow.on, hf r (of_decide_eq_false hr), ite_self]

theorem entityTb_ok {entityId : Uuid} {currency : String} {s t : Db} {tb : TrialBalance}
    (h : (entityTb entityId currency).run s = .ok (tb, t)) :
    tb = .ofRows currency (s.tbRows entityId currency) ∧ t = s := by
  simp only [entityTb, Prog.run_query_bind, run_lift_bind_ok] at h
  obtain ⟨_, _, h⟩ := h
  cases h
  exact ⟨rfl, rfl⟩

theorem addEntity_ok {currency : String} {acc acc' : List EntityStatementPack × Combined}
    {entity : Uuid × EntityRow} {s t : Db}
    (h : (addEntity currency acc entity).run s = .ok (acc', t)) :
    t = s ∧ acc'.2 = (s.tbRows entity.1 currency).foldl Combined.addRow acc.2 ∧
      (i64Modulus : Int) ∣ ((s.tbRows entity.1 currency).map TrialBalanceRow.net).sum := by
  obtain ⟨tb, s', htb, h⟩ := Prog.run_bind_ok.mp h
  obtain ⟨rfl, rfl⟩ := entityTb_ok htb
  obtain ⟨hbal, h⟩ := Prog.run_require_bind_ok.mp h
  cases h
  exact ⟨rfl, rfl, TrialBalance.ofRows_balanced.mp hbal⟩

/-- The map after the loop over the entities: every account has the sum over the entities, in the
order and as often as they come, and the balances still balance. -/
theorem addEntities_ok {currency : String} {entities : List (Uuid × EntityRow)}
    {acc acc' : List EntityStatementPack × Combined} {s t : Db}
    (h : (entities.foldlM (addEntity currency) acc).run s = .ok (acc', t)) (hacc : acc.2.Balanced) :
    t = s ∧ acc'.2.Balanced ∧ ∀ code ∈ s.accounts.keys, ∀ debit credit,
      acc.2.Holds code debit credit → acc'.2.Holds code
        (debit + ((entities.map Prod.fst).map (s.entityDebit currency code)).sum)
        (credit + ((entities.map Prod.fst).map (s.entityCredit currency code)).sum) := by
  induction entities generalizing acc s with
  | nil =>
    cases h
    exact ⟨rfl, hacc, fun code _ debit credit hh => by simpa using hh⟩
  | cons entity entities ih =>
    rw [List.foldlM_cons] at h
    obtain ⟨acc₁, s₁, h₁, hrest⟩ := Prog.run_bind_ok.mp h
    obtain ⟨rfl, hrows, hdvd⟩ := addEntity_ok h₁
    obtain ⟨rfl, hbal, hholds⟩ := ih hrest (hrows ▸ hacc.addRows hdvd)
    refine ⟨rfl, hbal, fun code hcode debit credit hh => ?_⟩
    obtain ⟨acct, hacct⟩ := Option.ne_none_iff_exists'.mp fun hn => Table.find?_eq_none.mp hn hcode
    have hadd := hh.addRows (t.tbRows entity.1 currency)
    rw [← hrows, sum_tbRows hacct fun r hr => not_not.mp (not_or.mp hr).1,
      sum_tbRows hacct fun r hr => not_not.mp (not_or.mp hr).2] at hadd
    simp only [List.map_cons, List.sum_cons, ← add_assoc]
    exact hholds code hcode _ _ hadd

/-- What the entries of an entity up to a day add to an account. -/
def Db.entityNetUpTo (db : Db) (currency : String) (asOf : Date) (code : String) (entityId : Uuid) :
    Int :=
  (((db.entityLines entityId currency).filter fun l =>
    (db.journalEntries.find? l.entryId).any fun je => je.entryDate ≤ asOf).map (·.netOn code)).sum

/-- What its entries after that day add. -/
def Db.entityNetAfter (db : Db) (currency : String) (asOf : Date) (code : String) (entityId : Uuid) :
    Int :=
  (((db.entityLines entityId currency).filter fun l =>
    (db.journalEntries.find? l.entryId).any fun je => asOf < je.entryDate).map (·.netOn code)).sum

theorem sum_netOn (code : String) (ls : List JournalLineRow) :
    (ls.map (·.netOn code)).sum =
      ((ls.filter fun l => l.accountCode = code).map (·.debitMinor)).sum -
        ((ls.filter fun l => l.accountCode = code).map (·.creditMinor)).sum := by
  induction ls with
  | nil => rfl
  | cons l ls ih =>
    rw [List.map_cons, List.sum_cons, ih]
    by_cases h : l.accountCode = code
    · simp only [JournalLineRow.netOn, h, if_true, List.filter_cons, decide_true, List.map_cons,
        List.sum_cons]
      omega
    · simp [JournalLineRow.netOn, h]

theorem Db.entityNet_split (db : Db) (currency : String) (asOf : Date) (code : String)
    (entityId : Uuid) :
    db.entityDebit currency code entityId - db.entityCredit currency code entityId =
      db.entityNetUpTo currency asOf code entityId + db.entityNetAfter currency asOf code entityId := by
  have hfound : ∀ l ∈ db.entityLines entityId currency, (db.journalEntries.find? l.entryId).isSome :=
    fun l hl => Option.isSome_of_any (List.mem_filter.mp hl).2
  rw [Db.entityDebit, Db.entityCredit, ← sum_netOn, Db.entityNetUpTo, Db.entityNetAfter]
  generalize db.entityLines entityId currency = ls at hfound
  induction ls with
  | nil => rfl
  | cons l ls ih =>
    have ih := ih fun x hx => hfound x (List.mem_cons_of_mem l hx)
    obtain ⟨je, hje⟩ := Option.isSome_iff_exists.mp (hfound l List.mem_cons_self)
    by_cases h : je.entryDate ≤ asOf
    · have hlt : ¬asOf < je.entryDate := Int.not_lt.mpr h
      simp only [List.map_cons, List.sum_cons, List.filter_cons, hje, Option.any_some, h, hlt,
        decide_true, decide_false, if_true, Bool.false_eq_true, if_false, ih]
      omega
    · have hlt : asOf < je.entryDate := Int.not_le.mp h
      simp only [List.map_cons, List.sum_cons, List.filter_cons, hje, Option.any_some, h, hlt,
        decide_true, decide_false, if_true, Bool.false_eq_true, if_false, ih]
      omega

/-- What a run counts on an account beyond the entries up to the day, each entity once: every
further naming of an entity, and its later entries. -/
def Db.miscounted (db : Db) (entityIds : List Uuid) (currency : String) (asOf : Date)
    (code : String) : Int :=
  ∑ e ∈ entityIds.toFinset,
    ((entityIds.count e - 1) * (db.entityDebit currency code e - db.entityCredit currency code e) +
      db.entityNetAfter currency asOf code e)

/-- What an account loses because its totals of debits and credits leave the 64-bit words. -/
def Db.wrappedOff (db : Db) (entityIds : List Uuid) (currency code : String) : Int :=
  i64Modulus * (overflows (entityIds.map (db.entityDebit currency code)).sum -
    overflows (entityIds.map (db.entityCredit currency code)).sum)

/-- The trial balance is balanced, without intercompany rows, and on every other account the sum
of the distinct entities, of their entries up to the day. -/
structure EliminatedSum (db : Db) (entityIds : List Uuid) (currency : String) (asOf : Date)
    (tb : TrialBalance) : Prop where
  balanced : tb.balanced = true
  totals : tb.totalDebitMinor = tb.totalCreditMinor
  eliminated : ∀ r ∈ tb.rows, r.accountCode ∉ intercompanyCodes
  sums : ∀ code ∈ db.accounts.keys, code ∉ intercompanyCodes →
    tb.net code = ∑ e ∈ entityIds.toFinset, db.entityNetUpTo currency asOf code e

/-- The words of the two totals differ from the sum asked for by what is counted beyond it, less
what wraps off. -/
theorem Db.wrap_sub_wrap (db : Db) (entityIds : List Uuid) (currency : String) (asOf : Date)
    (code : String) :
    wrapI64 (entityIds.map (db.entityDebit currency code)).sum -
        wrapI64 (entityIds.map (db.entityCredit currency code)).sum =
      (∑ e ∈ entityIds.toFinset, db.entityNetUpTo currency asOf code e) +
        db.miscounted entityIds currency asOf code - db.wrappedOff entityIds currency code := by
  have hcount : (entityIds.map (db.entityDebit currency code)).sum -
      (entityIds.map (db.entityCredit currency code)).sum =
      (∑ e ∈ entityIds.toFinset, db.entityNetUpTo currency asOf code e) +
        db.miscounted entityIds currency asOf code := by
    rw [← sum_map_sub, Finset.sum_list_map_count, Db.miscounted, ← Finset.sum_add_distrib]
    refine Finset.sum_congr rfl fun e _ => ?_
    have hsplit := db.entityNet_split currency asOf code e
    rw [nsmul_eq_mul, sub_mul, one_mul]
    omega
  rw [wrapI64_eq, wrapI64_eq, Db.wrappedOff, mul_sub]
  omega

section Run
variable [Formats]

def Db.requestedIds (db : Db) : Option (List String) → Except AppError (List Uuid)
  | some ids => ids.mapM (parsePublicId .financeEntity)
  | none => .ok ((db.entities.rows.insertionSort fun a b => a.2.code ≤ b.2.code).map Prod.fst)

theorem findEntities_ok {ids : List String} {s t : Db} {entities : List (Uuid × EntityRow)}
    (h : (findEntities ids).run s = .ok (entities, t)) :
    t = s ∧ ids.mapM (parsePublicId .financeEntity) = .ok (entities.map Prod.fst) := by
  induction ids generalizing entities t with
  | nil =>
    cases h
    exact ⟨rfl, rfl⟩
  | cons id ids ih =>
    simp only [findEntities, run_lift_bind_ok, Prog.run_query_bind, foundOr_ok] at h
    obtain ⟨uuid, huuid, r, _, h⟩ := h
    obtain ⟨rest, s', hrest, hp⟩ := Prog.run_bind_ok.mp h
    obtain ⟨rfl, hids⟩ := ih hrest
    cases hp
    rw [List.mapM_cons, huuid]
    exact ⟨rfl, by simp [bind, Except.bind, hids, pure, Except.pure]⟩

theorem selectEntities_ok {entityIds : Option (List String)} {s t : Db}
    {entities : List (Uuid × EntityRow)}
    (h : (selectEntities entityIds).run s = .ok (entities, t)) :
    t = s ∧ s.requestedIds entityIds = .ok (entities.map Prod.fst) := by
  cases entityIds with
  | none =>
    cases h
    exact ⟨rfl, rfl⟩
  | some ids => exact findEntities_ok h

/-- A successful run's trial balance is the eliminated sum exactly when, on every account that is
not an intercompany one, repeated entities and later entries net to nothing but what wraps off. -/
theorem eliminated_sum_iff {ctx : RequestCtx} {body : ConsolidationRequest} {s t : Db}
    {dto : ConsolidationRunDto} (h : (runConsolidation ctx body).run s = .ok (dto, t)) :
    ∃ ids asOf, s.requestedIds body.entityIds = .ok ids ∧ parseAsOf ctx body.asOf = .ok asOf ∧
      (EliminatedSum s ids (body.currency.getD "USD") asOf dto.consolidatedTrialBalance ↔
        ∀ code ∈ s.accounts.keys, code ∉ intercompanyCodes →
          s.miscounted ids (body.currency.getD "USD") asOf code =
            s.wrappedOff ids (body.currency.getD "USD") code) := by
  simp only [runConsolidation, run_lift_bind_ok] at h
  obtain ⟨_, _, asOf, hasOf, h⟩ := h
  obtain ⟨entities, s₁, hsel, h₁⟩ := Prog.run_bind_ok.mp h
  obtain ⟨rfl, hids⟩ := selectEntities_ok hsel
  obtain ⟨⟨packs, combined⟩, s₂, hloop, h₂⟩ := Prog.run_bind_ok.mp h₁
  obtain ⟨rfl, hbal, hholds⟩ := addEntities_ok hloop ⟨0, rfl⟩
  obtain ⟨hnet, h₃⟩ := Prog.run_require_bind_ok.mp h₂
  obtain ⟨_, h₄⟩ := Prog.run_execute_bind_ok.mp h₃
  cases h₄
  refine ⟨_, asOf, hids, hasOf, ?_⟩
  generalize body.currency.getD "USD" = currency at hholds ⊢
  have hbalanced := hbal.eliminate.ofRows currency
  have hsum : ∀ code ∈ s₂.accounts.keys, code ∉ intercompanyCodes →
      (TrialBalance.ofRows currency (consolidatedRows combined.eliminate.rowsByCode)).net code =
        (∑ e ∈ (entities.map Prod.fst).toFinset, s₂.entityNetUpTo currency asOf code e) +
          s₂.miscounted (entities.map Prod.fst) currency asOf code -
            s₂.wrappedOff (entities.map Prod.fst) currency code := by
    intro code hcode hic
    rw [((hholds code hcode 0 0 ⟨rfl, rfl⟩).eliminate hic).net_ofRows, zero_add, zero_add,
      Db.wrap_sub_wrap _ _ _ asOf]
  constructor
  · intro he code hcode hic
    have hclaim := he.sums code hcode hic
    rw [hsum code hcode hic] at hclaim
    omega
  · intro hmis
    refine ⟨hbalanced, of_decide_eq_true hbalanced, fun r hr hic => ?_, fun code hcode hic => ?_⟩
    · have hr := List.mem_filter.mp hr
      refine of_decide_eq_true hr.2 (hnet r (List.mem_filter.mp hr.1).1 hic)
    · rw [hsum code hcode hic, hmis code hcode hic, add_sub_cancel_right]

def Db.StampedBalanced (db : Db) : Prop :=
  ∀ r ∈ db.journalEntries.rows, r.2.entityId.isSome ∧
    ((db.linesOf r.1).map (·.debitMinor)).sum = ((db.linesOf r.1).map (·.creditMinor)).sum

instance (db : Db) : Decidable db.StampedBalanced := inferInstanceAs (Decidable (∀ _ ∈ _, _))

omit [Formats] in
theorem eliminated_sum_iff_dollar :
    letI := canonicalFormats
    ∃ dto t, (runConsolidation (.nth 1) {}).run Db.oneEntry = .ok (dto, t) ∧
      ∃ ids asOf, Db.oneEntry.requestedIds none = .ok ids ∧ parseAsOf (.nth 1) none = .ok asOf ∧
        (EliminatedSum Db.oneEntry ids "USD" asOf dto.consolidatedTrialBalance ↔
          ∀ code ∈ Db.oneEntry.accounts.keys, code ∉ intercompanyCodes →
            Db.oneEntry.miscounted ids "USD" asOf code = Db.oneEntry.wrappedOff ids "USD" code) := by
  let := canonicalFormats
  obtain ⟨dto, t, h, _⟩ := Prog.run_of_check (p := runConsolidation (.nth 1) {}) (s := Db.oneEntry)
    (P := fun _ _ => true) (by decide +kernel)
  exact ⟨dto, t, h, eliminated_sum_iff h⟩

omit [Formats] in
/-- A sale of March is in the consolidation as of January. -/
theorem consolidation_counts_later :
    letI := canonicalFormats
    Db.oneEntry.StampedBalanced ∧ ∃ dto t ids asOf,
      (runConsolidation (.nth 1) { asOf := some "2024-01-31" }).run Db.oneEntry = .ok (dto, t) ∧
        Db.oneEntry.requestedIds none = .ok ids ∧
        parseAsOf (.nth 1) (some "2024-01-31") = .ok asOf ∧
        dto.consolidatedTrialBalance.net codes.CASH = 100 ∧
        ¬EliminatedSum Db.oneEntry ids "USD" asOf dto.consolidatedTrialBalance := by
  let := canonicalFormats
  refine ⟨by decide +kernel, ?_⟩
  obtain ⟨dto, t, h, hnet⟩ := Prog.run_of_check
    (p := runConsolidation (.nth 1) { asOf := some "2024-01-31" }) (s := Db.oneEntry)
    (P := fun dto _ => dto.consolidatedTrialBalance.net codes.CASH = 100) (by decide +kernel)
  have hnet := of_decide_eq_true hnet
  refine ⟨dto, t, [61], ⟨2024, 1, 31, by decide⟩, h, by decide +kernel, by decide +kernel, hnet, ?_⟩
  intro he
  have hsum := he.sums codes.CASH (by decide +kernel) (by decide)
  rw [hnet] at hsum
  have hzero : (∑ e ∈ [61].toFinset,
      Db.oneEntry.entityNetUpTo "USD" ⟨2024, 1, 31, by decide⟩ codes.CASH e) = 0 := by
    decide +kernel
  omega

end Run

end Noxara.Finance
