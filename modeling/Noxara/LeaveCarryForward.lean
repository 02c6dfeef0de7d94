import Noxara.CalendarRanges
import Noxara.CrmRequests
import Noxara.LeaveLedgers
import Mathlib.Tactic.Ring

/-! The year-end run: each balance is set to zero and what may be carried forward is posted again. -/
namespace Noxara.Leave

open Transaction Words
open Finance (Uuid Date AppError internal validation naiveDateMax)
open Authz (Principal TimeFormats canonicalTimeFormats)
open Workspace (forbidden enforceAnyScope)

/-- `NaiveDate::MIN`. -/
def naiveDateMin : Date := ⟨-262143, 1, 1, by decide⟩

/-- The sum of a date and a duration panics outside the calendar. -/
def plusDays (d : Date) (days : Int) : Option Date :=
  let shifted := d.shift days
  if naiveDateMin ≤ shifted ∧ shifted ≤ naiveDateMax then some shifted else none

def AccrualPolicy.capped (policy : AccrualPolicy) (balance : Int) : Int :=
  match policy.carryForwardCapMilli with
  | some cap => min balance cap
  | none => balance

/-- `none` is a panic. -/
def carryForwardCredit (balanceAtYearEnd : Int) (policy : AccrualPolicy) (yearEnd : Date) :
    Option (Option (Int × Option Date)) :=
  if balanceAtYearEnd ≤ 0 then some none
  else
    let capped := policy.capped balanceAtYearEnd
    if capped ≤ 0 then some none
    else match policy.expiryDays with
      | none => some (some (capped, none))
      | some days => (plusDays yearEnd days).map fun expiresOn => some (capped, some expiresOn)

example : carryForwardCredit 12000 ⟨.yearly, 20000, some 5000, some 90⟩ ⟨2025, 12, 31, by decide⟩ =
    some (some (5000, some ⟨2026, 3, 31, by decide⟩)) := by decide +kernel

/-- A request: the build, the organisation, the key of the request and what loading the membership gave. -/
structure CarryForwardCtx where
  build : Build
  orgPublicId : String
  idemKey : Option String
  membership : Except AppError Principal

def yearEnd (year : Int) : Date := ⟨year, 12, 31, by decide, by decide, by decide, by simp [Finance.daysInMonth]⟩

def nextYearStart (year : Int) : Date :=
  ⟨year + 1, 1, 1, by decide, by decide, by decide, by simp [Finance.daysInMonth]⟩

def Db.activeLeaveTypes (s : Db) : List (Uuid × LeaveTypeRow) :=
  s.leaveTypes.rows.filter fun r => r.2.deleted = false ∧ r.2.isActive = true

def Db.staff (s : Db) : List (Uuid × EmployeeRow) :=
  s.employees.rows.filter fun r =>
    r.2.deleted = false ∧ (r.2.status = .active ∨ r.2.status = .onLeave ∨ r.2.status = .onboarding)

/-- The entry that sets a balance to zero. -/
def zeroRow (year : Int) (employee : Uuid × EmployeeRow) (lt : Uuid × LeaveTypeRow) (units : Int) : LedgerRow :=
  ⟨employee.1, lt.1, .expiry, units, nextYearStart year, none, none, some "year-end zero",
    some (.cfZero year lt.2.publicId), employee.2.ownerUserId⟩

def carriedRow (year : Int) (employee : Uuid × EmployeeRow) (lt : Uuid × LeaveTypeRow)
    (credit : Int × Option Date) : LedgerRow :=
  ⟨employee.1, lt.1, .carryForward, credit.1, nextYearStart year, credit.2, none, some "year-end carry-forward",
    some (.cf year lt.2.publicId), employee.2.ownerUserId⟩

def postCounted (ctx : CarryForwardCtx) (row : LedgerRow) (entriesPosted : Int) : Tx Int := do
  let _ ← insertLedgerEntry row
  orPanic (ctx.build.arith i32 (entriesPosted + 1))

def zeroBalance (ctx : CarryForwardCtx) (year : Int) (employee : Uuid × EmployeeRow) (lt : Uuid × LeaveTypeRow)
    (bal entriesPosted : Int) : Tx Int :=
  if bal = 0 then return entriesPosted
  else do
    let negated ← orPanic (ctx.build.arith i32 (-bal))
    postCounted ctx (zeroRow year employee lt negated) entriesPosted

/-- The turn of the loops for an employee and a leave type. -/
def carryForward (ctx : CarryForwardCtx) (year : Int) (employee : Uuid × EmployeeRow) (lt : Uuid × LeaveTypeRow)
    (entriesPosted : Int) : Tx Int :=
  if lt.2.category = .unpaid ∨ lt.2.accrualCadence = .none then return entriesPosted
  else do
    let entries ← loadLedgerEntries employee.1 lt.1
    let bal ← orPanic (balanceAsOf ctx.build entries (yearEnd year))
    let posted ← zeroBalance ctx year employee lt bal entriesPosted
    let credit ← orPanic (carryForwardCredit (max bal 0) lt.2.policy (yearEnd year))
    match credit with
    | some credit => postCounted ctx (carriedRow year employee lt credit) posted
    | none => return posted

/-- The two loops, as one over the pairs. -/
def carryForwardAll (ctx : CarryForwardCtx) (year : Int) :
    List ((Uuid × EmployeeRow) × (Uuid × LeaveTypeRow)) → Int → Tx Int
  | [], entriesPosted => return entriesPosted
  | pair :: pairs, entriesPosted => do
    let posted ← carryForward ctx year pair.1 pair.2 entriesPosted
    carryForwardAll ctx year pairs posted

def insertRun (year : Int) (row : CarryForwardRunRow) : Tx Unit :=
  .execute (fun _ => [.year year])
    (fun v =>
      if year ∈ v.carryForwardRuns.keys then
        .error (.error (internal
          "duplicate key value violates unique constraint \"people_leave_carry_forward_run_org_id_year_key\""))
      else .ok ())
    fun _ s => { s with carryForwardRuns := s.carryForwardRuns.insert year row }

def answers : AnswerTable Db Lock CarryForwardResponse where
  rows := Db.idempotency
  keep s t := { s with idempotency := t }
  lock := .idempotency

/-- The run itself. -/
def carryForwardYear (ctx : CarryForwardCtx) (year : Int) : Tx CarryForwardResponse := do
  let types ← .query (·.activeLeaveTypes)
  let employees ← .query (·.staff)
  let entriesPosted ← carryForwardAll ctx year (employees.product types) 0
  let workflowId := s!"{ctx.orgPublicId}:LeaveCarryForward:{year}"
  insertRun year ⟨workflowId, .completed, entriesPosted⟩
  let resp : CarryForwardResponse := ⟨workflowId, year, "completed", entriesPosted, false⟩
  answers.record ctx.idemKey "leave.carry_forward" resp
  return resp

def runCarryForward [TimeFormats] (ctx : CarryForwardCtx) (year : Int) : Tx CarryForwardResponse := do
  .require (2000 ≤ year ∧ year ≤ 2100) (.error (validation "year out of range"))
  let principal ← .ofExcept (ctx.membership.mapError .error)
  .ofExcept ((enforceAnyScope principal "hr.leave.write").mapError .error)
  .require (principal.roles ≠ [.member]) (.error (forbidden "members cannot run year-end carry-forward"))
  answers.replayOr ctx.idemKey "leave.carry_forward" id do
    let existing ← .query (·.carryForwardRuns.find? year)
    match existing with
    | some run => return ⟨run.workflowId, year, run.status.text, run.entriesPosted, true⟩
    | none => carryForwardYear ctx year

/-- The entries that take effect after the end of the year. -/
def laterUnits (entries : List LedgerEntry) (yearEnd d : Date) : Int :=
  countedUnits (entries.filter fun e => yearEnd < e.effectiveDate) d

namespace AccrualPolicy

def carried (policy : AccrualPolicy) (balance : Int) : Int := max 0 (policy.capped balance)

def CarriedExpired (policy : AccrualPolicy) (yearEnd d : Date) : Prop :=
  ∃ days ∈ policy.expiryDays, yearEnd.shift days < d

instance (policy : AccrualPolicy) (yearEnd d : Date) : Decidable (policy.CarriedExpired yearEnd d) := by
  unfold CarriedExpired
  infer_instance

end AccrualPolicy

section
variable {entries : List LedgerEntry} {year : Int} {d : Date}

theorem nextYearStart_le (h : yearEnd year < d) : nextYearStart year ≤ d := by
  have hsucc : (yearEnd year).succ = nextYearStart year := by
    unfold Date.succ yearEnd nextYearStart
    rw [dif_neg (by simp [Finance.daysInMonth]), dif_neg (Nat.lt_irrefl 12)]
  rw [← hsucc]
  exact Date.succ_le_of_lt h

/-- After the end of the year the entries up to it count as they did, as long as none that counted expires. -/
theorem countedUnits_later {yearEnd : Date} (hd : yearEnd < d)
    (hkept : ∀ e ∈ entries, e.Counts yearEnd → ¬e.Expired d) :
    countedUnits entries d = countedUnits entries yearEnd + laterUnits entries yearEnd d := by
  induction entries with
  | nil => rfl
  | cons e entries ih =>
    have hrest := ih fun x hx => hkept x (List.mem_cons_of_mem e hx)
    have hnow := hkept e List.mem_cons_self
    unfold laterUnits countedUnits at hrest ⊢
    rw [List.map_cons, List.sum_cons, List.map_cons, List.sum_cons, hrest]
    rcases Date.le_or_lt e.effectiveDate yearEnd with hle | hlt
    · have hsame : e.countedUnits d = e.countedUnits yearEnd := by
        unfold LedgerEntry.countedUnits
        by_cases hcounts : e.Counts yearEnd
        · rw [if_pos hcounts, if_pos ⟨Int.le_trans hle (Int.le_of_lt hd), hnow hcounts⟩]
        · rw [if_neg hcounts, if_neg fun h => hcounts (counts_of_later hle (Int.le_of_lt hd) h)]
      rw [List.filter_cons_of_neg (by simpa using Date.not_lt.mpr hle), hsame]
      ring
    · have hnot : e.countedUnits yearEnd = 0 := if_neg fun h => absurd h.1 (Date.not_le.mpr hlt)
      rw [List.filter_cons_of_pos (by simpa using hlt), List.map_cons, List.sum_cons, hnot]
      ring

theorem countedUnits_zeroRow (employee : Uuid × EmployeeRow) (lt : Uuid × LeaveTypeRow) (units : Int)
    (hd : yearEnd year < d) : (zeroRow year employee lt units).entry.countedUnits d = units :=
  if_pos ⟨nextYearStart_le hd, fun h => by obtain ⟨-, exp, hexp, -⟩ := h; cases hexp⟩

theorem capped_le (policy : AccrualPolicy) (balance : Int) : policy.capped balance ≤ balance := by
  unfold AccrualPolicy.capped
  split
  · exact min_le_left _ _
  · exact le_rfl

theorem countedUnits_carriedRow (employee : Uuid × EmployeeRow) (lt : Uuid × LeaveTypeRow) {units : Int}
    (expiresOn : Option Date) (hpos : 0 < units) (hd : yearEnd year < d) :
    (carriedRow year employee lt (units, expiresOn)).entry.countedUnits d =
      if ∃ exp ∈ expiresOn, exp < d then 0 else units := by
  have hcounts : (carriedRow year employee lt (units, expiresOn)).entry.Counts d ↔ ¬∃ exp ∈ expiresOn, exp < d :=
    ⟨fun h hexp => h.2 ⟨hpos, hexp⟩, fun h => ⟨nextYearStart_le hd, fun hexp => h hexp.2⟩⟩
  unfold LedgerEntry.countedUnits
  by_cases hexp : ∃ exp ∈ expiresOn, exp < d
  · rw [if_pos hexp, if_neg fun h => hcounts.mp h hexp]
  · rw [if_neg hexp, if_pos (hcounts.mpr hexp)]
    rfl

theorem countedUnits_credit {policy : AccrualPolicy} {balance : Int} {credit : Option (Int × Option Date)}
    (h : carryForwardCredit (max balance 0) policy (yearEnd year) = some credit) (hd : yearEnd year < d)
    (employee : Uuid × EmployeeRow) (lt : Uuid × LeaveTypeRow) :
    countedUnits ((credit.map (carriedRow year employee lt)).toList.map (·.entry)) d =
      if policy.CarriedExpired (yearEnd year) d then 0 else policy.carried balance := by
  have hle := capped_le policy balance
  unfold carryForwardCredit at h
  dsimp only at h
  unfold AccrualPolicy.carried
  split_ifs at h with hnone hcapped
  · -- Nothing is left at the end of the year.
    cases h
    rw [max_eq_left (by omega), ite_self]
    rfl
  · -- The cap lets nothing through.
    cases h
    rw [max_eq_left (by rw [max_eq_left (by omega)] at hcapped; exact hcapped), ite_self]
    rfl
  · rw [max_eq_left (by omega : (0 : Int) ≤ balance)] at h hcapped
    have hpos : 0 < policy.capped balance := not_le.mp hcapped
    rw [max_eq_right hpos.le]
    have hsingle : ∀ row : LedgerRow, countedUnits ((some row).toList.map (·.entry)) d = row.entry.countedUnits d :=
      fun row => countedUnits_singleton row.entry d
    split at h
    · next hdays =>
      cases h
      have hkept : ¬policy.CarriedExpired (yearEnd year) d := fun ⟨days, hmem, _⟩ => by
        rw [hdays] at hmem
        cases hmem
      have hnever : ¬∃ exp ∈ (none : Option Date), exp < d := fun ⟨exp, hmem, _⟩ => by cases hmem
      rw [Option.map_some, hsingle, countedUnits_carriedRow employee lt none hpos hd, if_neg hkept, if_neg hnever]
    · next days hdays =>
      obtain ⟨exp, hexp, hcredit⟩ := Option.map_eq_some_iff.mp h
      obtain rfl := hcredit
      have hshift : exp = (yearEnd year).shift days := by
        unfold plusDays at hexp
        dsimp only at hexp
        split_ifs at hexp
        exact (Option.some.inj hexp).symm
      rw [Option.map_some, hsingle, countedUnits_carriedRow employee lt (some exp) hpos hd, hshift]
      refine if_congr ?_ rfl rfl
      unfold AccrualPolicy.CarriedExpired
      rw [hdays]
      simp

end

def LedgerRow.OfYear (year : Int) (row : LedgerRow) : Prop :=
  ∃ lt, row.sourceKey = some (.cfZero year lt) ∨ row.sourceKey = some (.cf year lt)

def resetRows (year : Int) (employee : Uuid × EmployeeRow) (lt : Uuid × LeaveTypeRow) (balance : Int)
    (credit : Option (Int × Option Date)) : List LedgerRow :=
  (if balance = 0 then [] else [zeroRow year employee lt (i32.wrap (-balance))]) ++
    (credit.map (carriedRow year employee lt)).toList

/-- A leave type whose balances are carried forward. -/
def LeaveTypeRow.Accrues (lt : LeaveTypeRow) : Prop := ¬(lt.category = .unpaid ∨ lt.accrualCadence = .none)

instance (lt : LeaveTypeRow) : Decidable lt.Accrues := inferInstanceAs (Decidable (¬_))

/-- No entry of an employee and a leave type is of the year's run. -/
def NotYet (year : Int) (s : Db) (e l : Uuid) : Prop := ∀ row ∈ s.rowsOf e l, ¬row.OfYear year

/-- From one state to the other the balance was reset, if it had to be. -/
def Reset (ctx : CarryForwardCtx) (year : Int) (employee : Uuid × EmployeeRow) (lt : Uuid × LeaveTypeRow)
    (s t : Db) : Prop :=
  lt.2.Accrues → NotYet year s employee.1 lt.1 →
    ∃ balance credit, balanceAsOf ctx.build (s.ledgerEntries employee.1 lt.1) (yearEnd year) = some balance ∧
      carryForwardCredit (max balance 0) lt.2.policy (yearEnd year) = some credit ∧
      t.rowsOf employee.1 lt.1 = s.rowsOf employee.1 lt.1 ++ resetRows year employee lt balance credit

variable {ctx : CarryForwardCtx} {year : Int} {employee : Uuid × EmployeeRow} {lt : Uuid × LeaveTypeRow}
  {s s' t t' : Db}

theorem Reset.congr (h : Reset ctx year employee lt s t) (hs : s'.rowsOf employee.1 lt.1 = s.rowsOf employee.1 lt.1)
    (ht : t'.rowsOf employee.1 lt.1 = t.rowsOf employee.1 lt.1) : Reset ctx year employee lt s' t' := by
  unfold Reset NotYet Db.ledgerEntries at h ⊢
  rw [hs, ht]
  exact h

theorem run_postCounted {row : LedgerRow} {n : Int} {r : Int × Db} (h : (postCounted ctx row n).run s = .ok r) :
    ∃ rows, r.2 = s.appended rows ∧ (∀ x ∈ rows, x = row) ∧
      ((∀ key ∈ row.sourceKey, ∀ x ∈ s.rowsOf row.employeeId row.leaveTypeId, x.sourceKey ≠ some key) →
        rows = [row]) := by
  unfold postCounted orPanic at h
  obtain ⟨inserted, t, hinsert, h⟩ := Prog.run_bind_ok.mp h
  obtain ⟨-, ht⟩ := Prog.run_okOr_ok.mp h
  rcases run_insertLedgerEntry hinsert with hsame | hposted
  · have hsame : t = s := hsame
    refine ⟨[], ?_, fun x hx => absurd hx List.not_mem_nil, fun hfresh => ?_⟩
    · rw [ht, hsame, appended_nil]
    · have hposted := run_insertLedgerEntry_fresh hinsert fun key hkey => rowByKey_eq_none (hfresh key hkey)
      have hlen := congrArg (·.ledger.length) (hsame.symm.trans hposted)
      simp [Db.appended] at hlen
  · exact ⟨[row], ht.trans hposted, fun x hx => List.mem_singleton.mp hx, fun _ => rfl⟩

theorem run_zeroBalance {bal n : Int} {r : Int × Db} (h : (zeroBalance ctx year employee lt bal n).run s = .ok r) :
    ∃ rows, r.2 = s.appended rows ∧ (∀ x ∈ rows, x = zeroRow year employee lt (i32.wrap (-bal))) ∧
      (NotYet year s employee.1 lt.1 →
        rows = if bal = 0 then [] else [zeroRow year employee lt (i32.wrap (-bal))]) := by
  unfold zeroBalance at h
  split_ifs at h ⊢ with hzero
  · cases h
    exact ⟨[], (appended_nil s).symm, fun x hx => absurd hx List.not_mem_nil, fun _ => rfl⟩
  · unfold orPanic at h
    obtain ⟨negated, hnegated, h⟩ := Prog.run_okOr_bind_ok.mp h
    obtain rfl := Build.arith_some hnegated
    obtain ⟨rows, ht, hrows, hfresh⟩ := run_postCounted h
    refine ⟨rows, ht, hrows, fun hnot => hfresh ?_⟩
    rintro _ ⟨⟩ x hx hkey
    exact hnot x hx ⟨_, Or.inl hkey⟩

theorem run_carryForward {n : Int} {r : Int × Db} (h : (carryForward ctx year employee lt n).run s = .ok r) :
    ∃ rows, r.2 = s.appended rows ∧
      (∀ row ∈ rows, (row.employeeId = employee.1 ∧ row.leaveTypeId = lt.1) ∧ row.OfYear year) ∧
      Reset ctx year employee lt s r.2 := by
  unfold carryForward at h
  split_ifs at h with hskip
  · cases h
    exact ⟨[], (appended_nil s).symm, fun x hx => absurd hx List.not_mem_nil, fun haccrues => absurd hskip haccrues⟩
  · unfold loadLedgerEntries orPanic at h
    rw [Prog.run_query_bind] at h
    obtain ⟨bal, hbal, h⟩ := Prog.run_okOr_bind_ok.mp h
    obtain ⟨posted, t, hzero, h⟩ := Prog.run_bind_ok.mp h
    obtain ⟨credit, hcredit, h⟩ := Prog.run_okOr_bind_ok.mp h
    obtain ⟨zeros, rfl, hzeros, hzerosFresh⟩ := run_zeroBalance hzero
    have hours : ∀ row ∈ zeros, (row.employeeId = employee.1 ∧ row.leaveTypeId = lt.1) ∧ row.OfYear year :=
      fun row hrow => by
        rw [hzeros row hrow]
        exact ⟨⟨rfl, rfl⟩, _, Or.inl rfl⟩
    have hzerosOf := rowsOf_appended_own (s := s) fun row hrow => (hours row hrow).1
    cases credit with
    | none =>
      cases h
      refine ⟨zeros, rfl, hours, fun _ hnot => ⟨bal, none, hbal, hcredit, ?_⟩⟩
      rw [hzerosOf, hzerosFresh hnot]
      exact congrArg _ (List.append_nil _).symm
    | some credit =>
      obtain ⟨more, ht, hmore, hmoreFresh⟩ := run_postCounted h
      have hall : ∀ row ∈ zeros ++ more, (row.employeeId = employee.1 ∧ row.leaveTypeId = lt.1) ∧
          row.OfYear year := by
        intro row hrow
        rcases List.mem_append.mp hrow with hrow | hrow
        · exact hours row hrow
        · rw [hmore row hrow]
          exact ⟨⟨rfl, rfl⟩, _, Or.inr rfl⟩
      rw [appended_appended] at ht
      refine ⟨zeros ++ more, ht, hall, fun _ hnot => ⟨bal, some credit, hbal, hcredit, ?_⟩⟩
      have hcarried : more = [carriedRow year employee lt credit] := by
        refine hmoreFresh ?_
        rintro _ ⟨⟩ x hx hkey
        change x ∈ (s.appended zeros).rowsOf employee.1 lt.1 at hx
        rw [hzerosOf] at hx
        rcases List.mem_append.mp hx with hx | hx
        · exact hnot x hx ⟨_, Or.inr hkey⟩
        · rw [hzeros x hx] at hkey
          cases hkey
      rw [ht, rowsOf_appended_own fun row hrow => (hall row hrow).1, hzerosFresh hnot, hcarried]
      rfl

/-- The turns of the loops: each pair's balance is reset in its own turn, and no other pair has a row of it. -/
theorem run_carryForwardAll {pairs : List ((Uuid × EmployeeRow) × (Uuid × LeaveTypeRow))} {n : Int} {r : Int × Db}
    (h : (carryForwardAll ctx year pairs n).run s = .ok r) (hnodup : (pairs.map fun p => (p.1.1, p.2.1)).Nodup) :
    ∃ rows, r.2 = s.appended rows ∧ (∀ row ∈ rows, row.OfYear year ∧
        (row.employeeId, row.leaveTypeId) ∈ pairs.map fun p => (p.1.1, p.2.1)) ∧
      ∀ p ∈ pairs, Reset ctx year p.1 p.2 s r.2 := by
  induction pairs generalizing n s with
  | nil =>
    cases h
    exact ⟨[], (appended_nil s).symm, fun x hx => absurd hx List.not_mem_nil,
      fun p hp => absurd hp List.not_mem_nil⟩
  | cons pair pairs ih =>
    rw [List.map_cons, List.nodup_cons] at hnodup
    unfold carryForwardAll at h
    obtain ⟨posted, mid, hturn, h⟩ := Prog.run_bind_ok.mp h
    obtain ⟨rows, hmid, hrows, hreset⟩ := run_carryForward hturn
    obtain ⟨more, ht, hmore, hresets⟩ := ih h hnodup.2
    have hmid : mid = s.appended rows := hmid
    refine ⟨rows ++ more, ?_, fun row hrow => ?_, fun p hp => ?_⟩
    · rw [ht, hmid, appended_appended]
    · rcases List.mem_append.mp hrow with hrow | hrow
      · obtain ⟨⟨he, hl⟩, hyear⟩ := hrows row hrow
        exact ⟨hyear, List.mem_cons.mpr (Or.inl (Prod.ext he hl))⟩
      · exact ⟨(hmore row hrow).1, List.mem_cons_of_mem _ (hmore row hrow).2⟩
    · rcases List.mem_cons.mp hp with rfl | hp
      · refine hreset.congr rfl ?_
        rw [ht]
        refine rowsOf_appended_other fun row hrow ⟨he, hl⟩ => hnodup.1 ?_
        have hkey := (hmore row hrow).2
        rw [he, hl] at hkey
        exact hkey
      · refine (hresets p hp).congr ?_ rfl
        rw [hmid]
        refine (rowsOf_appended_other fun row hrow ⟨he, hl⟩ => hnodup.1 ?_).symm
        have hkey : (p.1.1, p.2.1) ∈ pairs.map fun p => (p.1.1, p.2.1) := List.mem_map.mpr ⟨p, hp, rfl⟩
        obtain ⟨⟨he', hl'⟩, -⟩ := hrows row hrow
        rw [← he, ← hl, he', hl'] at hkey
        exact hkey

/-- The ledger has the entries of no year whose run is not recorded. -/
def YearsRecorded (s : Db) : Prop :=
    ∀ year, ∀ row ∈ s.ledger, row.OfYear year → year ∈ s.carryForwardRuns.keys

theorem LedgerRow.OfYear.unique {row : LedgerRow} {year year' : Int} (h : row.OfYear year) (h' : row.OfYear year') :
    year = year' := by
  obtain ⟨lt, h⟩ := h
  obtain ⟨lt', h'⟩ := h'
  rcases h with h | h <;> rcases h' with h' | h' <;> rw [h] at h' <;> cases h' <;> rfl

/-- No pair comes twice in the loops. -/
theorem nodup_pairs (s : Db) :
    ((s.staff.product s.activeLeaveTypes).map fun p => (p.1.1, p.2.1)).Nodup := by
  have hstaff : s.staff.Nodup := (s.employees.nodup.of_map _).filter _
  have htypes : s.activeLeaveTypes.Nodup := (s.leaveTypes.nodup.of_map _).filter _
  refine List.Nodup.map_on ?_ (hstaff.product htypes)
  rintro ⟨⟨e, employee⟩, l, lt⟩ hp ⟨⟨e', employee'⟩, l', lt'⟩ hp' heq
  obtain ⟨rfl, rfl⟩ := Prod.mk.inj heq
  obtain ⟨hemployee, hlt⟩ := List.pair_mem_product.mp hp
  obtain ⟨hemployee', hlt'⟩ := List.pair_mem_product.mp hp'
  rw [Table.row_unique (List.mem_of_mem_filter hemployee) (List.mem_of_mem_filter hemployee'),
    Table.row_unique (List.mem_of_mem_filter hlt) (List.mem_of_mem_filter hlt')]

theorem run_runCarryForward [TimeFormats] {r : CarryForwardResponse × Db}
    (h : (runCarryForward ctx year).run s = .ok r) :
    r.2 = s ∨ ∃ rows run, r.2.ledger = s.ledger ++ rows ∧
      r.2.carryForwardRuns = s.carryForwardRuns.insert year run ∧ year ∉ s.carryForwardRuns.keys ∧
      (∀ row ∈ rows, row.OfYear year) ∧
      ∀ employee ∈ s.staff, ∀ lt ∈ s.activeLeaveTypes, Reset ctx year employee lt s r.2 := by
  unfold runCarryForward at h
  simp only [Prog.run_require_bind_ok, Prog.run_ofExcept_bind_ok] at h
  obtain ⟨-, principal, -, -, -, -, h⟩ := h
  rcases AnswerTable.replayOr_ok.mp h with ⟨stored, -, rfl⟩ | ⟨-, h⟩
  · exact Or.inl rfl
  simp only [Prog.run_query_bind] at h
  split at h
  · cases h
    exact Or.inl rfl
  unfold carryForwardYear at h
  simp only [Prog.run_query_bind] at h
  obtain ⟨posted, mid, hloop, h⟩ := Prog.run_bind_ok.mp h
  obtain ⟨rows, hmid, hrows, hresets⟩ := run_carryForwardAll hloop (nodup_pairs s)
  have hmid : mid = s.appended rows := hmid
  unfold insertRun at h
  obtain ⟨hunique, h⟩ := Prog.run_execute_bind_ok.mp h
  obtain ⟨_, t, hput, h⟩ := Prog.run_bind_ok.mp h
  obtain ⟨rfl⟩ := (AnswerTable.run_record_ok (t := answers) fun _ => rfl).mp hput
  cases h
  split_ifs at hunique with hyear
  subst hmid
  refine Or.inr ⟨rows, _, rfl, rfl, hyear, fun row hrow => (hrows row hrow).1, fun employee he lt hl => ?_⟩
  exact (hresets (employee, lt) (List.pair_mem_product.mpr ⟨he, hl⟩)).congr rfl rfl

theorem YearsRecorded.runCarryForward [TimeFormats] {r : CarryForwardResponse × Db} (hs : YearsRecorded s)
    (h : (runCarryForward ctx year).run s = .ok r) : YearsRecorded r.2 := by
  rcases run_runCarryForward h with hsame | ⟨rows, run, hledger, hruns, hnew, hrows, -⟩
  · rwa [hsame]
  · intro year' row hrow hof
    rw [hledger] at hrow
    rw [hruns]
    have hinserted : (s.carryForwardRuns.insert year run).find? year = some run :=
      Table.find?_insert_self (Table.find?_eq_none.mpr hnew) run
    rcases List.mem_append.mp hrow with hrow | hrow
    · have hkey := hs year' row hrow hof
      by_contra hnot
      have hne : year' ≠ year := by
        rintro rfl
        exact hnew hkey
      have hnone := Table.find?_eq_none.mpr hnot
      rw [Table.find?_insert_ne _ _ hne] at hnone
      exact Table.find?_eq_none.mp hnone hkey
    · rw [hof.unique (hrows row hrow)]
      exact Table.mem_keys_of_find? hinserted

/-- The request that makes the run of a year resets the balance: on every later date by which no credit has
expired that counted at the end of the year, it is what is carried, until that expires, and what took effect
later. -/
theorem carry_forward_resets [TimeFormats] {r : CarryForwardResponse × Db} {d : Date}
    (h : (runCarryForward ctx year).run s = .ok r) (hnew : year ∉ s.carryForwardRuns.keys)
    (hran : year ∈ r.2.carryForwardRuns.keys) (hkeys : YearsRecorded s) (hemployee : employee ∈ s.staff)
    (hlt : lt ∈ s.activeLeaveTypes) (haccrues : lt.2.Accrues) (hd : yearEnd year < d)
    (hkept : ∀ e ∈ s.ledgerEntries employee.1 lt.1, e.Counts (yearEnd year) → ¬e.Expired d) :
    ∃ balance, balanceAsOf ctx.build (s.ledgerEntries employee.1 lt.1) (yearEnd year) = some balance ∧
      ∃ expected, expected = (if lt.2.policy.CarriedExpired (yearEnd year) d then 0
        else lt.2.policy.carried balance) +
          laterUnits (s.ledgerEntries employee.1 lt.1) (yearEnd year) d ∧
        balanceAsOf .release (r.2.ledgerEntries employee.1 lt.1) d = some (i32.wrap expected) ∧
        (∀ b v, balanceAsOf b (r.2.ledgerEntries employee.1 lt.1) d = some v → v = i32.wrap expected) ∧
        YearsRecorded r.2 := by
  have hrecorded := hkeys.runCarryForward h
  rcases run_runCarryForward h with hsame | ⟨rows, run, -, -, -, -, hresets⟩
  · exact absurd (hsame ▸ hran) hnew
  have hnot : NotYet year s employee.1 lt.1 := fun row hrow hof =>
    hnew (hkeys year row (List.mem_of_mem_filter hrow) hof)
  obtain ⟨balance, credit, hbalance, hcredit, hrowsOf⟩ := hresets employee hemployee lt hlt haccrues hnot
  have hwrap := balanceAsOf_some hbalance
  -- The entry that sets the balance to zero takes it away in the words of the balance.
  have hzero : countedUnits ((if balance = 0 then [] else [zeroRow year employee lt (i32.wrap (-balance))]).map
      (·.entry)) d ≡ -balance [ZMOD 2 ^ i32.bits] := by
    split_ifs with hb
    · rw [hb]
      exact Int.ModEq.refl _
    · rw [List.map_singleton, countedUnits_singleton, countedUnits_zeroRow employee lt _ hd]
      exact Word.wrap_modEq _ _
  have hafter : countedUnits (r.2.ledgerEntries employee.1 lt.1) d ≡
      (if lt.2.policy.CarriedExpired (yearEnd year) d then 0 else lt.2.policy.carried balance) +
        laterUnits (s.ledgerEntries employee.1 lt.1) (yearEnd year) d [ZMOD 2 ^ i32.bits] := by
    have hbefore : countedUnits (s.ledgerEntries employee.1 lt.1) (yearEnd year) ≡ balance [ZMOD 2 ^ i32.bits] := by
      rw [hwrap]
      exact (Word.wrap_modEq _ _).symm
    rw [countedUnits_ledgerEntries, hrowsOf, List.map_append, countedUnits_append, ← countedUnits_ledgerEntries,
      countedUnits_later hd hkept, resetRows, List.map_append, countedUnits_append,
      countedUnits_credit hcredit hd employee lt]
    have hcancel := (hbefore.add hzero).add_right
      ((if lt.2.policy.CarriedExpired (yearEnd year) d then 0 else lt.2.policy.carried balance) +
        laterUnits (s.ledgerEntries employee.1 lt.1) (yearEnd year) d)
    rw [add_neg_cancel, zero_add] at hcancel
    rw [add_add_add_comm, add_comm (laterUnits _ _ _)]
    exact hcancel
  have hword := Word.wrap_eq_iff.mpr hafter
  refine ⟨balance, hbalance, _, rfl, ?_, fun b v hv => ?_, hrecorded⟩
  · rw [balanceAsOf_release, hword]
  · rw [balanceAsOf_some hv, hword]

def annualLeave (cap expiryDays : Option Int) : LeaveTypeRow :=
  ⟨"lt_2", .annual, .yearly, 20000, cap, expiryDays, true, false⟩

/-- Days that were credited at the beginning of the year. -/
def creditedRow (units : Int) (expiresOn : Option Date) : LedgerRow :=
  ⟨1, 2, .credit, units, ⟨2025, 1, 1, by decide⟩, expiresOn, none, none, none, 10⟩

def Db.oneEmployee (lt : LeaveTypeRow) (row : LedgerRow) : Db :=
  ⟨Table.empty.insert 2 lt, Table.empty.insert 1 ⟨10, .active, false⟩, [row], Table.empty, Table.empty⟩

def yearEndRequest : CarryForwardCtx := ⟨.release, "org_1", none, .ok ⟨[.admin], [.allow "hr.leave.write"]⟩⟩

/-- Of twelve days five are carried forward. -/
theorem carry_forward_resets_capped :
    letI := canonicalTimeFormats
    ∃ resp t, (runCarryForward yearEndRequest 2025).run
        (Db.oneEmployee (annualLeave (some 5000) (some 90)) (creditedRow 12000 none)) = .ok (resp, t) ∧
      balanceAsOf .release (t.ledgerEntries 1 2) ⟨2026, 3, 31, by decide⟩ = some 5000 ∧ YearsRecorded t := by
  let := canonicalTimeFormats
  obtain ⟨resp, t, hrun, hran⟩ := Prog.run_of_check (p := runCarryForward yearEndRequest 2025)
    (s := Db.oneEmployee (annualLeave (some 5000) (some 90)) (creditedRow 12000 none))
    (P := fun _ t => 2025 ∈ t.carryForwardRuns.keys) (by decide +kernel)
  have hkeys : YearsRecorded (Db.oneEmployee (annualLeave (some 5000) (some 90)) (creditedRow 12000 none)) := by
    intro year row hrow hof
    obtain rfl := List.mem_singleton.mp hrow
    obtain ⟨lt, hkey | hkey⟩ := hof <;> cases hkey
  obtain ⟨balance, hbalance, expected, hexpected, hafter, -, hrecorded⟩ := carry_forward_resets
    (d := ⟨2026, 3, 31, by decide⟩) hrun (by decide +kernel) (of_decide_eq_true hran) hkeys
    (by decide +kernel : (1, ⟨10, .active, false⟩) ∈ Db.staff _)
    (by decide +kernel : (2, annualLeave (some 5000) (some 90)) ∈ Db.activeLeaveTypes _) (by decide)
    (by decide) (by decide +kernel)
  have hvalue : balance = 12000 := Option.some.inj (hbalance.symm.trans (by decide +kernel))
  rw [hexpected, hvalue] at hafter
  exact ⟨resp, t, hrun, hafter.trans (by decide +kernel), hrecorded⟩

/-- A cap below nothing carries nothing; and five days that counted at the end of the year and expire in February
are taken away twice. -/
theorem carry_forward_not_capped :
    letI := canonicalTimeFormats
    (∃ resp t, (runCarryForward yearEndRequest 2025).run
        (Db.oneEmployee (annualLeave (some (-5000)) none) (creditedRow 3000 none)) = .ok (resp, t) ∧
      balanceAsOf .release (t.ledgerEntries 1 2) ⟨2026, 3, 1, by decide⟩ = some 0 ∧
      min (max 3000 0) (-5000) ≠ (0 : Int)) ∧
    ∃ resp t, (runCarryForward yearEndRequest 2025).run
        (Db.oneEmployee (annualLeave none none) (creditedRow 5000 (some ⟨2026, 2, 4, by decide⟩))) =
          .ok (resp, t) ∧
      balanceAsOf .release (t.ledgerEntries 1 2) ⟨2026, 2, 4, by decide⟩ = some 5000 ∧
      balanceAsOf .release (t.ledgerEntries 1 2) ⟨2026, 2, 5, by decide⟩ = some 0 := by
  let := canonicalTimeFormats
  constructor
  · obtain ⟨resp, t, hrun, hend⟩ := Prog.run_of_check (p := runCarryForward yearEndRequest 2025)
      (s := Db.oneEmployee (annualLeave (some (-5000)) none) (creditedRow 3000 none))
      (P := fun _ t => balanceAsOf .release (t.ledgerEntries 1 2) ⟨2026, 3, 1, by decide⟩ = some 0)
      (by decide +kernel)
    exact ⟨resp, t, hrun, of_decide_eq_true hend, by decide⟩
  · obtain ⟨resp, t, hrun, hend⟩ := Prog.run_of_check (p := runCarryForward yearEndRequest 2025)
      (s := Db.oneEmployee (annualLeave none none) (creditedRow 5000 (some ⟨2026, 2, 4, by decide⟩)))
      (P := fun _ t => balanceAsOf .release (t.ledgerEntries 1 2) ⟨2026, 2, 4, by decide⟩ = some 5000 &&
        balanceAsOf .release (t.ledgerEntries 1 2) ⟨2026, 2, 5, by decide⟩ = some 0) (by decide +kernel)
    simp only [Bool.and_eq_true, decide_eq_true_eq] at hend
    exact ⟨resp, t, hrun, hend⟩

end Noxara.Leave
