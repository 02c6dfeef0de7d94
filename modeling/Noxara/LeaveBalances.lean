import Noxara.CalendarDate
import Noxara.MachineWords
import Mathlib.Algebra.Order.BigOperators.Group.List

/-! Leave balances: the sum of the entries that count on a date, and what the expiry of credits leaves of it. -/
namespace Noxara.Leave
open Words
open Finance (Date naiveDateMax)

inductive EntryKind
  | accrual | debit | credit | carryForward | expiry | adjustment
  deriving DecidableEq

/-- Milli-days, a credit positive and a debit negative. -/
structure LedgerEntry where
  entryKind : EntryKind
  unitsMilli : Int
  effectiveDate : Date
  expiresOn : Option Date
  deriving DecidableEq

/-- A credit that has expired; a debit has no part in it. -/
def LedgerEntry.Expired (asOf : Date) (e : LedgerEntry) : Prop :=
    0 < e.unitsMilli ∧ ∃ exp ∈ e.expiresOn, exp < asOf

instance (asOf : Date) (e : LedgerEntry) : Decidable (e.Expired asOf) := inferInstanceAs (Decidable (_ ∧ _))

def LedgerEntry.Counts (asOf : Date) (e : LedgerEntry) : Prop := e.effectiveDate ≤ asOf ∧ ¬e.Expired asOf

instance (asOf : Date) (e : LedgerEntry) : Decidable (e.Counts asOf) := inferInstanceAs (Decidable (_ ∧ _))

def balanceAsOf (b : Build) (entries : List LedgerEntry) (asOf : Date) : Option Int :=
  b.sum i32 ((entries.filter (·.Counts asOf)).map (·.unitsMilli))

def LedgerEntry.countedUnits (asOf : Date) (e : LedgerEntry) : Int := if e.Counts asOf then e.unitsMilli else 0

def countedUnits (entries : List LedgerEntry) (asOf : Date) : Int := (entries.map (·.countedUnits asOf)).sum

theorem sum_filter_counts (entries : List LedgerEntry) (asOf : Date) :
    ((entries.filter (·.Counts asOf)).map (·.unitsMilli)).sum = countedUnits entries asOf := by
  have hsplit := List.sum_map_ite (fun e : LedgerEntry => e.Counts asOf) (·.unitsMilli) (fun _ => (0 : Int)) entries
  rw [List.map_const', List.sum_replicate, nsmul_zero, add_zero] at hsplit
  exact hsplit.symm

theorem countedUnits_append (entries more : List LedgerEntry) (asOf : Date) :
    countedUnits (entries ++ more) asOf = countedUnits entries asOf + countedUnits more asOf := by
  unfold countedUnits
  rw [List.map_append, List.sum_append]

theorem countedUnits_singleton (e : LedgerEntry) (asOf : Date) : countedUnits [e] asOf = e.countedUnits asOf :=
  List.sum_singleton

/-- A build that answers gives the sum as a word. -/
theorem balanceAsOf_some {b : Build} {entries : List LedgerEntry} {asOf : Date} {v : Int}
    (h : balanceAsOf b entries asOf = some v) : v = i32.wrap (countedUnits entries asOf) := by
  rw [← sum_filter_counts]
  exact Build.sum_some (by decide) h

theorem balanceAsOf_release (entries : List LedgerEntry) (asOf : Date) :
    balanceAsOf .release entries asOf = some (i32.wrap (countedUnits entries asOf)) := by
  rw [← sum_filter_counts]
  exact Build.sum_release (by decide) _

theorem balanceAsOf_concat (b : Build) (entries : List LedgerEntry) (e : LedgerEntry) (asOf : Date) :
    balanceAsOf b (entries ++ [e]) asOf = (balanceAsOf b entries asOf).bind fun v =>
      if e.Counts asOf then b.arith i32 (v + e.unitsMilli) else some v := by
  unfold balanceAsOf
  rw [List.filter_append, List.map_append]
  by_cases he : e.Counts asOf
  · rw [List.filter_cons_of_pos (by simpa using he), List.filter_nil, List.map_singleton, Build.sum_concat]
    simp only [if_pos he]
  · rw [List.filter_cons_of_neg (by simpa using he), List.filter_nil, List.map_nil, List.append_nil]
    simp only [if_neg he, Option.bind_fun_some]

def Reached (last : Date) (entries : List LedgerEntry) (d : Date) : Prop :=
  (∀ e ∈ entries, e.effectiveDate ≤ d) ∧ d ≤ last

instance (last : Date) (entries : List LedgerEntry) (d : Date) : Decidable (Reached last entries d) :=
  inferInstanceAs (Decidable (_ ∧ _))

/-- Ledgers in date order, up to the last date there is, where each debit is covered when it is taken. -/
inductive Built (b : Build) (last : Date) : List LedgerEntry → Prop
  | nil : Built b last []
  | post {entries e} (prior : Built b last entries) (units : i32.Has e.unitsMilli)
      (date : Reached last entries e.effectiveDate)
      (covered : e.unitsMilli < 0 → ∃ v, balanceAsOf b (entries ++ [e]) e.effectiveDate = some v ∧ 0 ≤ v) :
      Built b last (entries ++ [e])

/-- From now on no balance is below nothing. -/
def StaysCovered (b : Build) (last : Date) (entries : List LedgerEntry) : Prop :=
  ∀ d, Reached last entries d → ∃ v, balanceAsOf b entries d = some v ∧ 0 ≤ v

/-- A debit, or a credit that never expires. -/
def LedgerEntry.Lasts (last : Date) (e : LedgerEntry) : Prop :=
    0 < e.unitsMilli → ∀ exp ∈ e.expiresOn, last ≤ exp

instance (last : Date) (e : LedgerEntry) : Decidable (e.Lasts last) := by
  unfold LedgerEntry.Lasts
  infer_instance

/-- What the credits that never expire leave after the debits. -/
def lasting (last : Date) (entries : List LedgerEntry) : Int :=
  ((entries.filter (·.Lasts last)).map (·.unitsMilli)).sum

/-- A debit is covered by credits that never expire, and a credit that counts is not too much for an `i32`. -/
def CoveredForGood (last : Date) (entries : List LedgerEntry) (e : LedgerEntry) : Prop :=
  if e.unitsMilli < 0 then 0 ≤ lasting last entries + e.unitsMilli
  else e.Counts e.effectiveDate → countedUnits entries e.effectiveDate + e.unitsMilli ≤ 2147483647

instance (last : Date) (entries : List LedgerEntry) (e : LedgerEntry) : Decidable (CoveredForGood last entries e) := by
  unfold CoveredForGood
  infer_instance

variable {b : Build} {last d d' : Date} {entries : List LedgerEntry} {e : LedgerEntry}

theorem counts_last_iff (h : e.effectiveDate ≤ last) : e.Counts last ↔ e.Lasts last := by
  unfold LedgerEntry.Counts LedgerEntry.Expired LedgerEntry.Lasts
  constructor
  · rintro ⟨-, hkept⟩ hpos exp hexp
    exact Int.not_lt.mp fun hlt => hkept ⟨hpos, exp, hexp, hlt⟩
  · rintro hlasts
    exact ⟨h, fun ⟨hpos, exp, hexp, hlt⟩ => Int.not_lt.mpr (hlasts hpos exp hexp) hlt⟩

theorem countedUnits_last (h : ∀ e ∈ entries, e.effectiveDate ≤ last) :
    countedUnits entries last = lasting last entries := by
  rw [← sum_filter_counts, lasting]
  congr 2
  exact List.filter_congr fun e he => decide_eq_decide.mpr (counts_last_iff (h e he))

theorem counts_of_later (hdate : e.effectiveDate ≤ d) (hle : d ≤ d') (h : e.Counts d') : e.Counts d :=
  ⟨hdate, fun ⟨hpos, exp, hexp, hlt⟩ => h.2 ⟨hpos, exp, hexp, Int.lt_of_lt_of_le hlt hle⟩⟩

/-- As time passes credits expire and debits stay. -/
theorem countedUnits_anti (hdates : ∀ e ∈ entries, e.effectiveDate ≤ d) (hle : d ≤ d') :
    countedUnits entries d' ≤ countedUnits entries d := by
  refine List.sum_le_sum fun e he => ?_
  have hdate := hdates e he
  unfold LedgerEntry.countedUnits
  by_cases hneg : e.unitsMilli ≤ 0
  · have hcounts : ∀ x, e.effectiveDate ≤ x → e.Counts x :=
      fun x hx => ⟨hx, fun hexp => by have := hexp.1; omega⟩
    rw [if_pos (hcounts d hdate), if_pos (hcounts d' (Int.le_trans hdate hle))]
  · split_ifs with hlater hnow
    · exact le_rfl
    · exact absurd (counts_of_later hdate hle hlater) hnow
    · omega
    · exact le_rfl

/-- The balances from now on are the sums themselves. -/
def Exact (b : Build) (last : Date) (entries : List LedgerEntry) : Prop :=
  ∀ d, Reached last entries d → balanceAsOf b entries d = some (countedUnits entries d) ∧
    0 ≤ countedUnits entries d ∧ countedUnits entries d ≤ 2147483647

theorem Exact.staysCovered (h : Exact b last entries) : StaysCovered b last entries :=
  fun d hd => ⟨_, (h d hd).1, (h d hd).2.1⟩

theorem Reached.of_concat (h : Reached last (entries ++ [e]) d) : Reached last entries d ∧ e.effectiveDate ≤ d :=
  ⟨⟨fun x hx => h.1 x (List.mem_append_left _ hx), h.2⟩, h.1 e (by simp)⟩

theorem Reached.concat (h : Reached last entries d) (hdate : e.effectiveDate ≤ d) :
    Reached last (entries ++ [e]) d := by
  refine ⟨fun x hx => ?_, h.2⟩
  rcases List.mem_append.mp hx with hx | hx
  · exact h.1 x hx
  · obtain rfl := List.mem_singleton.mp hx
    exact hdate

theorem Exact.post (h : Exact b last entries) (hdate : Reached last entries e.effectiveDate)
    (hcovered : CoveredForGood last entries e) : Exact b last (entries ++ [e]) := by
  intro d hd
  obtain ⟨hreached, hnow⟩ := hd.of_concat
  obtain ⟨hbalance, hlow, hhigh⟩ := h d hreached
  rw [balanceAsOf_concat, hbalance, Option.bind_some, countedUnits_append, countedUnits_singleton,
    LedgerEntry.countedUnits]
  by_cases hcounts : e.Counts d
  · rw [if_pos hcounts, if_pos hcounts]
    have hbounds : 0 ≤ countedUnits entries d + e.unitsMilli ∧
        countedUnits entries d + e.unitsMilli ≤ 2147483647 := by
      unfold CoveredForGood at hcovered
      split_ifs at hcovered with hneg
      · have hanti := countedUnits_anti hreached.1 hreached.2
        rw [countedUnits_last fun x hx => Int.le_trans (hreached.1 x hx) hreached.2] at hanti
        omega
      · have hanti := countedUnits_anti hdate.1 hnow
        have hfits := hcovered (counts_of_later (Int.le_refl _) hnow hcounts)
        omega
    exact ⟨Build.arith_of_has (has_i32.mpr (by omega)), hbounds⟩
  · rw [if_neg hcounts, if_neg hcounts, add_zero]
    exact ⟨rfl, hlow, hhigh⟩

/-- A sum that the build answers with a balance of no less than nothing is in range. -/
theorem StaysCovered.counted (h : Exact b last entries) (hunits : i32.Has e.unitsMilli)
    (hstays : StaysCovered b last (entries ++ [e])) (hd : Reached last (entries ++ [e]) d) (hcounts : e.Counts d) :
    0 ≤ countedUnits entries d + e.unitsMilli ∧ countedUnits entries d + e.unitsMilli ≤ 2147483647 := by
  obtain ⟨v, hv, hnonneg⟩ := hstays d hd
  obtain ⟨hbalance, hlow, hhigh⟩ := h d hd.of_concat.1
  rw [balanceAsOf_concat, hbalance, Option.bind_some, if_pos hcounts] at hv
  have hwrap := Build.arith_some hv
  rw [has_i32] at hunits
  by_cases hfits : countedUnits entries d + e.unitsMilli ≤ 2147483647
  · rw [Word.wrap_of_has (has_i32.mpr (by omega))] at hwrap
    omega
  · -- The word of a sum above its top is negative.
    have hword : i32.wrap (countedUnits entries d + e.unitsMilli) =
        countedUnits entries d + e.unitsMilli - 4294967296 := by
      unfold Word.wrap Word.low i32
      norm_num
      omega
    omega

theorem StaysCovered.coveredForGood (h : Exact b last entries) (hunits : i32.Has e.unitsMilli)
    (hdate : Reached last entries e.effectiveDate) (hstays : StaysCovered b last (entries ++ [e])) :
    CoveredForGood last entries e := by
  unfold CoveredForGood
  split_ifs with hneg
  · have hlast : Reached last (entries ++ [e]) last :=
      Reached.concat ⟨fun x hx => Int.le_trans (hdate.1 x hx) hdate.2, Int.le_refl _⟩ hdate.2
    have hcounts : e.Counts last := ⟨hdate.2, fun hexp => by have := hexp.1; omega⟩
    rw [← countedUnits_last hlast.of_concat.1.1]
    exact (hstays.counted h hunits hlast hcounts).1
  · exact fun hcounts => (hstays.counted h hunits (hdate.concat (Int.le_refl _)) hcounts).2

theorem forall_post_nil {C : List LedgerEntry → LedgerEntry → Prop} :
    ∀ before x, before ++ [x] <+: [] → C before x :=
  fun _ _ hp => absurd (List.prefix_nil.mp hp) (by simp)

theorem forall_post_concat {C : List LedgerEntry → LedgerEntry → Prop} :
    (∀ before x, before ++ [x] <+: entries ++ [e] → C before x) ↔
      (∀ before x, before ++ [x] <+: entries → C before x) ∧ C entries e := by
  refine ⟨fun h => ⟨fun before x hp => h before x (hp.trans (List.prefix_append _ _)), h _ _ List.prefix_rfl⟩,
    ?_⟩
  rintro ⟨hbefore, hnow⟩ before x hp
  rcases List.prefix_concat_iff.mp hp with heq | hp
  · obtain ⟨rfl, hx⟩ := List.append_inj' heq rfl
    obtain rfl := List.singleton_inj.mp hx
    exact hnow
  · exact hbefore before x hp

/-- A ledger stays covered all the way exactly where every debit is covered for good. -/
theorem stays_covered_iff (h : Built b last entries) :
    (∀ before, before <+: entries → StaysCovered b last before) ↔
      ∀ before e, before ++ [e] <+: entries → CoveredForGood last before e := by
  -- With the balances exact, each entry decides the next.
  suffices hexact : ((∀ before, before <+: entries → StaysCovered b last before) ∨
      (∀ before e, before ++ [e] <+: entries → CoveredForGood last before e)) →
      ((∀ before, before <+: entries → Exact b last before) ∧
        ∀ before e, before ++ [e] <+: entries → CoveredForGood last before e) by
    exact ⟨fun hstays => (hexact (Or.inl hstays)).2, fun hcovered before hbefore =>
      ((hexact (Or.inr hcovered)).1 before hbefore).staysCovered⟩
  induction h with
  | nil =>
    refine fun _ => ⟨fun before hbefore => ?_, forall_post_nil⟩
    rw [List.prefix_nil.mp hbefore]
    exact fun d _ => ⟨rfl, le_rfl, (by decide : (0 : Int) ≤ 2147483647)⟩
  | @post entries e prior hunits hdate _ ih =>
    rw [forall_post_concat]
    intro hside
    obtain ⟨hexact, hbefore⟩ := ih (hside.imp (fun h before hp => h before (hp.trans (List.prefix_append _ _)))
      And.left)
    have hnow := hexact entries List.prefix_rfl
    have hcovered : CoveredForGood last entries e := by
      rcases hside with hstays | hcovered
      · exact StaysCovered.coveredForGood hnow hunits hdate (hstays _ List.prefix_rfl)
      · exact hcovered.2
    refine ⟨fun before hp => ?_, hbefore, hcovered⟩
    rcases List.prefix_concat_iff.mp hp with rfl | hp
    · exact hnow.post hdate hcovered
    · exact hexact before hp

theorem january_first_valid : 1 ≤ 1 ∧ 1 ≤ 12 ∧ 1 ≤ 1 ∧ 1 ≤ Finance.daysInMonth 2026 1 := by decide

theorem march_first_valid : 1 ≤ 3 ∧ 3 ≤ 12 ∧ 1 ≤ 1 ∧ 1 ≤ Finance.daysInMonth 2026 3 := by decide

theorem march_last_valid : 1 ≤ 3 ∧ 3 ≤ 12 ∧ 1 ≤ 31 ∧ 31 ≤ Finance.daysInMonth 2026 3 := by decide

def accruedInJanuary : LedgerEntry := ⟨.accrual, 20000, ⟨2026, 1, 1, january_first_valid⟩, none⟩

/-- Five days that expire at the end of March. -/
def carriedToMarch : LedgerEntry :=
  ⟨.carryForward, 5000, ⟨2026, 1, 1, january_first_valid⟩, some ⟨2026, 3, 31, march_last_valid⟩⟩

def takenInMarch : LedgerEntry := ⟨.debit, -3000, ⟨2026, 3, 1, march_first_valid⟩, none⟩

theorem stays_covered_iff_accrued :
    Built .release naiveDateMax [accruedInJanuary, carriedToMarch, takenInMarch] ∧
      ∀ before, before <+: [accruedInJanuary, carriedToMarch, takenInMarch] →
        StaysCovered .release naiveDateMax before := by
  have hbuilt : Built .release naiveDateMax ([] ++ [accruedInJanuary] ++ [carriedToMarch] ++ [takenInMarch]) :=
    ((Built.nil.post (by decide) (by decide) fun h => absurd h (by decide)).post (by decide) (by decide)
      fun h => absurd h (by decide)).post (by decide) (by decide) fun _ => ⟨22000, by decide, by decide⟩
  refine ⟨hbuilt, (stays_covered_iff hbuilt).mpr ?_⟩
  rw [forall_post_concat, forall_post_concat, forall_post_concat]
  exact ⟨⟨⟨forall_post_nil, by decide⟩, by decide⟩, by decide⟩

/-- Of the five days three are taken in time; their expiry takes all five, and leaves three days less than
nothing. -/
theorem expiry_removes_what_was_used :
    Built .release naiveDateMax [carriedToMarch, takenInMarch] ∧
      balanceAsOf .release [carriedToMarch, takenInMarch] ⟨2026, 3, 31, by decide⟩ = some 2000 ∧
      balanceAsOf .release [carriedToMarch, takenInMarch] ⟨2026, 4, 1, by decide⟩ = some (-3000) ∧
      ¬StaysCovered .release naiveDateMax [carriedToMarch, takenInMarch] := by
  have hbuilt : Built .release naiveDateMax ([] ++ [carriedToMarch] ++ [takenInMarch]) :=
    (Built.nil.post (by decide) (by decide) fun h => absurd h (by decide)).post (by decide) (by decide)
      fun _ => ⟨2000, by decide, by decide⟩
  refine ⟨hbuilt, by decide, by decide, fun hstays => ?_⟩
  obtain ⟨v, hv, hnonneg⟩ := hstays ⟨2026, 4, 1, by decide⟩ (by decide)
  obtain rfl : (-3000 : Int) = v := Option.some.inj ((by decide : _ = some (-3000)).symm.trans hv)
  exact absurd hnonneg (by decide)

end Noxara.Leave
