import Noxara.CalendarMonths
import Noxara.DepreciationLedger
import Noxara.MoneyRounding

/-! Depreciation in many runs or in one. Each run counts whole months from the date of the last charge, so a
run in between loses a month where it cuts one in two parts that are no months themselves. -/
namespace Noxara.Inventory

open Transaction
open Finance (Uuid Date Timestamp Formats InI64 Money canonicalFormats i64Max checked_ok)
open Rounding

theorem monthsElapsed_of_le {a d : Date} (h : d ≤ a) : monthsElapsed a d = 0 := if_pos h

theorem monthsElapsed_nonneg (a d : Date) : 0 ≤ monthsElapsed a d := by
  unfold monthsElapsed
  split
  · exact le_rfl
  · exact le_max_right _ _

theorem monthsElapsed_eq {a d : Date} (h : a ≤ d) :
    monthsElapsed a d = d.monthIndex - a.monthIndex - if d.day < a.day then 1 else 0 := by
  rw [Date.le_def, Date.ordinal_eq, Date.ordinal_eq] at h
  have ha := a.valid
  have hd := d.valid
  have hale := Finance.daysInMonth_le a.year a.month
  have hdle := Finance.daysInMonth_le d.year d.month
  unfold monthsElapsed
  simp only [Date.le_def, Date.ordinal_eq]
  have hindex : (d.year - a.year) * 12 + ((d.month : Int) - a.month) = d.monthIndex - a.monthIndex := by
    unfold Date.monthIndex
    ring
  rw [hindex]
  split_ifs <;> omega

/-- The months up to a date and from there on are all there are: by their days, either both parts or
neither are short of one. -/
def KeepsMonth (a f d : Date) : Prop :=
  if a.day ≤ f.day then d.day < a.day ∨ f.day ≤ d.day else f.day ≤ d.day ∧ d.day < a.day

instance (a f d : Date) : Decidable (KeepsMonth a f d) := by
  unfold KeepsMonth
  infer_instance

theorem monthsElapsed_add {a f d : Date} (haf : a ≤ f) (hfd : f ≤ d) :
    monthsElapsed a f + monthsElapsed f d = monthsElapsed a d - if KeepsMonth a f d then 0 else 1 := by
  rw [monthsElapsed_eq haf, monthsElapsed_eq hfd, monthsElapsed_eq (Int.le_trans haf hfd : a ≤ d)]
  unfold KeepsMonth
  split_ifs <;> omega

/-- What can be depreciated, where the salvage is within the cost. -/
def AssetRow.base (row : AssetRow) : Int := row.acquisitionCostMinor - row.salvageMinor

def AssetRow.monthly (row : AssetRow) : Int :=
  (Money.roundHalfUp row.base row.usefulLifeMonths).toOption.getD 0

/-- An asset as the claims of the ledger have it: salvage within cost, both 64-bit, and a useful life. -/
structure AssetRow.Depreciable (row : AssetRow) : Prop where
  salvage : 0 ≤ row.salvageMinor
  within : row.salvageMinor ≤ row.acquisitionCostMinor
  cost : row.acquisitionCostMinor ≤ i64Max
  life : 0 < row.usefulLifeMonths

theorem AssetRow.Depreciable.monthly_ok {row : AssetRow} (h : row.Depreciable) :
    Money.roundHalfUp row.base row.usefulLifeMonths = .ok row.monthly ∧ 0 ≤ row.monthly := by
  have hlife := h.life
  have hbase : 0 ≤ row.base := sub_nonneg.mpr h.within
  have hlifeQ : (1 : ℚ) ≤ row.usefulLifeMonths := by exact_mod_cast hlife
  have hbaseQ : (0 : ℚ) ≤ row.base := by exact_mod_cast hbase
  have hlow : 0 ≤ roundAway ((row.base : ℚ) / row.usefulLifeMonths) :=
    le_roundAway (by rw [Int.cast_zero]; exact div_nonneg hbaseQ (by linarith))
  have hhigh : roundAway ((row.base : ℚ) / row.usefulLifeMonths) ≤ row.base :=
    roundAway_le (div_le_self hbaseQ hlifeQ)
  have hfits : row.base ≤ i64Max := by
    have := h.salvage
    have := h.cost
    unfold AssetRow.base
    omega
  have hok : Money.roundHalfUp row.base row.usefulLifeMonths =
      .ok (roundAway ((row.base : ℚ) / row.usefulLifeMonths)) := by
    rw [Money.roundHalfUp_eq _ hlife.ne', checked_ok]
    exact ⟨Finance.inI64_of_nonneg hlow (hhigh.trans hfits), rfl⟩
  unfold AssetRow.monthly
  rw [hok]
  exact ⟨rfl, hlow⟩

def AssetRow.at (row : AssetRow) (accum : Int) (last : Option Date) (version : Int) (updatedAt : Timestamp) :
    AssetRow :=
  { row with accumulatedDepreciationMinor := accum, lastDepreciatedAt := last, version, updatedAt }

theorem AssetRow.Depreciable.straightLine_eq {row : AssetRow} (h : row.Depreciable) {accum months : Int}
    {last : Option Date} {version : Int} {updatedAt : Timestamp} (haccum : 0 ≤ accum ∧ accum ≤ row.base)
    (hmonths : 0 < months)
    (hfits : row.monthly * months ≤ i64Max) :
    (row.at accum last version updatedAt).straightLine months =
      .ok (min (row.monthly * months) (row.base - accum)) := by
  obtain ⟨hmonthly, hnonneg⟩ := h.monthly_ok
  have hproduct : 0 ≤ row.monthly * months := mul_nonneg hnonneg hmonths.le
  have hlife := h.life
  have hsalvage := h.salvage
  have hcost := h.cost
  unfold AssetRow.base at *
  have hbase : 0 ≤ row.acquisitionCostMinor - row.salvageMinor := by omega
  have hbaseWord := Finance.inI64_of_nonneg hbase (by omega)
  have hchargeWord := Finance.inI64_of_nonneg hproduct hfits
  have hremaining : 0 ≤ row.acquisitionCostMinor - row.salvageMinor - accum := by omega
  have hremainingWord := Finance.inI64_of_nonneg hremaining (by omega)
  unfold AssetRow.straightLine straightLineDepreciationMinor AssetRow.at
  dsimp only
  rw [if_neg (by omega), if_neg (not_not.mpr hbaseWord), max_eq_left hbase, hmonthly]
  dsimp only
  rw [if_neg (not_not.mpr hchargeWord), if_pos hremainingWord, max_eq_left hremaining]

theorem charged_through {base monthly accum mf m md : Int} (hmonthly : 0 ≤ monthly) (hmf : 0 ≤ mf) (hm : 0 ≤ m)
    (haccum : accum = min base (monthly * mf))
    (h : mf + m = md ∨ (mf + m = md - 1 ∧ (monthly = 0 ∨ base ≤ monthly * (md - 1)))) :
    accum + min (monthly * m) (base - accum) = min base (monthly * md) := by
  have hp : 0 ≤ monthly * mf := mul_nonneg hmonthly hmf
  have hq : 0 ≤ monthly * m := mul_nonneg hmonthly hm
  rcases h with rfl | ⟨hlost, h⟩
  · rw [mul_add]
    omega
  · obtain rfl : md = mf + m + 1 := by omega
    rw [show mf + m + 1 - 1 = mf + m by omega, mul_add] at h
    rw [mul_add, mul_add, mul_one]
    omega

/-- Through `d` no month is cut, or none matters: nothing is charged a month, or the base is used up by the
month before. The months of a single run fit. -/
def AssetRow.ChargesEvenly (row : AssetRow) (a d : Date) : Prop :=
  (KeepsMonth a (row.lastDepreciatedAt.getD a) d ∨ row.monthly = 0 ∨
    row.base ≤ row.monthly * (monthsElapsed a d - 1)) ∧ row.monthly * monthsElapsed a d ≤ i64Max

instance (row : AssetRow) (a d : Date) : Decidable (row.ChargesEvenly a d) := inferInstanceAs (Decidable (_ ∧ _))

theorem AssetRow.Depreciable.charge_through {row : AssetRow} (h : row.Depreciable) {a d : Date} {last : Option Date}
    (hlast : a ≤ last.getD a) (hd : last.getD a ≤ d ∨ last.getD a = a) {accum version : Int}
      {updatedAt : Timestamp}
    (haccum : accum = min row.base (row.monthly * monthsElapsed a (last.getD a)))
    (heven : (row.at accum last version updatedAt).ChargesEvenly a d) :
    ∃ dep, (row.at accum last version updatedAt).straightLine (monthsElapsed (last.getD a) d) = .ok dep ∧
      0 ≤ dep ∧
      accum + dep = min row.base (row.monthly * monthsElapsed a d) ∧ (0 < dep → last.getD a ≤ d) := by
  obtain ⟨hkeeps, hfits⟩ := heven
  change KeepsMonth a (last.getD a) d ∨ row.monthly = 0 ∨
    row.base ≤ row.monthly * (monthsElapsed a d - 1) at hkeeps
  change row.monthly * monthsElapsed a d ≤ i64Max at hfits
  generalize last.getD a = f at *
  have hmonthly := h.monthly_ok.2
  have hbase : 0 ≤ row.base := sub_nonneg.mpr h.within
  have hm := monthsElapsed_nonneg f d
  have hmf := monthsElapsed_nonneg a f
  have hproduct : 0 ≤ row.monthly * monthsElapsed a f := mul_nonneg hmonthly hmf
  have hproduct' : 0 ≤ row.monthly * monthsElapsed f d := mul_nonneg hmonthly hm
  -- Before the asset is acquired no months have elapsed.
  have hmonths : monthsElapsed a f + monthsElapsed f d = monthsElapsed a d ∨
      (monthsElapsed a f + monthsElapsed f d = monthsElapsed a d - 1 ∧
        (row.monthly = 0 ∨ row.base ≤ row.monthly * (monthsElapsed a d - 1))) := by
    by_cases hfd : f ≤ d
    · have hadd := monthsElapsed_add hlast hfd
      split_ifs at hadd with hkept
      · exact Or.inl (by omega)
      · exact Or.inr ⟨hadd, hkeeps.resolve_left hkept⟩
    · obtain rfl := hd.resolve_left hfd
      have hself := monthsElapsed_of_le (Int.le_refl f.ordinal : f ≤ f)
      exact Or.inl (by omega)
  have hdep : (row.at accum last version updatedAt).straightLine (monthsElapsed f d) =
      .ok (min (row.monthly * monthsElapsed f d) (row.base - accum)) := by
    rcases hm.eq_or_lt with hzero | hpos
    · rw [← hzero, straightLine_of_le le_rfl, mul_zero, min_eq_left (by omega)]
    · exact h.straightLine_eq (by omega) hpos
        (le_trans (mul_le_mul_of_nonneg_left (by omega) hmonthly) hfits)
  refine ⟨_, hdep, by omega, charged_through hmonthly hmf hm haccum hmonths, fun hpos => ?_⟩
  by_contra hfd
  rw [monthsElapsed_of_le ((Int.le_total f.ordinal d.ordinal).resolve_left hfd), mul_zero] at hpos
  omega

section
variable [Formats]

def DepreciationRequest.asOfOn (r : DepreciationRequest) (assetId : Uuid) : Option Date :=
  if parsePublicId .fixedAsset r.id = .ok assetId then (parseAsOf r.ctx r.request.asOfDate).toOption else none

def asOfs (assetId : Uuid) (steps : List (Services × DepreciationRequest)) : List Date :=
  steps.filterMap (·.2.asOfOn assetId)

def ChargesEvenly (assetId : Uuid) (x : Services × DepreciationRequest) : Prop :=
  ∀ row ∈ x.1.inventory.assets.find? assetId, ∀ a ∈ row.acquiredAt, ∀ d ∈ x.2.asOfOn assetId,
    row.ChargesEvenly a d

instance (assetId : Uuid) (x : Services × DepreciationRequest) : Decidable (ChargesEvenly assetId x) := by
  unfold ChargesEvenly
  infer_instance

/-- After runs through `ds`: what a single run through the last of them charges. -/
structure ChargedThrough (assetId : Uuid) (row : AssetRow) (a : Date) (ds : List Date) (s : Services) : Prop where
  found : ∃ accum last version updatedAt,
    s.inventory.assets.find? assetId = some (row.at accum last version updatedAt) ∧
    a ≤ last.getD a ∧ (∀ f, last = some f → f ∈ ds) ∧
    accum = min row.base (row.monthly * monthsElapsed a (last.getD a)) ∧
    ∀ d, ds.getLast? = some d → accum = min row.base (row.monthly * monthsElapsed a d)
  fits : ∀ d ∈ ds, row.monthly * monthsElapsed a d ≤ i64Max

omit [Formats] in
theorem ChargedThrough.of_same {assetId : Uuid} {row : AssetRow} {a : Date} {ds : List Date} {s t : Services}
    (h : ChargedThrough assetId row a ds s)
    (ht : t.inventory.assets.find? assetId = s.inventory.assets.find? assetId) :
    ChargedThrough assetId row a ds t := by
  refine ⟨?_, h.fits⟩
  rw [ht]
  exact h.found

theorem asOfOn_eq_some {r : DepreciationRequest} {assetId : Uuid} {d : Date} (h : r.asOfOn assetId = some d) :
    parsePublicId .fixedAsset r.id = .ok assetId ∧ parseAsOf r.ctx r.request.asOfDate = .ok d := by
  unfold DepreciationRequest.asOfOn at h
  split_ifs at h with hid
  cases hasOf : parseAsOf r.ctx r.request.asOfDate with
  | error e =>
    rw [hasOf] at h
    cases h
  | ok d' =>
    rw [hasOf] at h
    exact ⟨hid, congrArg _ (Option.some.inj h)⟩

theorem charge_eq {r : DepreciationRequest} {assetId : Uuid} {d a : Date} {row : AssetRow} {dep : Int} {db : Db}
    (hasOf : r.asOfOn assetId = some d) (hfind : db.assets.find? assetId = some row) (ha : row.acquiredAt = some a)
    (hdep : row.straightLine (monthsElapsed (row.lastDepreciatedAt.getD a) d) = .ok dep) :
    r.charge db = if 0 < dep then some (assetId, dep) else none := by
  obtain ⟨hid, hd⟩ := asOfOn_eq_some hasOf
  simp [DepreciationRequest.charge, hid, hd, hfind, ha, hdep, Except.toOption]

theorem ChargedThrough.step {assetId : Uuid} {row : AssetRow} {a : Date} {ds : List Date} {s : Services}
    (h : ChargedThrough assetId row a ds s) (hrow : row.Depreciable) (hacquired : row.acquiredAt = some a)
    {r : DepreciationRequest} (heven : ChargesEvenly assetId (s, r))
    (hdates : ∀ d, r.asOfOn assetId = some d → ∀ e ∈ ds, e ≤ d) {x : DepreciateAssetResponse × Services}
    (hrun : r.body.run s = .ok x) :
    ChargedThrough assetId row a (ds ++ (r.asOfOn assetId).toList) x.2 := by
  obtain ⟨accum, last, version, updatedAt, hfind, hlast, hmem, haccum, -⟩ := h.found
  cases hasOf : r.asOfOn assetId with
  | none =>
    rw [Option.toList_none, List.append_nil]
    refine h.of_same ?_
    rcases run_body hrun with ⟨-, hsame⟩ | ⟨charged, _, _, _, -, hid, hd, -, -, -, hcharged⟩
    · rw [hsame]
    · have hne : assetId ≠ charged := by
        rintro rfl
        simp [DepreciationRequest.asOfOn, hid, hd, Except.toOption] at hasOf
      rw [hcharged.assets, Table.find?_modify_ne _ _ hne]
  | some d =>
    have hstep : (row.at accum last version updatedAt).ChargesEvenly a d := heven _ hfind a hacquired d hasOf
    have horder : last.getD a ≤ d ∨ last.getD a = a := by
      cases hl : last with
      | some f => exact Or.inl (hdates d hasOf f (hmem f hl))
      | none => exact Or.inr rfl
    obtain ⟨dep, hdep, hnonneg, hthrough, hpos⟩ := hrow.charge_through hlast horder haccum hstep
    have hcharge := charge_eq hasOf hfind hacquired hdep
    have hfits : ∀ e ∈ ds ++ [d], row.monthly * monthsElapsed a e ≤ i64Max := by
      intro e he
      rcases List.mem_append.mp he with he | he
      · exact h.fits e he
      · exact List.mem_singleton.mp he ▸ hstep.2
    have hthrough' : ∀ e, (ds ++ [d]).getLast? = some e →
        accum + dep = min row.base (row.monthly * monthsElapsed a e) := by
      intro e he
      rw [List.getLast?_concat] at he
      exact Option.some.inj he ▸ hthrough
    have hold : ∀ f, last = some f → f ∈ ds ++ [d] := fun f hf => List.mem_append_left _ (hmem f hf)
    rcases run_body hrun with ⟨hnone, hsame⟩ | ⟨charged, old, asOf, dep', hsome, -, hd, hfound, -, -, hcharged⟩
    · have hzero : dep = 0 := by
        rw [hcharge] at hnone
        split_ifs at hnone
        omega
      rw [hzero, add_zero] at hthrough'
      rw [hsame]
      exact ⟨⟨accum, last, version, updatedAt, hfind, hlast, hold, haccum, hthrough'⟩, hfits⟩
    · rw [hcharge] at hsome
      split_ifs at hsome with hdpos
      obtain ⟨rfl, rfl⟩ := Prod.mk.inj (Option.some.inj hsome)
      obtain rfl := Option.some.inj (hfind.symm.trans hfound)
      obtain rfl : d = asOf := Except.ok.inj ((asOfOn_eq_some hasOf).2.symm.trans hd)
      refine ⟨⟨accum + dep, some d, version + 1, r.ctx.now, ?_, ?_, ?_, hthrough, hthrough'⟩, hfits⟩
      · rw [hcharged.assets, Table.find?_modify_self, hfind]
        rfl
      · exact Int.le_trans hlast (hpos hdpos)
      · rintro f hf
        exact Option.some.inj hf ▸ List.mem_append_right _ (List.mem_singleton_self d)

omit [Formats] in
theorem chargedThrough_new {assetId : Uuid} {row : AssetRow} {a : Date} {s : Services}
    (hfind : s.inventory.assets.find? assetId = some row) (hrow : row.Depreciable)
    (hnew : row.accumulatedDepreciationMinor = 0 ∧ row.lastDepreciatedAt = none) :
    ChargedThrough assetId row a [] s := by
  have hbase : 0 ≤ row.base := sub_nonneg.mpr hrow.within
  have hsame : row = row.at 0 none row.version row.updatedAt := by
    rw [← hnew.1, ← hnew.2]
    rfl
  refine ⟨⟨0, none, row.version, row.updatedAt, hsame ▸ hfind, Int.le_refl _, nofun, ?_, nofun⟩, nofun⟩
  rw [Option.getD_none, monthsElapsed_of_le (Int.le_refl _), mul_zero, min_eq_right hbase]

theorem ChargedThrough.run {assetId : Uuid} {row : AssetRow} {a : Date} {s t : Services}
    {steps : List (Services × DepreciationRequest)} (h : Runs DepreciationRequest.body s steps t)
    (h0 : ChargedThrough assetId row a [] s) (hrow : row.Depreciable) (hacquired : row.acquiredAt = some a)
    (hdates : (asOfs assetId steps).Pairwise (· ≤ ·)) (heven : ∀ x ∈ steps, ChargesEvenly assetId x) :
    ChargedThrough assetId row a (asOfs assetId steps) t := by
  induction h with
  | nil => exact h0
  | @step t u steps r x prior hr ih =>
    have hsplit : asOfs assetId (steps ++ [(t, r)]) = asOfs assetId steps ++ (r.asOfOn assetId).toList := by
      unfold asOfs
      rw [List.filterMap_append]
      cases hasOf : r.asOfOn assetId <;> simp [hasOf]
    rw [hsplit, List.pairwise_append] at hdates
    rw [hsplit]
    have hprior := ih hdates.1 fun y hy => heven y (List.mem_append_left _ hy)
    refine hprior.step hrow hacquired (heven _ (List.mem_append_right _ (List.mem_singleton_self _))) ?_ hr
    intro d hd e he
    exact hdates.2.2 e he d (by rw [hd]; exact List.mem_singleton_self d)

/-- What an asset has accumulated after runs that charge evenly is what a single run would have charged. -/
theorem depreciation_independent_of_runs {assetId : Uuid} {row : AssetRow} {a d : Date} {s t : Services}
    {steps : List (Services × DepreciationRequest)} (h : Runs DepreciationRequest.body s steps t)
    (hfind : s.inventory.assets.find? assetId = some row) (hrow : row.Depreciable)
    (hnew : row.accumulatedDepreciationMinor = 0 ∧ row.lastDepreciatedAt = none)
    (hacquired : row.acquiredAt = some a) (hdates : (asOfs assetId steps).Pairwise (· ≤ ·))
    (heven : ∀ x ∈ steps, ChargesEvenly assetId x) (hlast : (asOfs assetId steps).getLast? = some d) :
    ∃ row', t.inventory.assets.find? assetId = some row' ∧
      row'.accumulatedDepreciationMinor =
        min (row.acquisitionCostMinor - row.salvageMinor) (row.monthly * monthsElapsed a d) ∧
      ∀ (r : DepreciationRequest) (x : DepreciateAssetResponse × Services) (row'' : AssetRow),
        r.asOfOn assetId = some d → r.body.run s = .ok x → x.2.inventory.assets.find? assetId = some row'' →
          row''.accumulatedDepreciationMinor = row'.accumulatedDepreciationMinor := by
  have h0 := chargedThrough_new (a := a) hfind hrow hnew
  have hend := h0.run h hrow hacquired hdates heven
  obtain ⟨accum, last, version, updatedAt, hfound, -, -, -, hthrough⟩ := hend.found
  refine ⟨_, hfound, hthrough d hlast, fun r x row'' hasOf hrun hrow'' => ?_⟩
  -- From the acquisition on no month is cut.
  have hfirst : ChargesEvenly assetId (s, r) := by
    intro row₁ hfind₁ a₁ ha₁ d₁ hd₁
    obtain rfl := Option.some.inj (hfind.symm.trans hfind₁)
    obtain rfl := Option.some.inj (hacquired.symm.trans ha₁)
    obtain rfl := Option.some.inj (hasOf.symm.trans hd₁)
    refine ⟨Or.inl ?_, hend.fits d (List.mem_of_getLast? hlast)⟩
    rw [hnew.2, Option.getD_none]
    unfold KeepsMonth
    rw [if_pos le_rfl]
    exact lt_or_ge _ _
  obtain ⟨accum', last', version', updatedAt', hfound', -, -, -, hthrough'⟩ :=
    (h0.step hrow hacquired hfirst (fun _ _ _ he => absurd he List.not_mem_nil) hrun).found
  obtain rfl := Option.some.inj (hfound'.symm.trans hrow'')
  rw [hasOf] at hthrough'
  exact (hthrough' d rfl).trans (hthrough d hlast).symm

end

theorem depreciable_oneMachine :
    ∃ row, Services.oneMachine.inventory.assets.find? 5 = some row ∧ row.Depreciable ∧
    row.accumulatedDepreciationMinor = 0 ∧ row.lastDepreciatedAt = none ∧
    row.acquiredAt = some ⟨2024, 1, 15, by decide⟩ ∧ row.monthly = 100 ∧
    row.acquisitionCostMinor - row.salvageMinor = 3600 := by
  refine ⟨_, rfl, ?_, by decide, by decide, by decide, by decide, by decide⟩
  constructor <;> decide

/-- Through March 15 and then through April 15: three months, as in one run. -/
theorem depreciation_independent_of_runs_monthly :
    letI := canonicalFormats
    ∃ steps t, Runs DepreciationRequest.body Services.oneMachine steps t ∧ steps.length = 2 ∧
      ∃ row, t.inventory.assets.find? 5 = some row ∧ row.accumulatedDepreciationMinor = 300 := by
  let := canonicalFormats
  obtain ⟨steps, t, hrun, hend⟩ := Runs.of_play DepreciationRequest.body
    [depreciateThrough 1 "2024-03-15", depreciateThrough 2 "2024-04-15"] Services.oneMachine
    (fun steps _ => steps.length = 2 && asOfs 5 steps = [⟨2024, 3, 15, by decide⟩, ⟨2024, 4, 15, by decide⟩] &&
      steps.all fun x => ChargesEvenly 5 x) (by decide +kernel)
  simp only [Bool.and_eq_true, decide_eq_true_eq, List.all_eq_true] at hend
  obtain ⟨⟨hlen, hdates⟩, heven⟩ := hend
  obtain ⟨row, hfind, hrow, hzero, hnone, hacquired, hmonthly, hbase⟩ := depreciable_oneMachine
  obtain ⟨row', hfound, haccum, -⟩ := depreciation_independent_of_runs hrun hfind hrow ⟨hzero, hnone⟩ hacquired
    (by rw [hdates]; decide) heven (by rw [hdates]; rfl)
  rw [hmonthly, hbase] at haccum
  exact ⟨steps, t, hrun, hlen, row', hfound, haccum.trans (by decide)⟩

/-- Through February 20 and then through March 18 a month is charged each time that its days are not cut:
one in all, where a run through March 18 alone charges two. -/
theorem depreciation_loses_month :
    letI := canonicalFormats
    (∃ steps t, Runs DepreciationRequest.body Services.oneMachine steps t ∧
      asOfs 5 steps = [⟨2024, 2, 20, by decide⟩, ⟨2024, 3, 18, by decide⟩] ∧
      (t.inventory.assets.find? 5).map (·.accumulatedDepreciationMinor) = some 100) ∧
    ∃ steps t, Runs DepreciationRequest.body Services.oneMachine steps t ∧
      asOfs 5 steps = [⟨2024, 3, 18, by decide⟩] ∧
      (t.inventory.assets.find? 5).map (·.accumulatedDepreciationMinor) = some 200 := by
  let := canonicalFormats
  constructor
  · obtain ⟨steps, t, hrun, hend⟩ := Runs.of_play DepreciationRequest.body
      [depreciateThrough 1 "2024-02-20", depreciateThrough 2 "2024-03-18"] Services.oneMachine
      (fun steps t => asOfs 5 steps = [⟨2024, 2, 20, by decide⟩, ⟨2024, 3, 18, by decide⟩] &&
        (t.inventory.assets.find? 5).map (·.accumulatedDepreciationMinor) = some 100) (by decide +kernel)
    simp only [Bool.and_eq_true, decide_eq_true_eq] at hend
    exact ⟨steps, t, hrun, hend⟩
  · obtain ⟨steps, t, hrun, hend⟩ := Runs.of_play DepreciationRequest.body [depreciateThrough 1 "2024-03-18"]
      Services.oneMachine
      (fun steps t => asOfs 5 steps = [⟨2024, 3, 18, by decide⟩] &&
        (t.inventory.assets.find? 5).map (·.accumulatedDepreciationMinor) = some 200) (by decide +kernel)
    simp only [Bool.and_eq_true, decide_eq_true_eq] at hend
    exact ⟨steps, t, hrun, hend⟩

end Noxara.Inventory
