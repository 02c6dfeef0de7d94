import Noxara.TaxRates

/-! The versions of a tax rate over time: when they are disjoint, and that the past of a group stays as it was. -/
namespace Noxara.Tax

open Transaction
open Finance (Uuid PublicId Formats Date parseOptionalPublicId canonicalFormats)

section
variable [Formats]

def CreateTaxRate.start (op : CreateTaxRate) : Option Date := Formats.dateParseFromStr op.body.validFrom

/-- The version that the new one supersedes. -/
def CreateTaxRate.superseded (op : CreateTaxRate) : Option Uuid :=
  (parseOptionalPublicId .taxRate op.body.supersedesId).toOption.join

def CreateTaxRate.groupIn (op : CreateTaxRate) (db : Db) : Option Uuid :=
  (parseOptionalPublicId .taxGroup op.body.taxGroupId).toOption.join.or
    (op.superseded.bind fun prev => (db.rates.find? prev).bind (·.taxGroupId))

def CreateTaxRate.closeAt (op : CreateTaxRate) (start : Date) (r : Uuid × TaxRateRow) : Uuid × TaxRateRow :=
  (r.1, if some r.1 = op.superseded then (if r.2.StillOn start then r.2.close start.pred else r.2) else r.2)

structure Creates (op : CreateTaxRate) (s t : Db) (start : Date) (row : TaxRateRow) : Prop where
  start_eq : op.start = some start
  validFrom : row.validFrom = start
  isComponent : row.isComponent = op.body.isComponent
  group : row.taxGroupId = op.groupIn s
  rows : t.rates.rows = s.rates.rows.map (op.closeAt start) ++ [(op.rateId, row)]

theorem parseDate_ok {raw field : String} {d : Date} (h : parseDate raw field = .ok d) :
    Formats.dateParseFromStr raw = some d := by
  unfold parseDate at h
  cases hd : Formats.dateParseFromStr raw with
  | none =>
    rw [hd] at h
    cases h
  | some e =>
    rw [hd] at h
    cases h
    rfl

theorem createTaxRate_ok {op : CreateTaxRate} {s t : Db} {dto : TaxRateDto}
    (h : (createTaxRate op).run s = .ok (dto, t)) : ∃ start row, Creates op s t start row := by
  simp only [createTaxRate, Prog.run_ofExcept_bind_ok, Prog.run_require_bind_ok] at h
  obtain ⟨_, _, _, _, start, hstart, validTo, _, _, group, hgroup, supersedes, hsupersedes, h⟩ := h
  have hsuperseded : op.superseded = supersedes := by simp [CreateTaxRate.superseded, hsupersedes, Except.toOption]
  obtain ⟨resolved, u, hclose, hafter⟩ := Prog.run_bind_ok.mp h
  obtain ⟨_, v, hrequire, hwrite⟩ := Prog.run_bind_ok.mp hafter
  have hv : v = u := by
    unfold requireGroup at hrequire
    cases resolved with
    | none =>
      cases hrequire
      rfl
    | some gid =>
      simp only [Prog.run_query_bind, Prog.run_require_ok] at hrequire
      exact congrArg Prod.snd hrequire.2
  subst hv
  simp only [insertRate, Prog.run_execute_bind_ok, Prog.run_query_bind, Prog.run_okOr_ok] at hwrite
  obtain ⟨hcheck, _, ht⟩ := hwrite
  subst ht
  have hnone : v.rates.find? op.rateId = none := by
    cases hfind : v.rates.find? op.rateId with
    | none => rfl
    | some r => simp [hfind] at hcheck
  refine ⟨start, op.row start validTo resolved supersedes, parseDate_ok hstart, rfl, rfl, ?_, ?_⟩
  · change resolved = op.groupIn s
    rw [CreateTaxRate.groupIn, hgroup, hsuperseded]
    unfold supersede at hclose
    cases supersedes with
    | none =>
      cases hclose
      simp [Except.toOption]
    | some prev =>
      simp only [closeRate, Prog.run_query_bind, Prog.run_okOr_bind_ok, Prog.run_execute_bind_ok] at hclose
      obtain ⟨row, hrow, _, hclose⟩ := hclose
      cases hclose
      simp [Except.toOption, hrow]
  · rw [Table.rows_insert hnone]
    congr 1
    unfold supersede at hclose
    unfold CreateTaxRate.closeAt
    rw [hsuperseded]
    cases supersedes with
    | none =>
      cases hclose
      simp
    | some prev =>
      simp only [closeRate, Prog.run_query_bind, Prog.run_okOr_bind_ok, Prog.run_execute_bind_ok] at hclose
      obtain ⟨row, hrow, _, hclose⟩ := hclose
      cases hclose
      simp [Table.modify, Table.mapRows]

theorem closeAt_fields (op : CreateTaxRate) (start : Date) (r : Uuid × TaxRateRow) :
    (op.closeAt start r).1 = r.1 ∧ (op.closeAt start r).2.validFrom = r.2.validFrom ∧
      (op.closeAt start r).2.rateBps = r.2.rateBps ∧ (op.closeAt start r).2.taxGroupId = r.2.taxGroupId ∧
      (op.closeAt start r).2.isComponent = r.2.isComponent := by
  unfold CreateTaxRate.closeAt
  dsimp only
  split_ifs <;> exact ⟨rfl, rfl, rfl, rfl, rfl⟩

theorem closeAt_ended (op : CreateTaxRate) (start : Date) {r : Uuid × TaxRateRow} {last : Date}
    (h : r.2.validTo = some last) : (op.closeAt start r).2.validTo = some last := by
  unfold CreateTaxRate.closeAt
  dsimp only
  split_ifs
  · simp [TaxRateRow.close, h]
  · exact h
  · exact h

theorem Creates.versions {op : CreateTaxRate} {s t : Db} {start : Date} {row : TaxRateRow}
    (h : Creates op s t start row) (g : Uuid) : t.versions g = (s.versions g).map (op.closeAt start) ++
      if row.taxGroupId = some g ∧ row.isComponent = false then [(op.rateId, row)] else [] := by
  have hold : (s.rates.rows.map (op.closeAt start)).filter
      (fun r => r.2.taxGroupId = some g ∧ r.2.isComponent = false) = (s.versions g).map (op.closeAt start) := by
    rw [List.filter_map, Db.versions]
    congr 1
    refine List.filter_congr fun r _ => ?_
    obtain ⟨_, _, _, hgroup, hcomponent⟩ := closeAt_fields op start r
    simp only [Function.comp_apply, hgroup, hcomponent]
  rw [Db.versions, h.rows, List.filter_append, hold]
  congr 1
  by_cases hin : row.taxGroupId = some g ∧ row.isComponent = false <;> simp [hin]

/-- Closing the day before a date changes nothing before that date. -/
theorem covers_closeAt (op : CreateTaxRate) {start asOf : Date} (h : asOf < start) (r : Uuid × TaxRateRow) :
    (op.closeAt start r).2.Covers asOf ↔ r.2.Covers asOf := by
  unfold CreateTaxRate.closeAt
  dsimp only
  split_ifs with hprev hon
  · unfold TaxRateRow.Covers TaxRateRow.close
    cases hto : r.2.validTo with
    | none => simp [Date.le_pred h]
    | some last => simp
  · rfl
  · rfl

/-- What the group resolves to before the date of the new version stays what it was. -/
theorem Creates.resolve {op : CreateTaxRate} {s t : Db} {start asOf : Date} {row : TaxRateRow}
    (h : Creates op s t start row) (hbefore : asOf < start) (g : Uuid) :
    t.resolveRateBps (some g) none asOf = s.resolveRateBps (some g) none asOf := by
  have hnew : ¬row.Covers asOf := by
    rintro ⟨hfrom, -⟩
    rw [h.validFrom, Date.le_def] at hfrom
    have hlt : asOf.ordinal < start.ordinal := hbefore
    omega
  have hfilter : (t.versions g).filter (fun r => r.2.Covers asOf) =
      ((s.versions g).filter fun r => r.2.Covers asOf).map (op.closeAt start) := by
    rw [h.versions g, List.filter_append, List.filter_map]
    have hold : (s.versions g).filter ((fun r => decide (r.2.Covers asOf)) ∘ op.closeAt start) =
        (s.versions g).filter fun r => r.2.Covers asOf := by
      refine List.filter_congr fun r _ => ?_
      simp only [Function.comp_apply, covers_closeAt op hbefore r]
    rw [hold]
    split_ifs <;> simp [hnew]
  have hsort := List.map_mergeSort (r := fun a b : Uuid × TaxRateRow => decide (b.2.validFrom ≤ a.2.validFrom))
    (s := fun a b : Uuid × TaxRateRow => decide (b.2.validFrom ≤ a.2.validFrom)) (f := op.closeAt start)
    (l := (s.versions g).filter fun r => r.2.Covers asOf) (fun a _ b _ => by
      rw [(closeAt_fields op start a).2.1, (closeAt_fields op start b).2.1])
  simp only [Db.resolveRateBps, hfilter, ← hsort, List.head?_map, Option.map_map]
  congr 1
  funext r
  obtain ⟨hid, _, hbps, hgroup, _⟩ := closeAt_fields op start r
  simp only [Function.comp_apply, hid, hbps, hgroup]

/-- A new version supersedes the latest one of its group and starts later. -/
def Chains (db : Db) (op : CreateTaxRate) : Prop :=
  op.body.isComponent = false → ∀ g start, op.groupIn db = some g → op.start = some start →
    ∀ last, (db.versions g).getLast? = some last → op.superseded = some last.1 ∧ last.2.validFrom < start

/-- The latest version of the group is open, or ends before the new one starts. -/
def EndsBefore (db : Db) (op : CreateTaxRate) : Prop :=
  op.body.isComponent = false → ∀ g start, op.groupIn db = some g → op.start = some start →
    ∀ last, (db.versions g).getLast? = some last → ∀ stop, last.2.validTo = some stop → stop < start

instance (db : Db) (op : CreateTaxRate) : Decidable (Chains db op) :=
  decidable_of_iff (op.body.isComponent = false → ∀ g, op.groupIn db = some g →
    ∀ start, op.start = some start →
      ∀ last, (db.versions g).getLast? = some last → op.superseded = some last.1 ∧ last.2.validFrom < start)
    ⟨fun h hop g start hg hstart => h hop g hg start hstart, fun h hop g hg start hstart => h hop g start hg hstart⟩

instance (db : Db) (op : CreateTaxRate) : Decidable (EndsBefore db op) :=
  decidable_of_iff (op.body.isComponent = false → ∀ g, op.groupIn db = some g →
    ∀ start, op.start = some start →
      ∀ last, (db.versions g).getLast? = some last → ∀ stop, last.2.validTo = some stop → stop < start)
    ⟨fun h hop g start hg hstart => h hop g hg start hstart, fun h hop g hg start hstart => h hop g start hg hstart⟩

end

/-- The first version has ended when the second starts. -/
def Before (a b : Uuid × TaxRateRow) : Prop :=
  a.2.validFrom < b.2.validFrom ∧ ∃ stop, a.2.validTo = some stop ∧ stop < b.2.validFrom

def Db.Disjoint (db : Db) (g : Uuid) : Prop :=
  ∀ a ∈ db.versions g, ∀ b ∈ db.versions g, a.1 ≠ b.1 → ∀ d, ¬(a.2.Covers d ∧ b.2.Covers d)

theorem Before.disjoint {a b : Uuid × TaxRateRow} (h : Before a b) (d : Date) : ¬(a.2.Covers d ∧ b.2.Covers d) := by
  rintro ⟨⟨_, hstop⟩, hfrom, _⟩
  obtain ⟨_, stop, hto, hlt⟩ := h
  have hd := hstop stop hto
  rw [Date.le_def] at hd hfrom
  have hlt : stop.ordinal < b.2.validFrom.ordinal := hlt
  omega

theorem disjoint_of_pairwise {db : Db} {g : Uuid} (h : (db.versions g).Pairwise Before) : db.Disjoint g := by
  intro a ha b hb hne d
  have hsides : Before a b ∨ Before b a := by
    generalize db.versions g = l at h ha hb
    induction h with
    | nil => cases ha
    | cons hx _ ih =>
      rcases List.mem_cons.mp ha with rfl | ha' <;> rcases List.mem_cons.mp hb with rfl | hb'
      · exact absurd rfl hne
      · exact .inl (hx b hb')
      · exact .inr (hx a ha')
      · exact ih ha' hb'
  rcases hsides with hab | hba
  · exact hab.disjoint d
  · exact fun hc => hba.disjoint d hc.symm

section
variable [Formats] {op : CreateTaxRate} {s t : Db} {start : Date} {row : TaxRateRow}

theorem Before.closeAt {a b : Uuid × TaxRateRow} (h : Before a b) (op : CreateTaxRate) (start : Date) :
    Before (op.closeAt start a) (op.closeAt start b) := by
  obtain ⟨hfrom, stop, hto, hlt⟩ := h
  rw [Before, (closeAt_fields op start a).2.1, (closeAt_fields op start b).2.1]
  exact ⟨hfrom, stop, closeAt_ended op start hto, hlt⟩

theorem before_new (h : Creates op s t start row) {last : Uuid × TaxRateRow}
    (hprev : op.superseded = some last.1) (hfrom : last.2.validFrom < start)
    (hends : ∀ stop, last.2.validTo = some stop → stop < start) :
    Before (op.closeAt start last) (op.rateId, row) := by
  rw [Before, (closeAt_fields op start last).2.1, h.validFrom]
  refine ⟨hfrom, ?_⟩
  cases hto : last.2.validTo with
  | none =>
    refine ⟨start.pred, ?_, start.pred_lt⟩
    simp [CreateTaxRate.closeAt, hprev, TaxRateRow.StillOn, TaxRateRow.close, hto]
  | some stop => exact ⟨stop, closeAt_ended op start hto, hends stop hto⟩

theorem Creates.succession (h : Creates op s t start row) {g : Uuid} (hs : (s.versions g).Pairwise Before)
    (hchain : Chains s op) (hends : EndsBefore s op) : (t.versions g).Pairwise Before := by
  have hold : ((s.versions g).map (op.closeAt start)).Pairwise Before := by
    rw [List.pairwise_map]
    exact hs.imp fun hab => hab.closeAt op start
  rw [h.versions g]
  split_ifs with hin
  · rw [List.pairwise_append]
    refine ⟨hold, List.pairwise_singleton _ _, ?_⟩
    rintro x hx y hy
    obtain rfl := List.mem_singleton.mp hy
    obtain ⟨a, ha, rfl⟩ := List.mem_map.mp hx
    have hgroup : op.groupIn s = some g := h.group.symm.trans hin.1
    have hversion : op.body.isComponent = false := h.isComponent.symm.trans hin.2
    rcases List.eq_nil_or_concat (s.versions g) with hnil | ⟨init, last, hlist⟩
    · rw [hnil] at ha
      cases ha
    · have hlast : (s.versions g).getLast? = some last := by
        rw [hlist, List.concat_eq_append, List.getLast?_concat]
      obtain ⟨hprev, hfrom⟩ := hchain hversion g start hgroup h.start_eq last hlast
      have hnew := before_new h hprev hfrom (hends hversion g start hgroup h.start_eq last hlast)
      rw [hlist, List.concat_eq_append] at ha hs
      rcases List.mem_append.mp ha with ha | ha
      · have hlater := (List.pairwise_append.mp hs).2.2 a ha last (List.mem_singleton_self _)
        obtain ⟨hlt, stop, hto, hstop⟩ := hlater
        rw [Before, (closeAt_fields op start a).2.1, h.validFrom]
        exact ⟨Date.lt_trans hlt hfrom, stop, closeAt_ended op start hto, Date.lt_trans hstop hfrom⟩
      · obtain rfl := List.mem_singleton.mp ha
        exact hnew
  · rw [List.append_nil]
    exact hold

/-- In a run of requests each of which supersedes the latest version of its group, the versions of every group are
disjoint as long as the latest version is open or ends before the new one starts; and no request changes what a
group resolves to before its own date. -/
theorem tax_versions_disjoint {steps : List (Db × CreateTaxRate)} (hruns : Runs createTaxRate s steps t)
    (hempty : s.rates = .empty) (hchain : ∀ x ∈ steps, Chains x.1 x.2)
      (hends : ∀ x ∈ steps, EndsBefore x.1 x.2) :
    (∀ g, t.Disjoint g) ∧
      ∀ (op : CreateTaxRate) (dto : TaxRateDto) (u : Db) (start : Date),
        (createTaxRate op).run t = .ok (dto, u) → op.start = some start → ∀ g asOf, asOf < start →
          u.resolveRateBps (some g) none asOf = t.resolveRateBps (some g) none asOf := by
  constructor
  · intro g
    refine disjoint_of_pairwise ?_
    refine hruns.invariant (I := fun u => (u.versions g).Pairwise Before)
      (C := fun x => Chains x.1 x.2 ∧ EndsBefore x.1 x.2) ?_ (fun x hx => ⟨hchain x hx, hends x hx⟩) ?_
    · simp [Db.versions, hempty, Table.empty]
    · intro v o dto u hc hv hrun
      obtain ⟨start, row, hcreates⟩ := createTaxRate_ok hrun
      exact hcreates.succession hv hc.1 hc.2
  · intro op dto u start hrun hstart g asOf hbefore
    obtain ⟨start', row, hcreates⟩ := createTaxRate_ok hrun
    obtain rfl : start = start' := Option.some.inj (hstart.symm.trans hcreates.start_eq)
    exact hcreates.resolve hbefore g

end

def oneGroup : Db where
  groups := Table.empty.insert 1 { publicId := "txg_1", name := "VAT" }
  rates := .empty

/-- Version number `n` of the group, at its rate, after the version that it supersedes. -/
def versionOf [Formats] (n : Uuid) (rateBps : Int) (validFrom : String) (validTo : Option String) (prev : Option Uuid) :
    CreateTaxRate where
  authorize := .ok ()
  rateId := n
  now := n
  body :=
    { name := "Standard"
      rateBps := rateBps
      validFrom := validFrom
      validTo := validTo
      taxGroupId := some (PublicId.mk .taxGroup 1).asStr
      supersedesId := prev.map fun p => (PublicId.mk .taxRate p).asStr }

def july : Date := ⟨2026, 7, 1, by decide⟩

/-- A rate for the whole of 2026 keeps its end when a new one supersedes it from July 1 on: both cover that day. -/
theorem tax_versions_overlap :
    letI := canonicalFormats
    ∃ (steps : List (Db × CreateTaxRate)) (t : Db), Runs createTaxRate oneGroup steps t ∧
      steps.map (fun x => x.2.rateId) = [2, 3] ∧ (∀ x ∈ steps, Chains x.1 x.2) ∧ ¬t.Disjoint 1 := by
  let := canonicalFormats
  have hplay := Runs.of_play createTaxRate [versionOf 2 1900 "2026-01-01" (some "2026-12-31") none,
      versionOf 3 2000 "2026-07-01" none (some 2)] oneGroup
    (fun steps t => Decidable.decide (steps.map (fun x => x.2.rateId) = [2, 3]) &&
      Decidable.decide (∀ x ∈ steps, Chains x.1 x.2) &&
      (t.versions 1).any fun (a : Uuid × TaxRateRow) => (t.versions 1).any fun (b : Uuid × TaxRateRow) =>
        Decidable.decide (a.1 ≠ b.1 ∧ a.2.Covers july ∧ b.2.Covers july))
    (by decide +kernel)
  obtain ⟨steps, t, hruns, hP⟩ := hplay
  simp only [Bool.and_eq_true, decide_eq_true_eq, List.any_eq_true] at hP
  obtain ⟨⟨hids, hchain⟩, a, ha, b, hb, hne, hcovers⟩ := hP
  refine ⟨steps, t, hruns, hids, hchain, ?_⟩
  intro hdisjoint
  exact hdisjoint a ha b hb hne july hcovers

/-- Superseding an open version closes it on June 30. -/
theorem tax_versions_disjoint_open :
    letI := canonicalFormats
    ∃ (steps : List (Db × CreateTaxRate)) (t : Db), Runs createTaxRate oneGroup steps t ∧
      steps.map (fun x => x.2.rateId) = [2, 3] ∧ t.Disjoint 1 := by
  let := canonicalFormats
  have hplay := Runs.of_play createTaxRate [versionOf 2 1900 "2026-01-01" none none,
      versionOf 3 2000 "2026-07-01" none (some 2)] oneGroup
    (fun steps _ => Decidable.decide (steps.map (fun x => x.2.rateId) = [2, 3]) &&
      Decidable.decide (∀ x ∈ steps, Chains x.1 x.2) && Decidable.decide (∀ x ∈ steps, EndsBefore x.1 x.2))
    (by decide +kernel)
  obtain ⟨steps, t, hruns, hP⟩ := hplay
  simp only [Bool.and_eq_true, decide_eq_true_eq] at hP
  obtain ⟨⟨hids, hchain⟩, hends⟩ := hP
  have hdisjoint := (tax_versions_disjoint hruns rfl hchain hends).1 1
  exact ⟨steps, t, hruns, hids, hdisjoint⟩

end Noxara.Tax
