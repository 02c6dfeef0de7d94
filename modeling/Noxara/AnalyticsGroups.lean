import Mathlib.Algebra.BigOperators.Group.List.Basic
import Mathlib.Data.List.Perm.Basic
import Noxara.AnalyticsQueries

/-! What a report returns, group by group: one row for each key of the facts it names, with the values of the key, the
measure of the group and its records. -/
namespace Noxara.Analytics

open Finance (AppError Formats InI64 canonicalFormats)
open Authz (TimeFormats canonicalTimeFormats Principal isAllowed)

section
variable {α β κ : Type}

theorem nodup_eraseDups [BEq κ] [LawfulBEq κ] (keys : List κ) : keys.eraseDups.Nodup := by
  induction hn : keys.length using Nat.strong_induction_on generalizing keys with
  | _ n ih =>
    cases keys with
    | nil => exact List.nodup_nil
    | cons k keys =>
      have hshorter := List.length_filter_le (fun j => !j == k) keys
      rw [List.eraseDups_cons, List.nodup_cons]
      constructor
      · simp [List.mem_eraseDups]
      · exact ih _ (by rw [← hn, List.length_cons]; omega) _ rfl

def keysOf [BEq κ] (key : α → κ) (xs : List α) : List κ := (xs.map key).eraseDups

def groupOf [DecidableEq κ] (key : α → κ) (xs : List α) (k : κ) : List α := xs.filter fun x => key x = k

theorem mem_keysOf [BEq κ] [LawfulBEq κ] {key : α → κ} {xs : List α} {k : κ} :
    k ∈ keysOf key xs ↔ ∃ x ∈ xs, key x = k := by
  rw [keysOf, List.mem_eraseDups, List.mem_map]

theorem mem_groupOf [DecidableEq κ] {key : α → κ} {xs : List α} {k : κ} {x : α} :
    x ∈ groupOf key xs k ↔ x ∈ xs ∧ key x = k := by
  rw [groupOf, List.mem_filter, decide_eq_true_eq]

theorem keysOf_of_const [BEq κ] [LawfulBEq κ] {key : α → κ} {k : κ} (h : ∀ x, key x = k) {xs : List α}
    (hne : xs ≠ []) :
    keysOf key xs = [k] := by
  obtain ⟨x, xs, rfl⟩ := List.exists_cons_of_ne_nil hne
  have hrest : ((xs.map key).filter fun j => !j == k) = [] := by
    refine List.filter_eq_nil_iff.mpr fun j hj => ?_
    obtain ⟨y, -, rfl⟩ := List.mem_map.mp hj
    simp [h]
  rw [keysOf, List.map_cons, List.eraseDups_cons, h x, hrest, List.eraseDups_nil]

theorem groupOf_of_const [DecidableEq κ] {key : α → κ} {k : κ} (h : ∀ x, key x = k) (xs : List α) :
    groupOf key xs k = xs := by
  simp [groupOf, h]

theorem sum_indicator [DecidableEq κ] {keys : List κ} (hnodup : keys.Nodup) {k : κ} (hk : k ∈ keys) :
    (keys.map fun j => if k = j then 1 else 0).sum = 1 := by
  induction keys with
  | nil => cases hk
  | cons j keys ih =>
    obtain ⟨hj, hrest⟩ := List.nodup_cons.mp hnodup
    rw [List.map_cons, List.sum_cons]
    rcases List.mem_cons.mp hk with rfl | hk
    · have hzero : (keys.map fun j => if k = j then 1 else 0) = keys.map fun _ => 0 := by
        refine List.map_congr_left fun j hmem => if_neg ?_
        rintro rfl
        exact hj hmem
      rw [hzero, if_pos rfl]
      simp
    · have hne : k ≠ j := fun h => hj (h ▸ hk)
      rw [ih hrest hk, if_neg hne]

theorem sum_length_groupOf [DecidableEq κ] (key : α → κ) (xs : List α) {keys : List κ} (hnodup : keys.Nodup)
    (hcover : ∀ x ∈ xs, key x ∈ keys) : (keys.map fun k => (groupOf key xs k).length).sum = xs.length := by
  induction xs with
  | nil => simp [groupOf]
  | cons x xs ih =>
    have hsplit : (keys.map fun k => (groupOf key (x :: xs) k).length) =
        keys.map fun k => (if key x = k then 1 else 0) + (groupOf key xs k).length := by
      refine List.map_congr_left fun k _ => ?_
      by_cases hk : key x = k
      · simp [groupOf, hk, Nat.add_comm]
      · simp [groupOf, hk]
    rw [hsplit, List.sum_map_add, sum_indicator hnodup (hcover x List.mem_cons_self), ih fun y hy =>
      hcover y (List.mem_cons_of_mem x hy), List.length_cons,
      Nat.add_comm]

/-- A list in the order of a permuted image is the image of a permuted list. -/
theorem exists_map_of_perm {f : α → β} {xs : List α} {ys : List β} (h : ys.Perm (xs.map f)) :
    ∃ order : List α, order.Perm xs ∧ ys = order.map f := by
  have hcomp : Relation.Comp (fun ys order => ys = List.map f order) List.Perm ys xs := by
    rw [List.eq_map_comp_perm]
    exact h
  obtain ⟨order, hys, horder⟩ := hcomp
  exact ⟨order, horder, hys⟩

end

theorem map_eq_of_forall₂ {α β γ : Type} {R : α → β → Prop} {f : α → γ} {g : β → γ}
    (hfg : ∀ x y, R x y → f x = g y)
    {xs : List α} {ys : List β} (h : List.Forall₂ R xs ys) : xs.map f = ys.map g := by
  induction h with
  | nil => rfl
  | cons hxy _ ih => rw [List.map_cons, List.map_cons, hfg _ _ hxy, ih]

theorem exists_of_forall₂ {α β : Type} {R : α → β → Prop} {xs : List α} {ys : List β}
    (h : List.Forall₂ R xs ys) :
    (∀ x ∈ xs, ∃ y ∈ ys, R x y) ∧ ∀ y ∈ ys, ∃ x ∈ xs, R x y := by
  induction h with
  | nil => exact ⟨fun x hx => (by cases hx), fun y hy => (by cases hy)⟩
  | @cons x y xs ys hxy _ ih =>
    constructor
    · intro a ha
      rcases List.mem_cons.mp ha with rfl | ha
      · exact ⟨y, List.mem_cons_self, hxy⟩
      · obtain ⟨b, hb, hab⟩ := ih.1 a ha
        exact ⟨b, List.mem_cons_of_mem y hb, hab⟩
    · intro b hb
      rcases List.mem_cons.mp hb with rfl | hb
      · exact ⟨x, List.mem_cons_self, hxy⟩
      · obtain ⟨a, ha, hab⟩ := ih.2 b hb
        exact ⟨a, List.mem_cons_of_mem x ha, hab⟩

/-- The measure of a group, over the values that are not null. -/
def measure (metric : MetricDefinition) (rows : List Row) : Int :=
  let values := rows.filterMap fun r => (r metric.measureField).asInt
  match metric.measure with
  | .sum => values.sum
  | .count => rows.length
  | .avg => roundedAverage values.sum values.length

/-- A count is one; a sum or an average is cast. -/
def Representable (metric : MetricDefinition) (rows : List Row) : Prop :=
  metric.measure = .count ∨ InI64 (measure metric rows)

instance (metric : MetricDefinition) (rows : List Row) : Decidable (Representable metric rows) :=
  inferInstanceAs (Decidable (metric.measure = .count ∨ InI64 (measure metric rows)))

theorem aggregate_eq_ok {metric : MetricDefinition} {rows : List Row} {n : Int} :
    aggregate metric rows = .ok n ↔ Representable metric rows ∧ n = measure metric rows := by
  unfold aggregate Representable measure bigint
  cases metric.measure with
  | count => simp [eq_comm]
  | sum =>
    dsimp only
    split_ifs with h <;> simp [h, eq_comm]
  | avg =>
    dsimp only
    split_ifs with h <;> simp [h, eq_comm]

namespace ValidatedQuery

def keyOf (v : ValidatedQuery) (r : Row) : List Cell := v.groupCols.map r

def groups (v : ValidatedQuery) (db : Database) : List (List Row) := groupRows v.groupCols (v.selected db)

/-- The facts that a report is about, for a meaning of its filters. -/
def matching (v : ValidatedQuery) (meets : QueryFilter → Row → Bool) (db : Database) : List Row :=
  (v.selected db).filter fun r => v.filters.all fun f => meets f r

theorem groups_eq (v : ValidatedQuery) {db : Database} (h : v.groupCols = [] → v.selected db ≠ []) :
    v.groups db = (keysOf v.keyOf (v.selected db)).map (groupOf v.keyOf (v.selected db)) := by
  unfold groups groupRows
  split_ifs with hcols
  · have hkey : ∀ r, v.keyOf r = [] := fun r => by rw [keyOf, hcols, List.map_nil]
    rw [keysOf_of_const hkey (h hcols), List.map_singleton, groupOf_of_const hkey]
  · rfl

end ValidatedQuery

/-- A column's label. -/
def dimension (dimensions : List (String × String)) (c : String) : Option String :=
  (dimensions.find? fun d => d.1 = c).map (·.2)

/-- A row of the answer for a key: the values of the key, a null one left out, the measure of the key's facts, and
their records. -/
structure ReportsKey (e : Engine) (v : ValidatedQuery) (rows : List Row) (key : List Cell) (row : QueryRow) : Prop where
  labels : ∀ r ∈ rows, v.keyOf r = key →
    ∀ c, dimension row.dimensions c = if c ∈ v.groupCols then e.shown (r c) else none
  value : row.value = measure v.metric (groupOf v.keyOf rows key)
  recordIds : (row.recordIds.map some).Perm
    ((groupOf v.keyOf rows key).map fun r => e.shown (r v.metric.fact.recordIdColumn))

/-- One row for each key of the facts, and no other. -/
def Reports (e : Engine) (v : ValidatedQuery) (rows : List Row) (answer : Except AppError QueryResult) : Prop :=
  ∃ (result : QueryResult) (keys : List (List Cell)), answer = .ok result ∧ keys.Perm (keysOf v.keyOf rows) ∧
    List.Forall₂ (ReportsKey e v rows) keys result.rows

theorem dimension_cons (d : String × String) (m : List (String × String)) (c : String) :
    dimension (d :: m) c = if d.1 = c then some d.2 else dimension m c := by
  unfold dimension
  rw [List.find?_cons]
  by_cases h : d.1 = c <;> simp [h]

theorem dimension_append_singleton (m : List (String × String)) (k value c : String) :
    dimension (m ++ [(k, value)]) c = (dimension m c).or (if k = c then some value else none) := by
  induction m with
  | nil =>
    rw [List.nil_append, dimension_cons]
    rfl
  | cons d m ih =>
    rw [List.cons_append, dimension_cons, dimension_cons, ih]
    split_ifs <;> rfl

theorem dimension_insertDimension (m : List (String × String)) (k value c : String) :
    dimension (insertDimension m k value) c = if c = k then some value else dimension m c := by
  unfold insertDimension
  split_ifs with hany hck hck
  · subst hck
    induction m with
    | nil => cases hany
    | cons d m ih =>
      rw [List.map_cons, dimension_cons]
      by_cases hd : d.1 = c
      · simp [hd]
      · rw [List.any_cons, decide_eq_false hd, Bool.false_or] at hany
        rw [if_neg hd, if_neg hd, ih hany]
  · clear hany
    induction m with
    | nil => rfl
    | cons d m ih =>
      rw [List.map_cons, dimension_cons, dimension_cons, ih]
      by_cases hd : d.1 = k
      · simp [hd, Ne.symm hck]
      · simp [hd]
  · subst hck
    have habsent : dimension m c = none := by
      unfold dimension
      rw [Option.map_eq_none_iff, List.find?_eq_none]
      intro d hd hdc
      exact hany (List.any_eq_true.mpr ⟨d, hd, hdc⟩)
    rw [dimension_append_singleton, habsent, if_pos rfl, Option.none_or]
  · rw [dimension_append_singleton, if_neg (Ne.symm hck), Option.or_none]

/-- What a run of insertions leaves at a column: the last value that was put there. -/
theorem dimension_foldl (value : Nat → String) (c : String) (xs : List (String × Nat))
    (m : List (String × String)) :
    (∃ x ∈ xs, x.1 = c ∧ dimension (xs.foldl (fun m x => insertDimension m x.1 (value x.2)) m) c =
      some (value x.2)) ∨
      (∀ x ∈ xs, x.1 ≠ c) ∧
        dimension (xs.foldl (fun m x => insertDimension m x.1 (value x.2)) m) c = dimension m c := by
  induction xs generalizing m with
  | nil => exact .inr ⟨fun x hx => (by cases hx), rfl⟩
  | cons x xs ih =>
    rw [List.foldl_cons]
    rcases ih (insertDimension m x.1 (value x.2)) with ⟨y, hy, hyc, hlast⟩ | ⟨hnone, hkept⟩
    · exact .inl ⟨y, List.mem_cons_of_mem x hy, hyc, hlast⟩
    · rw [hkept, dimension_insertDimension]
      by_cases hxc : c = x.1
      · exact .inl ⟨x, List.mem_cons_self, hxc.symm, if_pos hxc⟩
      · refine .inr ⟨fun y hy => ?_, if_neg hxc⟩
        rcases List.mem_cons.mp hy with rfl | hy
        · exact fun h => hxc h.symm
        · exact hnone y hy

theorem not_mem_of_mem_splitOn {α : Type} [BEq α] [LawfulBEq α] {a : α} {xs part : List α}
    (h : part ∈ xs.splitOn a) :
    a ∉ part := by
  induction xs generalizing part with
  | nil =>
    rw [List.splitOn_nil, List.mem_singleton] at h
    simp [h]
  | cons x xs ih =>
    rw [List.splitOn_cons_eq_if_modifyHead] at h
    split_ifs at h with hx
    · rcases List.mem_cons.mp h with rfl | h
      · exact List.not_mem_nil
      · exact ih h
    · cases hrest : xs.splitOn a with
      | nil => exact absurd hrest (List.splitOn_ne_nil a xs)
      | cons first rest =>
        rw [hrest, List.modifyHead_cons] at h
        rcases List.mem_cons.mp h with rfl | h
        · have hfirst : a ∉ first := ih (hrest ▸ List.mem_cons_self)
          rw [List.mem_cons, not_or]
          exact ⟨fun h => hx (by simp [h]), hfirst⟩
        · exact ih (hrest ▸ List.mem_cons_of_mem first h)

/-- The parts of a joined label are the labels that were joined. -/
theorem splitChar_intercalate {texts : List String} (hne : texts ≠ []) (hbar : ∀ t ∈ texts, '|' ∉ t.toList) :
    Json.splitChar '|' ("|".intercalate texts) = texts := by
  have hparts : ∀ cs ∈ texts.map String.toList, '|' ∉ cs := by
    intro cs hcs
    obtain ⟨t, ht, rfl⟩ := List.mem_map.mp hcs
    exact hbar t ht
  rw [Json.splitChar, String.toList_intercalate]
  change (List.splitOn '|' (['|'].intercalate (texts.map String.toList))).map String.ofList = texts
  rw [List.splitOn_intercalate _ hparts (by simpa using hne), List.map_map]
  simp [Function.comp_def]

theorem bar_not_mem_part (label : String) (i : Nat) : '|' ∉ (((Json.splitChar '|' label)[i]?).getD "").toList := by
  cases h : (Json.splitChar '|' label)[i]? with
  | none => exact List.not_mem_nil
  | some part =>
    obtain ⟨cs, hcs, rfl⟩ := List.mem_map.mp (List.mem_of_getElem? h)
    rw [Option.getD_some, String.toList_ofList]
    exact not_mem_of_mem_splitOn hcs

/-- The labels of a row over several columns: a column takes a part of the label where it stands. -/
theorem dimension_several {v : ValidatedQuery} (hcols : 2 ≤ v.groupCols.length) (label c : String) :
    (∃ i : Nat, v.groupCols[i]? = some c ∧
        dimension (v.dimensionsOf (some label)) c = some (((Json.splitChar '|' label)[i]?).getD "")) ∨
      c ∉ v.groupCols ∧ dimension (v.dimensionsOf (some label)) c = none := by
  have hfold : v.dimensionsOf (some label) = v.groupCols.zipIdx.foldl
      (fun m x => insertDimension m x.1 (((Json.splitChar '|' label)[x.2]?).getD "")) [] := by
    unfold ValidatedQuery.dimensionsOf
    match hv : v.groupCols, hcols with
    | _ :: _ :: _, _ => rfl
  rw [hfold]
  rcases dimension_foldl (fun i : Nat => ((Json.splitChar '|' label)[i]?).getD "") c v.groupCols.zipIdx [] with
    ⟨x, hx, rfl, hlast⟩ | ⟨hnone, hkept⟩
  · exact .inl ⟨x.2, List.mem_zipIdx_iff_getElem?.mp hx, hlast⟩
  · refine .inr ⟨fun hc => ?_, hkept⟩
    obtain ⟨i, hi⟩ := List.mem_iff_getElem?.mp hc
    exact hnone (c, i) (List.mem_zipIdx_iff_getElem?.mpr hi) rfl

/-- The row of a group, as it is selected. -/
structure Engine.Represents (e : Engine) (v : ValidatedQuery) (rows : List Row) (raw : RawRow) : Prop where
  dim0 : raw.dim0 = rows.head?.bind (e.label v.groupCols)
  value : aggregate v.metric rows = .ok raw.value
  recordIds : (raw.recordIds.map some).Perm (rows.map fun r => e.shown (r v.metric.fact.recordIdColumn))

/-- The text of the query is answered with a row for each group, in any order, and 500 at most. -/
structure Engine.Answers (e : Engine) (v : ValidatedQuery) : Prop where
  rows : ∀ db raws, e.run db v.sql v.org = .ok raws →
    ∃ groups : List (List Row), groups.Perm (v.groups db) ∧ List.Forall₂ (e.Represents v) (groups.take 500) raws
  returns : ∀ db, (∀ rows ∈ v.groups db, Representable v.metric rows ∧
    ∀ r ∈ rows, r v.metric.fact.recordIdColumn ≠ .null) → ∃ raws, e.run db v.sql v.org = .ok raws

theorem forall₂_of_mapM {ε α β : Type} {f : α → Except ε β} {xs : List α} {ys : List β}
    (h : xs.mapM f = .ok ys) :
    List.Forall₂ (fun x y => f x = .ok y) xs ys := by
  induction xs generalizing ys with
  | nil =>
    cases h
    exact .nil
  | cons x xs ih =>
    simp only [List.mapM_cons, Finance.bind_ok] at h
    obtain ⟨y, hy, rest, hrest, h⟩ := h
    cases h
    exact .cons hy (ih hrest)

/-- Where each item has a result, a list of them has one. -/
theorem exists_mapM {m : Type → Type} [Monad m] [LawfulMonad m] {α β : Type} {f : α → m β} {xs : List α}
    (h : ∀ x ∈ xs, ∃ y, f x = pure y) : ∃ ys, xs.mapM f = pure ys := by
  induction xs with
  | nil => exact ⟨[], List.mapM_nil⟩
  | cons x xs ih =>
    obtain ⟨y, hy⟩ := h x List.mem_cons_self
    obtain ⟨ys, hys⟩ := ih fun a ha => h a (List.mem_cons_of_mem x ha)
    refine ⟨y :: ys, ?_⟩
    rw [List.mapM_cons, hy, hys, pure_bind, pure_bind]

theorem map_some_of_mapM {α β : Type} {f : α → Option β} {xs : List α} {ys : List β} (h : xs.mapM f = some ys) :
    ys.map some = xs.map f := by
  induction xs generalizing ys with
  | nil =>
    cases h
    rfl
  | cons x xs ih =>
    simp only [List.mapM_cons, Option.bind_eq_bind, Option.bind_eq_some_iff] at h
    obtain ⟨y, hy, rest, hrest, h⟩ := h
    cases h
    rw [List.map_cons, List.map_cons, hy, ih hrest]

theorem Engine.represents_rawRow {e : Engine} {v : ValidatedQuery} {rows : List Row} {raw : RawRow}
    (h : e.rawRow v rows = .ok raw) : e.Represents v rows raw := by
  unfold Engine.rawRow at h
  cases hvalue : aggregate v.metric rows with
  | error message =>
    rw [hvalue] at h
    cases h
  | ok value =>
    cases hids : rows.mapM fun r => e.shown (r v.metric.fact.recordIdColumn) with
    | none =>
      rw [hvalue, hids] at h
      cases h
    | some recordIds =>
      rw [hvalue, hids] at h
      cases h
      exact ⟨rfl, hvalue, .of_eq (map_some_of_mapM hids)⟩

/-- A database that runs the text by its meaning answers it. -/
theorem Engine.Evaluates.answers {e : Engine} {v : ValidatedQuery} (h : e.Evaluates v)
    (hcolumns : ∀ c ∈ v.groupCols, c ∈ v.metric.fact.columns) : e.Answers v := by
  constructor
  · intro db raws hrun
    rw [h hcolumns db, Engine.select] at hrun
    cases hrows : (groupRows v.groupCols (v.selected db)).mapM (e.rawRow v) with
    | error message =>
      rw [hrows] at hrun
      cases hrun
    | ok sorted =>
      rw [hrows] at hrun
      cases hrun
      have hrepresents : List.Forall₂ (e.Represents v) (v.groups db) sorted :=
        (forall₂_of_mapM hrows).imp fun rows raw hraw => Engine.represents_rawRow hraw
      have hsort := (List.mergeSort_perm sorted fun a b => decide (b.value ≤ a.value)).symm
      have hcomp : Relation.Comp (List.Forall₂ (e.Represents v)) List.Perm (v.groups db)
          (sorted.mergeSort fun a b => decide (b.value ≤ a.value)) := ⟨sorted, hrepresents, hsort⟩
      rw [List.forall₂_comp_perm_eq_perm_comp_forall₂] at hcomp
      obtain ⟨groups, hperm, hgroups⟩ := hcomp
      exact ⟨groups, hperm.symm, List.forall₂_take 500 hgroups⟩
  · intro db hgroups
    have hraws : ∀ rows ∈ groupRows v.groupCols (v.selected db), ∃ raw, e.rawRow v rows = .ok raw := by
      intro rows hrows
      obtain ⟨hvalue, hids⟩ := hgroups rows hrows
      have hshown : ∀ r ∈ rows, e.shown (r v.metric.fact.recordIdColumn) ≠ none := by
        intro r hr
        simp [Engine.shown, hids r hr]
      obtain ⟨recordIds, hrecordIds⟩ :
          ∃ ids, (rows.mapM fun r => e.shown (r v.metric.fact.recordIdColumn)) = some ids :=
        exists_mapM fun r hr => Option.ne_none_iff_exists'.mp (hshown r hr)
      refine ⟨⟨rows.head?.bind (e.label v.groupCols), measure v.metric rows, recordIds⟩, ?_⟩
      rw [Engine.rawRow, aggregate_eq_ok.mpr ⟨hvalue, rfl⟩, hrecordIds]
    obtain ⟨raws, hraws⟩ := exists_mapM hraws
    rw [h hcolumns db, Engine.select, hraws]
    exact ⟨_, rfl⟩

/-- No filter excludes a fact, the values of several columns join without loss, a total has a fact to be about, and the
measures are whole numbers of 64 bits. -/
structure Lossless (e : Engine) (v : ValidatedQuery) (meets : QueryFilter → Row → Bool) (db : Database) : Prop where
  filters : ∀ r ∈ v.selected db, ∀ f ∈ v.filters, meets f r = true
  labels : 2 ≤ v.groupCols.length → ∀ r ∈ v.selected db, ∀ c ∈ v.groupCols,
    ∃ text, e.shown (r c) = some text ∧ '|' ∉ text.toList
  facts : v.groupCols = [] → v.selected db ≠ []
  values : ∀ rows ∈ v.groups db, Representable v.metric rows

section
variable {e : Engine} {v : ValidatedQuery} {meets : QueryFilter → Row → Bool} {db : Database}

theorem executeQuery_permitted [TimeFormats] {principal : Option Principal}
    (hviewer : ∀ p ∈ principal, isAllowed p v.metric.requiredPermission = true) {raws : List RawRow}
    (hrun : e.run db v.sql v.org = .ok raws) :
    ∃ result, executeQuery e db v principal false = .ok result ∧ result.rows = raws.map v.queryRow := by
  have hany : (principal.any fun p => ¬isAllowed p v.metric.requiredPermission) = false := by
    cases principal with
    | none => rfl
    | some p => simp [hviewer p rfl]
  unfold executeQuery
  rw [if_neg Bool.false_ne_true, hany, if_neg Bool.false_ne_true, hrun]
  exact ⟨_, rfl, rfl⟩

theorem run_of_ok [TimeFormats] {principal : Option Principal}
    (hviewer : ∀ p ∈ principal, isAllowed p v.metric.requiredPermission = true) {result : QueryResult}
    (h : executeQuery e db v principal false = .ok result) :
    ∃ raws, e.run db v.sql v.org = .ok raws ∧ result.rows = raws.map v.queryRow := by
  cases hrun : e.run db v.sql v.org with
  | error message =>
    have hany : (principal.any fun p => ¬isAllowed p v.metric.requiredPermission) = false := by
      cases principal with
      | none => rfl
      | some p => simp [hviewer p rfl]
    unfold executeQuery at h
    rw [if_neg Bool.false_ne_true, hany, if_neg Bool.false_ne_true, hrun] at h
    cases h
  | ok raws =>
    obtain ⟨result', hresult', hrows⟩ := executeQuery_permitted hviewer hrun
    rw [h] at hresult'
    cases hresult'
    exact ⟨raws, rfl, hrows⟩

theorem shown_texts {r : Row} {cols : List String} (h : ∀ c ∈ cols, ∃ text, e.shown (r c) = some text ∧
    '|' ∉ text.toList) :
    (cols.filterMap fun c => e.shown (r c)) = cols.map fun c => (e.shown (r c)).getD "" := by
  rw [← List.filterMap_eq_map']
  refine List.filterMap_congr fun c hc => ?_
  obtain ⟨text, htext, -⟩ := h c hc
  rw [htext]
  rfl

theorem dimension_label {r : Row} (h : 2 ≤ v.groupCols.length → ∀ c ∈ v.groupCols,
      ∃ text, e.shown (r c) = some text ∧ '|' ∉ text.toList) (c : String) :
    dimension (v.dimensionsOf (e.label v.groupCols r)) c = if c ∈ v.groupCols then e.shown (r c) else none := by
  by_cases hcols : 2 ≤ v.groupCols.length
  · have hlabel : e.label v.groupCols r =
        some ("|".intercalate (v.groupCols.filterMap fun c => e.shown (r c))) := by
      unfold Engine.label
      match hv : v.groupCols, hcols with
      | _ :: _ :: _, _ => rfl
    have hshown := h hcols
    have hne : v.groupCols ≠ [] := fun hnil => by rw [hnil] at hcols; cases hcols
    have htexts : ∀ t ∈ v.groupCols.map fun c => (e.shown (r c)).getD "", '|' ∉ t.toList := by
      intro t ht
      obtain ⟨c, hc, rfl⟩ := List.mem_map.mp ht
      obtain ⟨text, htext, hbar⟩ := hshown c hc
      rwa [htext]
    have hparts := splitChar_intercalate (by simpa using hne) htexts
    rw [hlabel, shown_texts hshown]
    rcases dimension_several hcols ("|".intercalate (v.groupCols.map fun c => (e.shown (r c)).getD "")) c with
      ⟨i, hi, hdim⟩ | ⟨hc, hdim⟩
    · have hc : c ∈ v.groupCols := List.mem_of_getElem? hi
      obtain ⟨text, htext, -⟩ := hshown c hc
      rw [hdim, hparts, if_pos hc, List.getElem?_map, hi, htext]
      simp [htext]
    · rw [hdim, if_neg hc]
  · unfold ValidatedQuery.dimensionsOf Engine.label
    match hv : v.groupCols, hcols with
    | [], _ => rfl
    | [a], _ =>
      cases hshown : e.shown (r a) with
      | none =>
        by_cases hc : c = a
        · simp [dimension, hc, hshown]
        · simp [dimension, hc, hshown]
      | some text =>
        by_cases hc : c = a
        · simp [dimension, hc, hshown]
        · simp [dimension, hc, hshown, Ne.symm hc]
    | _ :: _ :: _, hshort => exact absurd (by simp) hshort

theorem label_congr {r r' : Row} (h : v.keyOf r = v.keyOf r') : e.label v.groupCols r = e.label v.groupCols r' := by
  have hcells : ∀ c ∈ v.groupCols, r c = r' c := List.map_inj_left.mp h
  unfold Engine.label
  match hv : v.groupCols with
  | [] => rfl
  | [a] =>
    dsimp only
    rw [hcells a (by simp [hv])]
  | a :: b :: cols =>
    rw [hv] at hcells
    have htexts : ((a :: b :: cols).filterMap fun c => e.shown (r c)) = (a :: b :: cols).filterMap fun c =>
        e.shown (r' c) :=
      List.filterMap_congr fun c hc => by rw [hcells c hc]
    rw [htexts]

theorem ReportsKey.of_represents {rows : List Row} (hlabels : 2 ≤ v.groupCols.length →
    ∀ r ∈ rows, ∀ c ∈ v.groupCols,
      ∃ text, e.shown (r c) = some text ∧ '|' ∉ text.toList) {key : List Cell} {raw : RawRow}
    (h : e.Represents v (groupOf v.keyOf rows key) raw) : ReportsKey e v rows key (v.queryRow raw) := by
  constructor
  · intro r hr hkey c
    cases hgroup : groupOf v.keyOf rows key with
    | nil =>
      have hmem : r ∈ groupOf v.keyOf rows key := mem_groupOf.mpr ⟨hr, hkey⟩
      rw [hgroup] at hmem
      cases hmem
    | cons first rest =>
      have hfirst : first ∈ groupOf v.keyOf rows key := hgroup ▸ List.mem_cons_self
      have hdim0 : raw.dim0 = e.label v.groupCols r := by
        rw [h.dim0, hgroup, ← label_congr ((mem_groupOf.mp hfirst).2.trans hkey.symm)]
        rfl
      change dimension (v.dimensionsOf raw.dim0) c = _
      rw [hdim0]
      exact dimension_label (fun hcols => hlabels hcols r hr) c
  · exact (aggregate_eq_ok.mp h.value).2
  · exact h.recordIds

/-- A row for each group, in the order of the answer. -/
theorem reports_of_lossless [TimeFormats] (hengine : e.Answers v) {principal : Option Principal}
    (hviewer : ∀ p ∈ principal, isAllowed p v.metric.requiredPermission = true)
    (hids : ∀ r ∈ v.selected db, r v.metric.fact.recordIdColumn ≠ .null)
    (hlimit : (keysOf v.keyOf (v.matching meets db)).length ≤ 500) (h : Lossless e v meets db) :
    Reports e v (v.matching meets db) (executeQuery e db v principal false) := by
  have hmatching : v.matching meets db = v.selected db :=
    List.filter_eq_self.mpr fun r hr => List.all_eq_true.mpr fun f hf => h.filters r hr f hf
  have hgroups := v.groups_eq h.facts
  obtain ⟨raws, hrun⟩ := hengine.returns db fun rows hrows => by
    refine ⟨h.values rows hrows, fun r hr => hids r ?_⟩
    rw [hgroups] at hrows
    obtain ⟨key, -, rfl⟩ := List.mem_map.mp hrows
    exact (mem_groupOf.mp hr).1
  obtain ⟨groups, hperm, hrows⟩ := hengine.rows db raws hrun
  rw [hgroups] at hperm
  obtain ⟨order, horder, rfl⟩ := exists_map_of_perm hperm
  obtain ⟨result, hresult, hresultRows⟩ := executeQuery_permitted hviewer hrun
  rw [hmatching] at hlimit ⊢
  refine ⟨result, order, hresult, horder, ?_⟩
  rw [List.take_of_length_le (by rw [List.length_map, horder.length_eq]; exact hlimit),
    List.forall₂_map_left_iff] at hrows
  rw [hresultRows, List.forall₂_map_right_iff]
  exact hrows.imp fun key raw hraw => ReportsKey.of_represents h.labels hraw

theorem length_matching {keys : List (List Cell)} {rows : List QueryRow}
    (hkeys : keys.Perm (keysOf v.keyOf (v.matching meets db)))
    (h : List.Forall₂ (ReportsKey e v (v.matching meets db)) keys rows) :
    (rows.map fun row => row.recordIds.length).sum = (v.matching meets db).length := by
  have hlengths : (keys.map fun k => (groupOf v.keyOf (v.matching meets db) k).length) =
      rows.map fun row => row.recordIds.length :=
    map_eq_of_forall₂ (fun key row hrow => by simpa using hrow.recordIds.length_eq.symm) h
  rw [← hlengths]
  refine sum_length_groupOf v.keyOf _ (hkeys.nodup_iff.mpr (nodup_eraseDups _)) fun r hr => ?_
  exact hkeys.mem_iff.mpr (mem_keysOf.mpr ⟨r, hr, rfl⟩)

theorem length_selected {groups : List (List Row)} {raws : List RawRow} (hgroups : groups.Perm (v.groups db))
    (h : List.Forall₂ (e.Represents v) groups raws) :
    (raws.map fun raw => raw.recordIds.length).sum = (v.selected db).length := by
  have hlengths : groups.map List.length = raws.map fun raw => raw.recordIds.length :=
    map_eq_of_forall₂ (fun rows raw hraw => by simpa using hraw.recordIds.length_eq.symm) h
  rw [← hlengths, (hgroups.map List.length).sum_eq]
  by_cases hfacts : v.groupCols = [] → v.selected db ≠ []
  · rw [v.groups_eq hfacts, List.map_map]
    exact sum_length_groupOf v.keyOf _ (nodup_eraseDups _) fun r hr => mem_keysOf.mpr ⟨r, hr, rfl⟩
  · obtain ⟨hcols, hnone⟩ := Classical.not_imp.mp hfacts
    simp [ValidatedQuery.groups, groupRows, hcols, not_not.mp hnone]

theorem Engine.Represents.joined (hcols : 2 ≤ v.groupCols.length) {rows : List Row} {raw : RawRow}
    (h : e.Represents v rows raw) (hrows : rows ∈ v.groups db) : ∃ label, raw.dim0 = some label := by
  have hne : v.groupCols ≠ [] := fun hnil => by rw [hnil] at hcols; cases hcols
  rw [v.groups_eq fun hnil => absurd hnil hne] at hrows
  obtain ⟨key, hkey, rfl⟩ := List.mem_map.mp hrows
  obtain ⟨r, hr, hrkey⟩ := mem_keysOf.mp hkey
  obtain ⟨first, rest, hgroup⟩ := List.exists_cons_of_ne_nil
    (List.ne_nil_of_mem (mem_groupOf.mpr ⟨hr, hrkey⟩ : r ∈ groupOf v.keyOf (v.selected db) key))
  have hjoined : ∃ label, e.label v.groupCols first = some label := by
    unfold Engine.label
    match hv : v.groupCols, hcols with
    | _ :: _ :: _, _ => exact ⟨_, rfl⟩
  rw [h.dim0, hgroup]
  exact hjoined

theorem lossless_of_reports [TimeFormats] (hengine : e.Answers v) {principal : Option Principal}
    (hviewer : ∀ p ∈ principal, isAllowed p v.metric.requiredPermission = true)
    (hlimit : (v.groups db).length ≤ 500)
    (h : Reports e v (v.matching meets db) (executeQuery e db v principal false)) : Lossless e v meets db := by
  obtain ⟨result, keys, hresult, hkeys, hreports⟩ := h
  obtain ⟨raws, hrun, hresultRows⟩ := run_of_ok hviewer hresult
  obtain ⟨groups, hgroups, hrepresents⟩ := hengine.rows db raws hrun
  rw [List.take_of_length_le (by rw [hgroups.length_eq]; exact hlimit)] at hrepresents
  rw [hresultRows] at hreports
  have hlength : (v.matching meets db).length = (v.selected db).length := by
    rw [← length_matching hkeys hreports, ← length_selected hgroups hrepresents, List.map_map]
    rfl
  have hall := List.length_filter_eq_length_iff.mp hlength
  have hmatching : v.matching meets db = v.selected db := List.filter_eq_self.mpr hall
  constructor
  · intro r hr f hf
    exact List.all_eq_true.mp (hall r hr) f hf
  · intro hcols r hr c hc
    rw [← hmatching] at hr
    obtain ⟨row, hrow, hkey⟩ := (exists_of_forall₂ hreports).1 _
      (hkeys.mem_iff.mpr (mem_keysOf.mpr ⟨r, hr, rfl⟩))
    obtain ⟨raw, hraw, rfl⟩ := List.mem_map.mp hrow
    obtain ⟨rows, hrows, hrepresented⟩ := (exists_of_forall₂ hrepresents).2 raw hraw
    obtain ⟨label, hlabel⟩ := hrepresented.joined hcols (hgroups.mem_iff.mp hrows)
    -- what stands at the column is a part of a text, and the fact's own value
    have hshown := hkey.labels r hr rfl c
    change dimension (v.dimensionsOf raw.dim0) c = _ at hshown
    rw [hlabel, if_pos hc] at hshown
    rcases dimension_several hcols label c with ⟨i, -, hdim⟩ | ⟨hnot, -⟩
    · exact ⟨_, hshown.symm.trans hdim, bar_not_mem_part label i⟩
    · exact absurd hc hnot
  · intro hcols hnone
    have hrows : raws.length = 1 := by
      rw [← hrepresents.length_eq, hgroups.length_eq, ValidatedQuery.groups, groupRows, if_pos hcols]
      rfl
    have hnoKeys : keys = [] := by
      rw [hmatching, hnone] at hkeys
      exact hkeys.eq_nil
    rw [hnoKeys] at hreports
    have hempty := hreports.length_eq
    rw [List.length_map, hrows] at hempty
    cases hempty
  · intro rows hrows
    obtain ⟨raw, -, hraw⟩ := (exists_of_forall₂ hrepresents).1 rows (hgroups.mem_iff.mpr hrows)
    exact (aggregate_eq_ok.mp hraw.value).1

/-- An accepted report over declared columns returns the aggregate it names exactly when nothing is lost on the way;
in the one direction whatever the query's limit, in the other where it does not cut. -/
theorem analytics_report_exact_iff [Formats] [TimeFormats] {definition : ReportDefinition} (e : Engine)
    (meets : QueryFilter → Row → Bool) (db : Database) (principal : Option Principal)
    (hv : validateQuery definition = .ok v) (hdeclared : ∀ c ∈ definition.groupBy, v.metric.Declares c)
    (hengine : (∀ c ∈ v.groupCols, c ∈ v.metric.fact.columns) → e.Answers v)
    (hviewer : ∀ p ∈ principal, isAllowed p v.metric.requiredPermission = true)
    (hids : ∀ r ∈ db v.metric.fact.postgresTable, r v.metric.fact.recordIdColumn ≠ .null)
    (hlimit : (keysOf v.keyOf (v.matching meets db)).length ≤ 500) :
    (Lossless e v meets db → Reports e v (v.matching meets db) (executeQuery e db v principal false)) ∧
      ((v.groups db).length ≤ 500 → Reports e v (v.matching meets db) (executeQuery e db v principal false) →
        Lossless e v meets db) := by
  obtain ⟨hmetric, _, hgroupBy, _⟩ := validateQuery_ok hv
  have hcolumns : ∀ c ∈ v.groupCols, c ∈ v.metric.fact.columns := fun c hc =>
    declared_columns hmetric (groupCols_declared hv (hgroupBy ▸ hdeclared) c hc)
  have hselected : ∀ r ∈ v.selected db, r v.metric.fact.recordIdColumn ≠ .null := fun r hr =>
    hids r (List.mem_of_mem_filter (List.mem_of_mem_filter hr))
  constructor
  · intro h
    exact reports_of_lossless (hengine hcolumns) hviewer hselected hlimit h
  · intro hgroups h
    exact lossless_of_reports (hengine hcolumns) hviewer hgroups h

end

/-- A filter that names a text keeps the facts with that text. -/
def textEquals (f : QueryFilter) (r : Row) : Bool :=
  match f.value with
  | .string s => r f.field = .text s
  | _ => false

def euros : List QueryFilter := [⟨"currency", "eq", .string "EUR"⟩]

def euroReport [Formats] : ReportDefinition := { pipelineBy ["currency"] with filters := euros }

def euroQuery : ValidatedQuery := { pipelineQuery ["currency"] with filters := euros }

/-- A deal in euros and one in dollars. -/
def twoDeals : Database
  | "analytics_fact_deal_stage_change" => ["EUR", "USD"].map fun currency => fun
    | "org_id" => .uuid 1
    | "deal_id" => .text currency
    | "amount_minor" => .int 10000
    | "currency" => .text currency
    | _ => .null
  | _ => []

/-- A report on the deals in euros has a row for the deal in dollars. -/
theorem filtered_report_has_dollars :
    letI := canonicalFormats
    letI := canonicalTimeFormats
    validateQuery euroReport = .ok euroQuery ∧ (∀ c ∈ euroReport.groupBy, euroQuery.metric.Declares c) ∧
      (plainEngine euroQuery).Answers euroQuery ∧
      (∀ r ∈ twoDeals euroQuery.metric.fact.postgresTable, r euroQuery.metric.fact.recordIdColumn ≠ .null) ∧
      (keysOf euroQuery.keyOf (euroQuery.matching textEquals twoDeals)).length ≤ 500 ∧
      ¬Reports (plainEngine euroQuery) euroQuery (euroQuery.matching textEquals twoDeals)
        (executeQuery (plainEngine euroQuery) twoDeals euroQuery none false) := by
  let := canonicalFormats
  let := canonicalTimeFormats
  have hanswers : (plainEngine euroQuery).Answers euroQuery := (evaluates_plainEngine euroQuery).answers (by decide)
  refine ⟨rfl, by decide, hanswers, by decide, by decide, fun h => ?_⟩
  have hlossless := lossless_of_reports hanswers (fun p hp => by cases hp) (by decide) h
  have hkept : ∀ r ∈ euroQuery.selected twoDeals, ∀ f ∈ euroQuery.filters, textEquals f r = true :=
    hlossless.filters
  exact absurd hkept (by decide)

/-- The pipeline by currency, without a filter, is the aggregate it names. -/
theorem pipeline_report_exact :
    letI := canonicalFormats
    letI := canonicalTimeFormats
    Reports (plainEngine (pipelineQuery ["currency"])) (pipelineQuery ["currency"])
      ((pipelineQuery ["currency"]).matching textEquals twoDeals)
      (executeQuery (plainEngine (pipelineQuery ["currency"])) twoDeals (pipelineQuery ["currency"]) none false) := by
  let := canonicalFormats
  let := canonicalTimeFormats
  refine (analytics_report_exact_iff _ textEquals twoDeals none (validateQuery_pipelineBy _) (by decide)
    (fun hcolumns => (evaluates_plainEngine _).answers hcolumns) (fun p hp => by cases hp) (by decide)
    (by decide)).1 ?_
  exact ⟨by decide, fun hcols => absurd hcols (by decide), fun hcols => absurd hcols (by decide),
    by decide⟩

end Noxara.Analytics
