import Mathlib.Algebra.BigOperators.Group.List.Basic
import Mathlib.Algebra.Group.Int.Defs
import Mathlib.Data.List.Nodup
import Mathlib.Tactic.Abel

/-! Tables with a primary key: a list of rows, oldest first, whose keys are distinct. -/
namespace Noxara

structure Table (κ ρ : Type) where
  rows : List (κ × ρ)
  nodup : (rows.map Prod.fst).Nodup

namespace Table
variable {κ ρ : Type}

def empty : Table κ ρ := ⟨[], List.nodup_nil⟩

def keys (t : Table κ ρ) : List κ := t.rows.map Prod.fst

def values (t : Table κ ρ) : List ρ := t.rows.map Prod.snd

/-- The sum of a column over all rows. -/
def sumBy {M : Type} [AddCommGroup M] (t : Table κ ρ) (f : ρ → M) : M := (t.values.map f).sum

/-- Change every row, keeping its key. -/
def mapRows (t : Table κ ρ) (f : κ → ρ → ρ) : Table κ ρ :=
  ⟨t.rows.map fun r => (r.1, f r.1 r.2), by
    simpa [List.map_map, Function.comp_def] using t.nodup⟩

/-- `DELETE` of the rows that do not satisfy `p`. -/
def filter (t : Table κ ρ) (p : κ → ρ → Bool) : Table κ ρ :=
  ⟨t.rows.filter fun r => p r.1 r.2, (List.filter_sublist.map _).nodup t.nodup⟩

variable [DecidableEq κ]

def find? (t : Table κ ρ) (k : κ) : Option ρ := (t.rows.find? fun r => r.1 = k).map Prod.snd

/-- `UPDATE` of the row with key `k`; no effect when there is none. -/
def modify (t : Table κ ρ) (k : κ) (f : ρ → ρ) : Table κ ρ :=
  t.mapRows fun j r => if j = k then f r else r

/-- `INSERT`; no effect when the key is taken. -/
def insert (t : Table κ ρ) (k : κ) (r : ρ) : Table κ ρ :=
  if h : k ∈ t.keys then t else ⟨t.rows ++ [(k, r)], by
    simp only [List.map_append, List.nodup_append, t.nodup, List.map_cons, List.map_nil,
      List.nodup_cons, List.not_mem_nil, not_false_eq_true, List.nodup_nil, and_self, true_and,
      List.mem_singleton]
    rintro a ha b rfl rfl
    exact h ha⟩

/-- `INSERT .. ON CONFLICT DO UPDATE` of every column. -/
def upsert (t : Table κ ρ) (k : κ) (r : ρ) : Table κ ρ :=
  if k ∈ t.keys then t.modify k fun _ => r else t.insert k r

@[simp] theorem find?_empty (k : κ) : (empty : Table κ ρ).find? k = none := rfl

omit [DecidableEq κ] in
/-- Two rows with the same key are the same row. -/
theorem row_unique {t : Table κ ρ} {k : κ} {r r' : ρ} (h : (k, r) ∈ t.rows) (h' : (k, r') ∈ t.rows) :
    r = r' := by
  exact (Prod.mk.inj (List.inj_on_of_nodup_map t.nodup h h' rfl)).2

theorem find?_eq_some {t : Table κ ρ} {k : κ} {r : ρ} : t.find? k = some r ↔ (k, r) ∈ t.rows := by
  constructor
  · intro h
    obtain ⟨⟨j, r'⟩, hf, rfl⟩ := Option.map_eq_some_iff.mp h
    obtain rfl : j = k := by simpa using List.find?_some hf
    exact List.mem_of_find?_eq_some hf
  · intro h
    cases hf : t.rows.find? fun r => r.1 = k with
    | none => simpa using List.find?_eq_none.mp hf _ h
    | some x =>
      obtain ⟨j, r'⟩ := x
      obtain rfl : j = k := by simpa using List.find?_some hf
      simp [find?, hf, row_unique h (List.mem_of_find?_eq_some hf)]

/-- The keys of the rows that `p` selects. -/
theorem mem_map_fst_filter {t : Table κ ρ} {p : ρ → Bool} {k : κ} :
    k ∈ (t.rows.filter fun r => p r.2).map Prod.fst ↔ ∃ r, t.find? k = some r ∧ p r = true := by
  simp only [List.mem_map, List.mem_filter, Prod.exists, find?_eq_some]
  constructor
  · rintro ⟨k, r, hr, rfl⟩
    exact ⟨r, hr⟩
  · rintro ⟨r, hr⟩
    exact ⟨k, r, hr, rfl⟩

theorem find?_eq_none {t : Table κ ρ} {k : κ} : t.find? k = none ↔ k ∉ t.keys := by
  simp only [find?, Option.map_eq_none_iff, List.find?_eq_none, decide_eq_true_eq, keys,
    List.mem_map, not_exists, not_and]

theorem mem_keys_of_find? {t : Table κ ρ} {k : κ} {r : ρ} (h : t.find? k = some r) : k ∈ t.keys :=
  List.mem_map_of_mem (find?_eq_some.mp h)

omit [DecidableEq κ] in
theorem mem_mapRows {t : Table κ ρ} {f : κ → ρ → ρ} {k : κ} {r : ρ} :
    (k, r) ∈ (t.mapRows f).rows ↔ ∃ r', (k, r') ∈ t.rows ∧ f k r' = r := by
  simp only [mapRows, List.mem_map, Prod.mk.injEq, Prod.exists]
  exact ⟨fun ⟨j, r', h, hj, hr⟩ => by
    subst hj; exact ⟨r', h, hr⟩, fun ⟨r', h, hr⟩ => ⟨k, r', h, rfl, hr⟩⟩

theorem find?_mapRows (t : Table κ ρ) (f : κ → ρ → ρ) (k : κ) :
    (t.mapRows f).find? k = (t.find? k).map (f k) := by
  ext r
  simp only [find?_eq_some, mem_mapRows, Option.map_eq_some_iff]

omit [DecidableEq κ] in
@[simp] theorem mapRows_self (t : Table κ ρ) : t.mapRows (fun _ r => r) = t := by
  simp [mapRows]

omit [DecidableEq κ] in
theorem mapRows_mapRows (t : Table κ ρ) (f g : κ → ρ → ρ) :
    (t.mapRows g).mapRows f = t.mapRows fun k r => f k (g k r) := by
  simp [mapRows, Function.comp_def]

omit [DecidableEq κ] in
/-- A change that gives no row the property `p` makes no more rows of it. -/
theorem countP_mapRows_le {t : Table κ ρ} {f : κ → ρ → ρ} {p : ρ → Bool}
    (h : ∀ k r, (k, r) ∈ t.rows → p (f k r) = true → p r = true) :
    (t.mapRows f).values.countP p ≤ t.values.countP p := by
  simp only [values, mapRows, List.map_map, List.countP_map]
  exact List.countP_mono_left fun x hx => h x.1 x.2 hx

theorem find?_modify_self (t : Table κ ρ) (k : κ) (f : ρ → ρ) :
    (t.modify k f).find? k = (t.find? k).map f := by
  simp [modify, find?_mapRows]

theorem find?_modify_ne (t : Table κ ρ) {j k : κ} (f : ρ → ρ) (h : j ≠ k) :
    (t.modify k f).find? j = t.find? j := by
  simp [modify, find?_mapRows, h]

theorem isSome_find?_modify (t : Table κ ρ) (j k : κ) (f : ρ → ρ) :
    ((t.modify k f).find? j).isSome = (t.find? j).isSome := by
  simp [modify, find?_mapRows]

theorem insert_of_mem {t : Table κ ρ} {k : κ} (h : k ∈ t.keys) (r : ρ) : t.insert k r = t :=
  dif_pos h

theorem rows_insert {t : Table κ ρ} {k : κ} (h : t.find? k = none) (r : ρ) :
    (t.insert k r).rows = t.rows ++ [(k, r)] := by
  simp [insert, find?_eq_none.mp h]

theorem find?_insert_self {t : Table κ ρ} {k : κ} (h : t.find? k = none) (r : ρ) :
    (t.insert k r).find? k = some r := by
  simp [find?_eq_some, rows_insert h]

theorem find?_insert_ne (t : Table κ ρ) {j k : κ} (r : ρ) (h : j ≠ k) :
    (t.insert k r).find? j = t.find? j := by
  by_cases hk : k ∈ t.keys
  · rw [insert_of_mem hk]
  · ext x
    simp [find?_eq_some, rows_insert (find?_eq_none.mpr hk), h]

theorem find?_insert_of_some {t : Table κ ρ} {j k : κ} {x : ρ} (h : t.find? j = some x) (r : ρ) :
    (t.insert k r).find? j = some x := by
  by_cases hj : j = k
  · subst hj
    rwa [insert_of_mem (mem_keys_of_find? h)]
  · rwa [find?_insert_ne t r hj]

omit [DecidableEq κ] in
theorem ext_rows {t u : Table κ ρ} (h : t.rows = u.rows) : t = u := by
  cases t
  cases u
  cases h
  rfl

theorem modify_of_none {t : Table κ ρ} {k : κ} (h : t.find? k = none) (f : ρ → ρ) :
    t.modify k f = t := by
  refine ext_rows ((List.map_congr_left fun x hx => ?_).trans (List.map_id _))
  have hk : x.1 ≠ k := by
    rintro rfl
    exact find?_eq_none.mp h (List.mem_map_of_mem hx)
  simp [hk]

/-- Changing the row just inserted is inserting the changed row. -/
theorem modify_insert {t : Table κ ρ} {k : κ} (h : t.find? k = none) (r : ρ) (f : ρ → ρ) :
    (t.insert k r).modify k f = t.insert k (f r) := by
  have hold := congrArg rows (modify_of_none h f)
  simp only [modify, mapRows] at hold
  refine ext_rows ?_
  simp only [modify, mapRows, rows_insert h, List.map_append, hold, List.map_cons, List.map_nil, if_true]

/-- A row is found after an insert when it was there before, or is the new one. -/
theorem find?_insert_some {t : Table κ ρ} {j k : κ} {r x : ρ}
    (h : (t.insert k r).find? j = some x) : t.find? j = some x ∨ (j = k ∧ x = r) := by
  by_cases hk : k ∈ t.keys
  · rw [insert_of_mem hk] at h
    exact .inl h
  · have hn := find?_eq_none.mpr hk
    by_cases hj : j = k
    · subst hj
      rw [find?_insert_self hn] at h
      exact .inr ⟨rfl, (Option.some.inj h).symm⟩
    · exact .inl (by rwa [find?_insert_ne t r hj] at h)

/-- A row with a property is one of those before, or the one put in. -/
theorem exists_find?_insert {t : Table κ ρ} {j k : κ} {r : ρ} (h : t.find? k = none) {P : ρ → Prop} :
    (∃ x, (t.insert k r).find? j = some x ∧ P x) ↔ (∃ x, t.find? j = some x ∧ P x) ∨ (j = k ∧ P r) := by
  constructor
  · rintro ⟨x, hx, hP⟩
    rcases find?_insert_some hx with hold | ⟨rfl, rfl⟩
    · exact .inl ⟨x, hold, hP⟩
    · exact .inr ⟨rfl, hP⟩
  · rintro (⟨x, hx, hP⟩ | ⟨rfl, hP⟩)
    · exact ⟨x, find?_insert_of_some hx r, hP⟩
    · exact ⟨r, find?_insert_self h r, hP⟩

theorem find?_upsert_self (t : Table κ ρ) (k : κ) (r : ρ) : (t.upsert k r).find? k = some r := by
  unfold upsert
  split_ifs with h
  · rw [find?_modify_self]
    cases hk : t.find? k with
    | none => exact absurd h (find?_eq_none.mp hk)
    | some x => rfl
  · exact find?_insert_self (find?_eq_none.mpr h) r

theorem find?_upsert_ne (t : Table κ ρ) {j k : κ} (r : ρ) (h : j ≠ k) :
    (t.upsert k r).find? j = t.find? j := by
  unfold upsert
  split_ifs
  · exact find?_modify_ne t _ h
  · exact find?_insert_ne t r h

theorem mem_rows_of_insert {t : Table κ ρ} {k : κ} {r : ρ} {x : κ × ρ} (h : x ∈ (t.insert k r).rows) :
    x ∈ t.rows ∨ x = (k, r) := by
  by_cases hk : k ∈ t.keys
  · rw [insert_of_mem hk] at h
    exact .inl h
  · simpa [rows_insert (find?_eq_none.mpr hk)] using h

theorem mem_keys_of_insert {t : Table κ ρ} {j k : κ} {r : ρ} (h : j ∈ (t.insert k r).keys) :
    j ∈ t.keys ∨ j = k := by
  obtain ⟨x, hx, rfl⟩ := List.mem_map.mp h
  rcases mem_rows_of_insert hx with hx | rfl
  · exact .inl (List.mem_map_of_mem hx)
  · exact .inr rfl

theorem mem_values_insert {t : Table κ ρ} {k : κ} {r x : ρ} (h : x ∈ (t.insert k r).values) :
    x ∈ t.values ∨ x = r := by
  obtain ⟨y, hm, rfl⟩ := List.mem_map.mp h
  rcases mem_rows_of_insert hm with hy | rfl
  · exact .inl (List.mem_map_of_mem hy)
  · exact .inr rfl

/-- A new row counts at most once. -/
theorem countP_insert_le (t : Table κ ρ) (k : κ) (r : ρ) (p : ρ → Bool) :
    (t.insert k r).values.countP p ≤ t.values.countP p + 1 := by
  by_cases hk : k ∈ t.keys
  · rw [insert_of_mem hk]
    exact Nat.le_succ _
  · simp only [values, rows_insert (find?_eq_none.mpr hk), List.map_append, List.countP_append,
      List.map_cons, List.map_nil]
    have := List.countP_le_length (p := p) (l := [r])
    simpa using this

theorem find?_filter {t : Table κ ρ} {p : κ → ρ → Bool} {k : κ} {r : ρ} :
    (t.filter p).find? k = some r ↔ t.find? k = some r ∧ p k r = true := by
  simp [find?_eq_some, filter]

section Sums
variable {M : Type} [AddCommGroup M]

omit [DecidableEq κ] in
@[simp] theorem sumBy_empty (f : ρ → M) : (empty : Table κ ρ).sumBy f = 0 := rfl

theorem sumBy_insert {t : Table κ ρ} {k : κ} (h : t.find? k = none) (r : ρ) (f : ρ → M) :
    (t.insert k r).sumBy f = t.sumBy f + f r := by
  simp [sumBy, values, rows_insert h]

private theorem sum_map_ite_key (l : List (κ × ρ)) (hl : (l.map Prod.fst).Nodup) {k : κ} {r : ρ}
    (h : (k, r) ∈ l) (f : ρ → M) (g : ρ → ρ) :
    (l.map fun x => f (if x.1 = k then g x.2 else x.2)).sum =
      (l.map fun x => f x.2).sum + (f (g r) - f r) := by
  induction l with
  | nil => cases h
  | cons x xs ih =>
    obtain ⟨hx, hxs⟩ := List.nodup_cons.mp hl
    simp only [List.map_cons, List.sum_cons]
    rcases List.mem_cons.mp h with rfl | h
    · have hrest : xs.map (fun x => f (if x.1 = k then g x.2 else x.2)) = xs.map fun x => f x.2 := by
        refine List.map_congr_left fun y hy => ?_
        rw [if_neg]
        rintro rfl
        exact hx (List.mem_map.mpr ⟨y, hy, rfl⟩)
      simp only [hrest, if_true]
      abel
    · have hne : x.1 ≠ k := by
        rintro rfl
        exact hx (List.mem_map.mpr ⟨(x.1, r), h, rfl⟩)
      rw [if_neg hne, ih hxs h]
      abel

/-- An update moves a sum by what it changes in its one row. -/
theorem sumBy_modify {t : Table κ ρ} {k : κ} {r : ρ} (h : t.find? k = some r) (g : ρ → ρ)
    (f : ρ → M) : (t.modify k g).sumBy f = t.sumBy f + (f (g r) - f r) := by
  simpa [sumBy, values, modify, mapRows, List.map_map, Function.comp_def] using
    sum_map_ite_key t.rows t.nodup (find?_eq_some.mp h) f g

theorem sum_map_key (t : Table κ ρ) (k : κ) (f : ρ → M) :
    (t.rows.map fun r => if r.1 = k then f r.2 else 0).sum = (t.find? k).elim 0 f := by
  obtain ⟨rows, hnodup⟩ := t
  unfold find?
  induction rows with
  | nil => rfl
  | cons x xs ih =>
    obtain ⟨hx, hxs⟩ := List.nodup_cons.mp hnodup
    have ih := ih hxs
    simp only [List.map_cons, List.sum_cons, List.find?_cons]
    by_cases h : x.1 = k
    · subst h
      have hzero : xs.map (fun r => if r.1 = x.1 then f r.2 else 0) = xs.map fun _ => 0 := by
        refine List.map_congr_left fun y hy => if_neg ?_
        intro he
        exact hx (he ▸ List.mem_map_of_mem hy)
      simp [hzero]
    · simpa [h] using ih

end Sums

end Table

/-! Tables that only grow: rows are added at the end and none is deleted, and what becomes of a row keeps to a
relation. The first row that a lookup matches then stays the first. -/

namespace Table
variable {κ ρ : Type}

/-- `u` has the rows of `t`, each as `R` allows, and after them what was added. -/
def Extends (R : ρ → ρ → Prop) (t u : Table κ ρ) : Prop :=
  ∃ (f : κ → ρ → ρ) (more : List (κ × ρ)), u.rows = t.rows.map (fun r => (r.1, f r.1 r.2)) ++ more ∧
    ∀ k r, (k, r) ∈ t.rows → R r (f k r)

section
variable {R : ρ → ρ → Prop} {t u v : Table κ ρ}

theorem Extends.refl (hR : ∀ r, R r r) (t : Table κ ρ) : Extends R t t :=
  ⟨fun _ r => r, [], by simp, fun _ r _ => hR r⟩

theorem Extends.trans (hR : ∀ {a b c}, R a b → R b c → R a c) (h : Extends R t u) (h' : Extends R u v) :
    Extends R t v := by
  obtain ⟨f, more, hu, hf⟩ := h
  obtain ⟨g, more', hv, hg⟩ := h'
  refine ⟨fun k r => g k (f k r), more.map (fun r => (r.1, g r.1 r.2)) ++ more', ?_, fun k r hr => ?_⟩
  · rw [hv, hu, List.map_append, List.map_map, List.append_assoc]
    rfl
  · refine hR (hf k r hr) (hg k (f k r) ?_)
    rw [hu]
    exact List.mem_append_left _ (List.mem_map_of_mem (f := fun r => (r.1, f r.1 r.2)) hr)

variable [DecidableEq κ]

theorem Extends.insert (hR : ∀ r, R r r) (t : Table κ ρ) (k : κ) (r : ρ) : Extends R t (t.insert k r) := by
  by_cases hk : k ∈ t.keys
  · rw [insert_of_mem hk]
    exact .refl hR t
  · refine ⟨fun _ r => r, [(k, r)], ?_, fun _ r _ => hR r⟩
    rw [rows_insert (find?_eq_none.mpr hk)]
    simp

theorem Extends.modify (hR : ∀ r, R r r) (t : Table κ ρ) (k : κ) {f : ρ → ρ} (hf : ∀ r, R r (f r)) :
    Extends R t (t.modify k f) := by
  refine ⟨fun j r => if j = k then f r else r, [], by simp [Table.modify, mapRows], fun j r _ => ?_⟩
  change R r (if j = k then f r else r)
  split_ifs
  · exact hf r
  · exact hR r

theorem Extends.find? (h : Extends R t u) {k : κ} {r : ρ} (hr : t.find? k = some r) :
    ∃ r', u.find? k = some r' ∧ R r r' := by
  obtain ⟨f, more, hu, hf⟩ := h
  have hmem := find?_eq_some.mp hr
  refine ⟨f k r, find?_eq_some.mpr ?_, hf k r hmem⟩
  rw [hu]
  exact List.mem_append_left _ (List.mem_map_of_mem (f := fun r => (r.1, f r.1 r.2)) hmem)

omit [DecidableEq κ] in
private theorem find?_map_first {f : κ → ρ → ρ} {p : ρ → Bool} {rows : List (κ × ρ)}
    (hf : ∀ k r, (k, r) ∈ rows → p (f k r) = p r) {k : κ} {r : ρ}
    (hr : rows.find? (fun x => p x.2) = some (k, r)) :
    (rows.map fun x => (x.1, f x.1 x.2)).find? (fun x => p x.2) = some (k, f k r) := by
  induction rows with
  | nil => cases hr
  | cons x xs ih =>
    have hx := hf x.1 x.2 (List.mem_cons_self ..)
    simp only [List.find?_cons, List.map_cons, hx] at hr ⊢
    split at hr
    · cases hr
      rfl
    · exact ih (fun j r hj => hf j r (List.mem_cons_of_mem _ hj)) hr

omit [DecidableEq κ] in
/-- The first row with a property that `R` keeps stays the first. -/
theorem Extends.first (h : Extends R t u) (p : ρ → Bool) (hp : ∀ r r', R r r' → p r' = p r) {k : κ} {r : ρ}
    (hr : t.rows.find? (fun x => p x.2) = some (k, r)) :
    ∃ r', u.rows.find? (fun x => p x.2) = some (k, r') ∧ R r r' := by
  obtain ⟨f, more, hu, hf⟩ := h
  refine ⟨f k r, ?_, hf k r (List.mem_of_find?_eq_some hr)⟩
  rw [hu, List.find?_append, find?_map_first (fun j r hj => hp _ _ (hf j r hj)) hr]
  rfl

end

end Table

end Noxara
