import Noxara.AnalyticsGroups
import Noxara.AnalyticsIngest

/-! Deliveries of events side by side, and again. The raw log gains each event once, with its facts, so a report is
about the events and not about how they were delivered. -/
namespace Noxara.Analytics

open Transaction
open Finance (Uuid Timestamp AppError Formats canonicalFormats)
open Authz (TimeFormats canonicalTimeFormats Principal)

/-- Nobody else puts the event into the raw log while its lock is held. -/
def terms (id : Uuid) : Terms Db Lock where
  rely ls s t := .event id ∈ ls → t.eventsRaw.find? id = s.eventsRaw.find? id
  when _ _ _ := True
  refl _ _ _ := rfl
  trans h h' hk := (h' hk).trans (h hk)
  anti h hr hk := hr (h _ hk)

/-- A delivery finds the event there and leaves the store as it is, or ingests it. -/
inductive Promise (now : Timestamp) (envelope : EventEnvelope) (x : Trail Db Lock) (a : IngestResponse) (s : Db) : Prop
  | duplicate {raw : RawEvent} (found : s.eventsRaw.find? envelope.eventId = some raw) (pend : x.pend s = s)
      (answer : a = respond envelope true)
  | first (free : s.eventsRaw.find? envelope.eventId = none) (lock : .event envelope.eventId ∈ x.locks)
      (pend : x.pend s = s.ingested now envelope) (answer : a = respond envelope false)

theorem safe_ingest (now : Timestamp) (envelope : EventEnvelope) (s : Db) :
    (ingest now envelope).Safe (terms envelope.eventId) (Promise now envelope) .start s := by
  refine Prog.Safe.executeReturning_bind fun u a _ _ hcheck => ?_
  have ha : a = (u.eventsRaw.find? envelope.eventId).isNone := (Except.ok.inj hcheck).symm
  have hlock : Lock.event envelope.eventId ∈ [Lock.event envelope.eventId] ++ [] := List.mem_singleton_self _
  cases hfind : u.eventsRaw.find? envelope.eventId with
  | none =>
    rw [hfind] at ha
    subst ha
    refine Prog.Safe.of_blind blind_record fun y t hpend hlocks hrely => ?_
    refine .first ((hrely hlock).trans hfind) (hlocks _ hlock) ?_ rfl
    rw [hpend]
    rfl
  | some raw =>
    rw [hfind] at ha
    subst ha
    intro t ht
    have hfound : t.eventsRaw.find? envelope.eventId = some raw := (ht hlock).trans hfind
    refine .duplicate hfound ?_ rfl
    change { t with eventsRaw := t.eventsRaw.insert envelope.eventId (envelope.raw now) } = t
    rw [Table.insert_of_mem (Table.mem_keys_of_find? hfound)]

section
variable {ι : Type} {now : ι → Timestamp} {event : ι → EventEnvelope} {db s : Db}

/-- The deliveries that found their event new, in the order of their commits. -/
def firsts (log : List (ι × Except AppError IngestResponse)) : List ι :=
  log.filterMap fun r => match r.2 with
    | .ok a => if a.duplicate then none else some r.1
    | .error _ => none

/-- The raw log is what it was, and then each event that a delivery found new. -/
structure Ingested (now : ι → Timestamp) (event : ι → EventEnvelope) (db : Db)
    (log : List (ι × Except AppError IngestResponse)) (s : Db) : Prop where
  consistent : Consistent s
  rows : s.eventsRaw.rows = db.eventsRaw.rows ++ (firsts log).map fun i => ((event i).eventId, (event i).raw (now i))
  recorded : ∀ i ∈ firsts log, Recorded (now i) (event i) s
  answered : ∀ i a, (i, .ok a) ∈ log → a = respond (event i) a.duplicate ∧
    (event i).eventId ∈ s.eventsRaw.keys

variable {log : List (ι × Except AppError IngestResponse)}

theorem firsts_append (log log' : List (ι × Except AppError IngestResponse)) :
    firsts (log ++ log') = firsts log ++ firsts log' := List.filterMap_append

/-- A delivery that leaves the store as it is. -/
theorem Ingested.duplicate (h : Ingested now event db log s) {i : ι} {raw : RawEvent}
    (hfound : s.eventsRaw.find? (event i).eventId = some raw) :
    Ingested now event db (log ++ [(i, .ok (respond (event i) true))]) s := by
  have hfirsts : firsts (log ++ [(i, .ok (respond (event i) true))]) = firsts log := by
    rw [firsts_append]
    exact List.append_nil _
  refine ⟨h.consistent, by rw [hfirsts]; exact h.rows, by rw [hfirsts]; exact h.recorded, fun j a hj => ?_⟩
  rcases List.mem_append.mp hj with hj | hj
  · exact h.answered j a hj
  · cases List.mem_singleton.mp hj
    exact ⟨rfl, Table.mem_keys_of_find? hfound⟩

/-- A delivery that finds its event new. -/
theorem Ingested.first (h : Ingested now event db log s) {i : ι} (hfree : s.eventsRaw.find? (event i).eventId = none) :
    Ingested now event db (log ++ [(i, .ok (respond (event i) false))]) (s.ingested (now i) (event i)) := by
  have hfirsts : firsts (log ++ [(i, .ok (respond (event i) false))]) = firsts log ++ [i] := by
    rw [firsts_append]
    rfl
  have hraw : (s.ingested (now i) (event i)).eventsRaw = s.eventsRaw.insert (event i).eventId ((event i).raw (now i)) :=
    (withRecord_eq (now i) (event i) (s.withRaw (now i) (event i))).1
  have hrows := Table.rows_insert hfree ((event i).raw (now i))
  constructor
  · exact h.consistent.ingested hfree
  · rw [hraw, hrows, h.rows, hfirsts, List.map_append, List.append_assoc]
    rfl
  · intro j hj
    rw [hfirsts] at hj
    rcases List.mem_append.mp hj with hj | hj
    · have hold := h.recorded j hj
      have hne : (event j).eventId ≠ (event i).eventId := by
        intro he
        rw [← he, hold.raw] at hfree
        cases hfree
      obtain ⟨hraw, hfacts⟩ := ingested_ne hne (now i) s
      exact hold.congr hraw hfacts
    · cases List.mem_singleton.mp hj
      exact recorded_ingested (h.consistent.absent hfree)
  · intro j a hj
    have hkeys : (s.ingested (now i) (event i)).eventsRaw.keys = s.eventsRaw.keys ++ [(event i).eventId] := by
      rw [hraw, Table.keys, hrows, List.map_append]
      rfl
    rw [hkeys]
    rcases List.mem_append.mp hj with hj | hj
    · obtain ⟨hanswer, hmem⟩ := h.answered j a hj
      exact ⟨hanswer, List.mem_append_left _ hmem⟩
    · cases List.mem_singleton.mp hj
      exact ⟨rfl, List.mem_append_right _ (List.mem_singleton_self _)⟩

/-- What one delivery commits is within what the others rely on. -/
theorem Promise.rely {i j : ι} {x : Trail Db Lock} {a : IngestResponse} (h : Promise (now i) (event i) x a s)
    {ls : List Lock} (hlocks : ∀ k ∈ x.locks, k ∉ ls) : (terms (event j).eventId).rely ls s (x.pend s) := by
  intro hj
  cases h with
  | duplicate _ hpend _ => rw [hpend]
  | first _ hlock hpend _ =>
    rw [hpend]
    refine (ingested_ne (fun he => ?_) (now i) s).1
    rw [he] at hj
    exact hlocks _ hlock hj

variable [DecidableEq ι] {c : Config ι Db Lock AppError IngestResponse}

/-- In every interleaving of deliveries the raw log gains each event that was not there once, from the delivery that is
told so, with the facts of that delivery. -/
theorem ingested_of_reachable (h : Consistent db)
    (hc : Reachable (fun i => ingest (now i) (event i)) db c) : Ingested now event db c.log c.db := by
  have hsafe : ∀ c, ReachableWhere (fun _ _ => True) (fun i => ingest (now i) (event i)) db c →
      c.Safe (fun i => terms (event i).eventId) (fun i => Promise (now i) (event i)) fun i =>
          ingest (now i) (event i) :=
    fun c hc => hc.safe (fun i => safe_ingest (now i) (event i) db) (fun _ _ _ _ _ _ _ => trivial)
      fun i j x a ls s _ hQ hlocks => hQ.rely hlocks
  refine hc.unconditional.commits_invariant hsafe (P := fun _ _ _ _ => True) (fun _ _ _ _ _ _ _ => trivial)
    (I := Ingested now event db) ?_ ?_ ?_
  · exact ⟨h, by simp [firsts], nofun, nofun⟩
  · intro i x a log s hlog hQ _
    cases hQ with
    | duplicate hfound hpend hanswer =>
      rw [hpend, hanswer]
      exact hlog.duplicate hfound
    | first hfree _ hpend hanswer =>
      rw [hpend, hanswer]
      exact hlog.first hfree
  · intro i e log s hlog
    have hfirsts : firsts (log ++ [(i, .error e)]) = firsts log := by
      rw [firsts_append]
      exact List.append_nil _
    refine ⟨hlog.consistent, ?_, ?_, fun j a hj => ?_⟩
    · rw [hfirsts]
      exact hlog.rows
    · rw [hfirsts]
      exact hlog.recorded
    · rcases List.mem_append.mp hj with hj | hj
      · exact hlog.answered j a hj
      · cases List.mem_singleton.mp hj

end

namespace FactSource

def all : List FactSource := [dealStageChange, invoiceLifecycle, payment, expense, taskLifecycle, timeEntry, aiUsage,
  apiRequest, invoiceIssued]

def ofTable (table : String) : Option FactSource := all.find? fun f => f.postgresTable = table

theorem ofTable_postgresTable (f : FactSource) : ofTable f.postgresTable = some f := by cases f <;> decide

end FactSource

def Db.empty : Db := ⟨.empty, fun _ => .empty, .empty, .empty⟩

def Db.database (s : Db) : Database := fun table => (FactSource.ofTable table).elim [] fun f => (s.facts f).values

/-- The fact tables with each of these events in them, as if it had been ingested when it occurred. -/
def eventDatabase (events : List EventEnvelope) : Database := fun table =>
  (FactSource.ofTable table).elim [] fun f =>
    (events.filter fun e => f ∈ e.sources).map fun e => e.factRow e.occurredAt f

/-- A fact without the time of its ingest. -/
def Row.timeless (r : Row) : Row := fun c => if c = "ingested_at" then .null else r c

theorem timeless_apply {r : Row} {c : String} (h : c ≠ "ingested_at") : r.timeless c = r c := if_neg h

theorem timeless_factRow (envelope : EventEnvelope) (now now' : Timestamp) (f : FactSource) :
    (envelope.factRow now f).timeless = (envelope.factRow now' f).timeless := by
  funext c
  by_cases hc : c = "ingested_at"
  · simp [Row.timeless, hc]
  · have hne : (c == "ingested_at") = false := beq_eq_false_iff_ne.mpr hc
    simp [Row.timeless, hc, hne, EventEnvelope.factRow, Row.of, List.lookup_append, List.lookup_cons]

section
variable {v : ValidatedQuery} {rows rows' : List Row}

theorem keysOf_perm {α κ : Type} [BEq κ] [LawfulBEq κ] {key : α → κ} {xs ys : List α} (h : xs.Perm ys) :
    (keysOf key xs).Perm (keysOf key ys) := by
  refine (List.perm_ext_iff_of_nodup (nodup_eraseDups _) (nodup_eraseDups _)).mpr fun k => ?_
  change k ∈ keysOf key xs ↔ k ∈ keysOf key ys
  simp only [mem_keysOf, h.mem_iff]

theorem measure_perm (metric : MetricDefinition) (h : rows.Perm rows') :
    measure metric rows = measure metric rows' := by
  have hvalues := h.filterMap fun r => (r metric.measureField).asInt
  unfold measure
  cases metric.measure with
  | sum => exact hvalues.sum_eq
  | count => simp only [h.length_eq]
  | avg => simp only [hvalues.sum_eq, hvalues.length_eq]

theorem keyOf_timeless (hcols : "ingested_at" ∉ v.groupCols) (r : Row) : v.keyOf r.timeless = v.keyOf r :=
  List.map_congr_left fun _ hc => timeless_apply fun h => hcols (h ▸ hc)

theorem groupOf_timeless (hcols : "ingested_at" ∉ v.groupCols) (rows : List Row) (key : List Cell) :
    groupOf v.keyOf (rows.map Row.timeless) key = (groupOf v.keyOf rows key).map Row.timeless := by
  simp only [groupOf, List.filter_map, Function.comp_def, keyOf_timeless hcols]

theorem measure_timeless {metric : MetricDefinition} (h : metric.measureField ≠ "ingested_at") (rows : List Row) :
    measure metric (rows.map Row.timeless) = measure metric rows := by
  simp only [measure, List.filterMap_map, Function.comp_def, timeless_apply h, List.length_map]

theorem keysOf_timeless (hcols : "ingested_at" ∉ v.groupCols) (rows : List Row) :
    keysOf v.keyOf (rows.map Row.timeless) = keysOf v.keyOf rows := by
  simp only [keysOf, List.map_map, Function.comp_def, keyOf_timeless hcols]

theorem selected_timeless {db db' : Database}
    (h : ((db v.metric.fact.postgresTable).map Row.timeless).Perm
      ((db' v.metric.fact.postgresTable).map Row.timeless)) :
    ((v.selected db).map Row.timeless).Perm ((v.selected db').map Row.timeless) := by
  have hselected : ∀ db, (v.selected db).map Row.timeless =
      (((db v.metric.fact.postgresTable).map Row.timeless).filter fun r => r "org_id" = .uuid v.org).filter fun r =>
        (v.metric.name = "revenue_issued" → r "lifecycle_event" = .text "issued") ∧
          (v.metric.name = "task_completions" → r "lifecycle_event" = .text "completed") := by
    intro db
    simp only [ValidatedQuery.selected, ValidatedQuery.orgRows, List.filter_map, Function.comp_def,
      timeless_apply (c := "org_id") (by decide), timeless_apply (c := "lifecycle_event") (by decide)]
  rw [hselected, hselected]
  exact (h.filter _).filter _

end

/-- The same row with its records in any order; only the first twenty of them are linked. -/
structure QueryRow.Alike (row row' : QueryRow) : Prop where
  dimensions : row.dimensions = row'.dimensions
  value : row.value = row'.value
  recordIds : row.recordIds.Perm row'.recordIds
  drillLinks : row.recordIds.length ≤ 20 → row.drillLinks.Perm row'.drillLinks

/-- One answer with its rows in any order, whenever its facts came in; or two failures of the database. -/
inductive Alike : Except AppError QueryResult → Except AppError QueryResult → Prop
  | ok {result result' : QueryResult}
      (flags : { result with rows := [], freshnessAsOf := none } = { result' with rows := [], freshnessAsOf := none })
      (rows : Multiset.Rel QueryRow.Alike result.rows result'.rows) : Alike (.ok result) (.ok result')
  | error (message message' : String) : Alike (.error ⟨.internal, message⟩) (.error ⟨.internal, message'⟩)

/-- The facts of one key in two stores, which may differ in when they were ingested. -/
structure SameGroup (v : ValidatedQuery) (group group' : List Row) : Prop where
  facts : (group.map Row.timeless).Perm (group'.map Row.timeless)
  key : ∀ r ∈ group, ∀ r' ∈ group', v.keyOf r = v.keyOf r'

theorem rel_of_forall₂ {α β : Type} {R : α → β → Prop} {xs : List α} {ys : List β}
    (h : List.Forall₂ R xs ys) :
    Multiset.Rel R xs ys := by
  induction h with
  | nil => exact .zero
  | cons hxy _ ih => exact .cons hxy ih

theorem rel_comp {α β γ : Type} {R : α → β → Prop} {S : β → γ → Prop} {xs : Multiset α}
    {ys : Multiset β}
    {zs : Multiset γ} (h : Multiset.Rel R xs ys) (h' : Multiset.Rel S ys zs) :
    Multiset.Rel (Relation.Comp R S) xs zs := by
  induction h generalizing zs with
  | zero => rwa [Multiset.rel_zero_left] at h' ⊢
  | cons hxy _ ih =>
    obtain ⟨z, rest, hyz, hrest, rfl⟩ := Multiset.rel_cons_left.mp h'
    exact .cons ⟨_, hxy, hyz⟩ (ih hrest)

section
variable {e : Engine} {v : ValidatedQuery} {db db' : Database} {group group' : List Row}

theorem SameGroup.symm (h : SameGroup v group group') : SameGroup v group' group :=
  ⟨h.facts.symm, fun r hr r' hr' => (h.key r' hr' r hr).symm⟩

theorem SameGroup.measure_eq (h : SameGroup v group group') (hfield : v.metric.measureField ≠ "ingested_at") :
    measure v.metric group = measure v.metric group' := by
  rw [← measure_timeless hfield group, measure_perm v.metric h.facts, measure_timeless hfield]

theorem SameGroup.recordIds_perm (h : SameGroup v group group') (e : Engine) :
    (group.map fun r => e.shown (r v.metric.fact.recordIdColumn)).Perm
      (group'.map fun r => e.shown (r v.metric.fact.recordIdColumn)) := by
  have hid : v.metric.fact.recordIdColumn ≠ "ingested_at" := by cases v.metric.fact <;> decide
  have hids := h.facts.map fun r => e.shown (r v.metric.fact.recordIdColumn)
  simp only [List.map_map, Function.comp_def, timeless_apply hid] at hids
  exact hids

theorem SameGroup.label_eq (h : SameGroup v group group') (e : Engine) :
    group.head?.bind (e.label v.groupCols) = group'.head?.bind (e.label v.groupCols) := by
  have hlength := h.facts.length_eq
  match group, group' with
  | [], [] => rfl
  | r :: _, r' :: _ => exact label_congr (h.key r List.mem_cons_self r' List.mem_cons_self)

/-- The facts of the store fall into the groups of the events. -/
theorem groups_rel (hcols : "ingested_at" ∉ v.groupCols)
    (h : ((v.selected db).map Row.timeless).Perm ((v.selected db').map Row.timeless)) :
    Multiset.Rel (SameGroup v) (v.groups db) (v.groups db') := by
  unfold ValidatedQuery.groups groupRows
  split_ifs with hnone
  · exact rel_of_forall₂ (.cons ⟨h,
      fun r _ r' _ => by rw [ValidatedQuery.keyOf, ValidatedQuery.keyOf, hnone]; rfl⟩ .nil)
  · have hkeys : (keysOf v.keyOf ((v.selected db).map Row.timeless)).Perm
        (keysOf v.keyOf ((v.selected db').map Row.timeless)) := keysOf_perm h
    rw [keysOf_timeless hcols, keysOf_timeless hcols] at hkeys
    have hgroup : ∀ key, SameGroup v (groupOf v.keyOf (v.selected db) key)
        (groupOf v.keyOf (v.selected db') key) := by
      intro key
      constructor
      · rw [← groupOf_timeless hcols, ← groupOf_timeless hcols]
        exact h.filter _
      · intro r hr r' hr'
        exact (mem_groupOf.mp hr).2.trans (mem_groupOf.mp hr').2.symm
    have hrows : Multiset.Rel (SameGroup v) ((keysOf v.keyOf (v.selected db)).map (groupOf v.keyOf (v.selected db)))
        ((keysOf v.keyOf (v.selected db)).map (groupOf v.keyOf (v.selected db'))) := by
      refine rel_of_forall₂ ?_
      rw [List.forall₂_map_left_iff, List.forall₂_map_right_iff, List.forall₂_same]
      exact fun key _ => hgroup key
    rwa [Multiset.coe_eq_coe.mpr (hkeys.map (groupOf v.keyOf (v.selected db')))] at hrows

theorem queryRow_alike (hfield : v.metric.measureField ≠ "ingested_at") {raw raw' : RawRow}
    (h : e.Represents v group raw) (h' : e.Represents v group' raw') (hgroup : SameGroup v group group') :
    (v.queryRow raw).Alike (v.queryRow raw') := by
  have hids : raw.recordIds.Perm raw'.recordIds :=
    (List.map_perm_map_iff (Option.some_injective _)).mp
      (h.recordIds.trans ((hgroup.recordIds_perm e).trans h'.recordIds.symm))
  constructor
  · change v.dimensionsOf raw.dim0 = v.dimensionsOf raw'.dim0
    rw [h.dim0, h'.dim0, hgroup.label_eq e]
  · change raw.value = raw'.value
    rw [(aggregate_eq_ok.mp h.value).2, (aggregate_eq_ok.mp h'.value).2, hgroup.measure_eq hfield]
  · exact hids
  · intro hfew
    change raw.recordIds.length ≤ 20 at hfew
    change ((raw.recordIds.take 20).map _).Perm ((raw'.recordIds.take 20).map _)
    rw [List.take_of_length_le hfew, List.take_of_length_le (hids.length_eq ▸ hfew)]
    exact hids.map _

theorem run_alike (hengine : e.Answers v) (hfield : v.metric.measureField ≠ "ingested_at")
    (h : Multiset.Rel (SameGroup v) (v.groups db) (v.groups db')) (hlimit : (v.groups db').length ≤ 500)
    {raws : List RawRow} (hrun : e.run db v.sql v.org = .ok raws) :
    ∃ raws', e.run db' v.sql v.org = .ok raws' ∧
      Multiset.Rel QueryRow.Alike (raws.map v.queryRow) (raws'.map v.queryRow) := by
  have hrows : ∀ {db raws}, (v.groups db).length ≤ 500 → e.run db v.sql v.org = .ok raws →
      Multiset.Rel (e.Represents v) (v.groups db) raws := by
    intro db raws hlimit hrun
    obtain ⟨groups, hperm, hrows⟩ := hengine.rows db raws hrun
    rw [List.take_of_length_le (hperm.length_eq ▸ hlimit)] at hrows
    exact Multiset.coe_eq_coe.mpr hperm ▸ rel_of_forall₂ hrows
  have hlength : (v.groups db).length = (v.groups db').length := Multiset.card_eq_card_of_rel h
  have hfound := hrows (hlength ▸ hlimit) hrun
  obtain ⟨raws', hrun'⟩ := hengine.returns db' fun group' hmem' => by
    obtain ⟨group, hmem, hgroup⟩ := Multiset.exists_mem_of_rel_of_mem (Multiset.rel_flip.mpr h) hmem'
    obtain ⟨raw, _, hraw⟩ := Multiset.exists_mem_of_rel_of_mem hfound hmem
    constructor
    · have hvalue := (aggregate_eq_ok.mp hraw.value).1
      rwa [Representable, hgroup.measure_eq hfield] at hvalue
    · intro r hr hnull
      have hid : none ∈ raw.recordIds.map some := by
        rw [(hraw.recordIds.trans (hgroup.recordIds_perm e)).mem_iff]
        exact List.mem_map.mpr ⟨r, hr, if_pos hnull⟩
      obtain ⟨id, _, hid⟩ := List.mem_map.mp hid
      cases hid
  refine ⟨raws', hrun', ?_⟩
  have hfound' := hrows hlimit hrun'
  have hraws := rel_comp (Multiset.rel_flip.mpr hfound) (rel_comp h hfound')
  rw [← Multiset.map_coe, ← Multiset.map_coe, Multiset.rel_map]
  refine hraws.mono fun raw _ raw' _ hpair => ?_
  obtain ⟨group, hraw, group', hgroup, hraw'⟩ := hpair
  exact queryRow_alike hfield hraw hraw' hgroup

theorem executeQuery_alike [TimeFormats] (hengine : e.Answers v) (hfield : v.metric.measureField ≠ "ingested_at")
    (h : Multiset.Rel (SameGroup v) (v.groups db) (v.groups db')) (hlimit : (v.groups db').length ≤ 500)
    (principal : Option Principal) (dryRun : Bool) :
    Alike (executeQuery e db v principal dryRun) (executeQuery e db' v principal dryRun) := by
  have hback : Multiset.Rel (SameGroup v) (v.groups db') (v.groups db) :=
    (Multiset.rel_flip.mpr h).mono fun _ _ _ _ hgroup => hgroup.symm
  have hlength : (v.groups db).length = (v.groups db').length := Multiset.card_eq_card_of_rel h
  unfold executeQuery
  split_ifs
  · exact .ok rfl .zero
  · exact .ok rfl .zero
  · cases hrun : e.run db v.sql v.org with
    | ok raws =>
      obtain ⟨raws', hrun', hrows⟩ := run_alike hengine hfield h hlimit hrun
      rw [hrun']
      exact .ok rfl hrows
    | error message =>
      cases hrun' : e.run db' v.sql v.org with
      | error message' => exact .error message message'
      | ok raws' =>
        obtain ⟨raws, hraws, _⟩ := run_alike hengine hfield hback (hlength ▸ hlimit) hrun'
        rw [hraws] at hrun
        cases hrun

end

section
variable {ι : Type} {now : ι → Timestamp} {event : ι → EventEnvelope} {s : Db}
  {log : List (ι × Except AppError IngestResponse)}

/-- From the empty store, a fact table has the facts of the events that were found new. -/
theorem Ingested.facts_perm (h : Ingested now event .empty log s) (f : FactSource) :
    (s.facts f).rows.Perm (((firsts log).filter fun i => f ∈ (event i).sources).map fun i =>
      ((event i).eventId, (event i).factRow (now i) f)) := by
  have hkeys : s.eventsRaw.keys = (firsts log).map fun i => (event i).eventId := by
    rw [Table.keys, h.rows, List.map_append, List.map_map]
    rfl
  have hids : ((firsts log).map fun i => (event i).eventId).Nodup := hkeys ▸ s.eventsRaw.nodup
  have hnodup : (((firsts log).filter fun i => f ∈ (event i).sources).map fun i =>
      ((event i).eventId, (event i).factRow (now i) f)).Nodup := by
    refine List.Nodup.of_map Prod.fst ?_
    rw [List.map_map]
    exact (List.filter_sublist.map _).nodup hids
  refine (List.perm_ext_iff_of_nodup (.of_map _ (s.facts f).nodup) hnodup).mpr fun row => ?_
  obtain ⟨id, r⟩ := row
  rw [← Table.find?_eq_some, List.mem_map]
  constructor
  · intro hfind
    rcases h.consistent.events id with habsent | ⟨now', envelope, rfl, hrecorded⟩
    · rw [habsent.facts] at hfind
      cases hfind
    · have hmem : envelope.eventId ∈ s.eventsRaw.keys := Table.mem_keys_of_find? hrecorded.raw
      rw [hkeys] at hmem
      obtain ⟨i, hi, he⟩ := List.mem_map.mp hmem
      have hrow := (h.recorded i hi).facts f
      rw [he, hfind] at hrow
      split_ifs at hrow with hf
      refine ⟨i, List.mem_filter.mpr ⟨hi, decide_eq_true hf⟩, ?_⟩
      rw [he, Option.some.inj hrow]
  · rintro ⟨i, hi, he⟩
    obtain ⟨hi, hf⟩ := List.mem_filter.mp hi
    cases he
    rw [(h.recorded i hi).facts f, if_pos (of_decide_eq_true hf)]

/-- The events that were found new are those that were delivered, where a redelivery is of the same event. -/
theorem Ingested.events_perm (h : Ingested now event .empty log s)
    (hsame : ∀ i j, (event i).eventId = (event j).eventId → event i = event j) {events : List EventEnvelope}
    (hnodup : (events.map fun e => e.eventId).Nodup)
    (hevents : ∀ e, e ∈ events ↔ ∃ i a, (i, .ok a) ∈ log ∧ event i = e) :
      ((firsts log).map event).Perm events := by
  have hkeys : s.eventsRaw.keys = (firsts log).map fun i => (event i).eventId := by
    rw [Table.keys, h.rows, List.map_append, List.map_map]
    rfl
  have hids : (((firsts log).map event).map fun e => e.eventId).Nodup := by
    rw [List.map_map]
    exact hkeys ▸ s.eventsRaw.nodup
  refine (List.perm_ext_iff_of_nodup (.of_map _ hids) (.of_map _ hnodup)).mpr fun e => ?_
  rw [hevents, List.mem_map]
  constructor
  · rintro ⟨i, hi, rfl⟩
    obtain ⟨⟨j, r⟩, hr, hj⟩ := List.mem_filterMap.mp hi
    cases r with
    | error e => cases hj
    | ok a =>
      dsimp only at hj
      split_ifs at hj
      cases hj
      exact ⟨i, a, hr, rfl⟩
  · rintro ⟨i, a, hi, rfl⟩
    have hmem := (h.answered i a hi).2
    rw [hkeys] at hmem
    obtain ⟨j, hj, he⟩ := List.mem_map.mp hmem
    exact ⟨j, hj, hsame j i he⟩

theorem Ingested.table_perm (h : Ingested now event .empty log s)
    (hsame : ∀ i j, (event i).eventId = (event j).eventId → event i = event j) {events : List EventEnvelope}
    (hnodup : (events.map fun e => e.eventId).Nodup)
    (hevents : ∀ e, e ∈ events ↔ ∃ i a, (i, .ok a) ∈ log ∧ event i = e) (f : FactSource) :
    ((s.database f.postgresTable).map Row.timeless).Perm ((eventDatabase events f.postgresTable).map Row.timeless) := by
  simp only [Db.database, eventDatabase, FactSource.ofTable_postgresTable, Option.elim_some]
  have hfacts := ((h.facts_perm f).map Prod.snd).map Row.timeless
  have hnew := (((h.events_perm hsame hnodup hevents).filter fun e => f ∈ e.sources).map fun e =>
    e.factRow e.occurredAt f).map Row.timeless
  refine hfacts.trans (List.Perm.trans (.of_eq ?_) hnew)
  simp only [List.filter_map, List.map_map, Function.comp_def]
  exact List.map_congr_left fun i _ => timeless_factRow _ _ _ _

end

section
variable {ι : Type} {now : ι → Timestamp} {event : ι → EventEnvelope} {db : Db} [DecidableEq ι]
  {c : Config ι Db Lock AppError IngestResponse}

theorem ingest_exactly_once (h : Consistent db) (hc : Reachable (fun i => ingest (now i) (event i)) db c) :
    Ingested now event db c.log c.db := ingested_of_reachable h hc

theorem consistent_empty : Consistent .empty where
  events _ := .inl ⟨rfl, fun _ => rfl⟩
  unknown _ _ := by
    refine Set.eq_empty_of_forall_notMem fun t ht => ?_
    obtain ⟨id, raw, hfind, _⟩ := ht
    cases hfind
  freshness _ _ h := by cases h

/-- Whatever order the deliveries came in, however they overlapped and however often an event was delivered again, a
report over the store is answered as over the events, each taken once. -/
theorem report_of_delivered_events [Formats] [TimeFormats] {definition : ReportDefinition} {v : ValidatedQuery}
    (hv : validateQuery definition = .ok v) (hdeclared : ∀ c ∈ definition.groupBy, v.metric.Declares c)
    (hcols : "ingested_at" ∉ v.groupCols) (hsame : ∀ i j, (event i).eventId = (event j).eventId →
      event i = event j)
    (hc : Reachable (fun i => ingest (now i) (event i)) .empty c) {events : List EventEnvelope}
    (hnodup : (events.map fun e => e.eventId).Nodup)
    (hevents : ∀ e, e ∈ events ↔ ∃ i a, (i, .ok a) ∈ c.log ∧ event i = e) (e : Engine)
    (hengine : (∀ c ∈ v.groupCols, c ∈ v.metric.fact.columns) → e.Answers v)
    (hlimit : (v.groups (eventDatabase events)).length ≤ 500) (principal : Option Principal) (dryRun : Bool) :
    Alike (executeQuery e c.db.database v principal dryRun)
      (executeQuery e (eventDatabase events) v principal dryRun) := by
  obtain ⟨hmetric, _, hgroupBy, _⟩ := validateQuery_ok hv
  have hfield : v.metric.measureField ≠ "ingested_at" := by
    have hdefs : ∀ m ∈ defs, m.measureField ≠ "ingested_at" := by decide
    exact hdefs _ (List.mem_of_find?_eq_some hmetric)
  have hanswers := hengine fun c hc => declared_columns hmetric (groupCols_declared hv (hgroupBy ▸ hdeclared) c hc)
  have hingested := ingested_of_reachable consistent_empty hc
  have hselected := selected_timeless (hingested.table_perm hsame hnodup hevents v.metric.fact)
  exact executeQuery_alike hanswers hfield (groups_rel hcols hselected) hlimit principal dryRun

end

/-- Deal 7 of organisation 1 is won, for a hundred euros. -/
def dealWon : EventEnvelope where
  eventId := 70
  subject := "sales.deal.won.v1"
  orgId := 1
  context := .sales
  aggregate := "deal"
  eventType := "won"
  version := 1
  occurredAt := 1000
  actor := ⟨2, false⟩
  payload := .object [("deal_id", .string "dea_7"), ("amount_minor", .number (.posInt 10000)),
    ("currency", .string "EUR")]

def arrival (i : Fin 2) : Timestamp := 2000 + i.val

/-- The second delivery waits for the first, and is told that it is a duplicate. -/
theorem redelivered : ∃ c : Config (Fin 2) Db Lock AppError IngestResponse,
    Reachable (fun i => ingest (arrival i) dealWon) .empty c ∧ firsts c.log = [0] ∧
      ∃ a, ((1 : Fin 2), Except.ok a) ∈ c.log := by
  have hplay := Reachable.of_play (fun i => ingest (arrival i) dealWon) .empty
    (List.replicate 4 (.exec 0) ++ [.finish 0, .exec 1, .finish 1])
    (fun c => firsts c.log = [0] && c.log.any fun r => r.1 = 1 ∧ r.2.toOption.isSome) (by decide +kernel)
  obtain ⟨c, hc, hP⟩ := hplay
  simp only [Bool.and_eq_true, decide_eq_true_eq, List.any_eq_true] at hP
  obtain ⟨hfirsts, ⟨i, r⟩, hlog, rfl, hok⟩ := hP
  refine ⟨c, hc, hfirsts, ?_⟩
  cases r with
  | error e => cases hok
  | ok a => exact ⟨a, hlog⟩

theorem ingest_exactly_once_redelivered : ∃ c : Config (Fin 2) Db Lock AppError IngestResponse,
    Reachable (fun i => ingest (arrival i) dealWon) .empty c ∧ firsts c.log = [0] ∧
      Ingested arrival (fun _ => dealWon) .empty c.log c.db := by
  obtain ⟨c, hc, hfirsts, _⟩ := redelivered
  exact ⟨c, hc, hfirsts, ingest_exactly_once consistent_empty hc⟩

def pipelineAnswer [TimeFormats] (db : Database) : Except AppError QueryResult :=
  executeQuery (plainEngine (pipelineQuery ["currency"])) db (pipelineQuery ["currency"]) none false

/-- The deal is reported once, over the store as over the event. -/
theorem report_of_redelivered_deal :
    letI := canonicalTimeFormats
    (pipelineAnswer (eventDatabase [dealWon])).toOption.map (fun result => result.rows.map (·.value)) =
      some [10000] ∧
      ∃ c : Config (Fin 2) Db Lock AppError IngestResponse,
        Reachable (fun i => ingest (arrival i) dealWon) .empty c ∧
        Alike (pipelineAnswer c.db.database) (pipelineAnswer (eventDatabase [dealWon])) := by
  let := canonicalFormats
  let := canonicalTimeFormats
  obtain ⟨c, hc, _, a, hlog⟩ := redelivered
  have hevents : ∀ e, e ∈ [dealWon] ↔ ∃ i a, (i, Except.ok a) ∈ c.log ∧ dealWon = e := by
    intro e
    rw [List.mem_singleton]
    exact ⟨fun he => ⟨1, a, hlog, he.symm⟩, fun ⟨_, _, _, he⟩ => he.symm⟩
  have hdeclared : ∀ c ∈ (pipelineBy ["currency"]).groupBy, (pipelineQuery ["currency"]).metric.Declares c := by
    decide
  have hengine := evaluates_plainEngine (pipelineQuery ["currency"])
  refine ⟨by decide +kernel, c, hc, report_of_delivered_events (validateQuery_pipelineBy _) hdeclared (by decide)
    (fun _ _ _ => rfl) hc (by decide) hevents _ (fun hcolumns => hengine.answers hcolumns) (by decide) none false⟩

end Noxara.Analytics
