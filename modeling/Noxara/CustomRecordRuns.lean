import Noxara.RecordFormulas
import Noxara.VersionedCells

/-! Requests for records of custom entities, side by side. The handlers read and write a record under its lock, so
those that commit make what they would make one after another, and every record is a cell under compare-and-swap. -/
namespace Noxara.Custom

open Transaction
open Finance (Uuid)
open Words (Build)

/-- Entities and scripts stay as they are, and a record changes under its lock. -/
def locking : Locking Db Lock (Table String EntityRow × Table (String × String) ScriptRow) fun _ =>
    Option RecordRow where
  fixed s := (s.entities, s.scripts)
  part | .record id, s => s.records.find? id

theorem agree_record {ks : List Lock} {v u : Db} {id : Uuid} (h : locking.Agree (.record id :: ks) v u) :
    u.records.find? id = v.records.find? id := h.2 _ List.mem_cons_self

theorem agree_fieldsOf {ks : List Lock} {v u : Db} (h : locking.Agree ks v u) (slug : String) :
    u.fieldsOf slug = v.fieldsOf slug := by
  have hfixed := (Prod.mk.inj h.1).1
  unfold Db.fieldsOf
  rw [hfixed]

theorem agree_scriptOf {ks : List Lock} {v u : Db} (h : locking.Agree ks v u) (slug hook : String) :
    u.scriptOf slug hook = v.scriptOf slug hook := by
  have hfixed := (Prod.mk.inj h.1).2
  unfold Db.scriptOf
  rw [hfixed]

theorem agree_liveRecord {ks : List Lock} {v u : Db} {id : Uuid} (h : locking.Agree (.record id :: ks) v u)
    (slug : String) : u.liveRecord slug id = v.liveRecord slug id := by
  unfold Db.liveRecord
  rw [agree_record h]

theorem obeys_withRecord (ks : List Lock) (id : Uuid) (f : RecordRow → RecordRow) :
    locking.Obeys (.record id :: ks) (·.withRecord id f) := by
  intro s
  refine ⟨rfl, fun k hk => ?_⟩
  obtain ⟨j⟩ := k
  refine s.records.find?_modify_ne f ?_
  rintro rfl
  exact hk List.mem_cons_self

theorem local_withRecord (ks : List Lock) (id : Uuid) (f : RecordRow → RecordRow) :
    locking.Local (.record id :: ks) (·.withRecord id f) := by
  intro s t h
  refine ⟨h.1, fun k hk => ?_⟩
  obtain ⟨j⟩ := k
  have hj : t.records.find? j = s.records.find? j := h.2 _ hk
  change (t.records.modify id f).find? j = (s.records.modify id f).find? j
  simp only [Table.modify, Table.find?_mapRows, hj]

theorem find?_insert_eq {t u : Table Uuid RecordRow} {j : Uuid} (h : u.find? j = t.find? j) (id : Uuid)
    (row : RecordRow) :
    (u.insert id row).find? j = (t.insert id row).find? j := by
  by_cases hj : j = id
  · subst hj
    cases hfind : t.find? j with
    | none => rw [Table.find?_insert_self (h.trans hfind), Table.find?_insert_self hfind]
    | some r => rw [Table.find?_insert_of_some (h.trans hfind), Table.find?_insert_of_some hfind]
  · rw [Table.find?_insert_ne _ _ hj, Table.find?_insert_ne _ _ hj, h]

theorem follows_loadPublishedEntity {ks : List Lock} (slug : String) :
    (loadPublishedEntity slug).Follows locking ks := by
  unfold loadPublishedEntity
  exact .query_bind (fun v u h => agree_fieldsOf h slug) fun row => .okOr

theorem follows_loadScript {ks : List Lock} (slug hook : String) : (loadScript slug hook).Follows locking ks :=
  .query fun _ _ h => agree_scriptOf h slug hook

theorem follows_update {ks : List Lock} (id : Uuid) (f : RecordRow → RecordRow) {β : Type} {q : Unit → Tx β}
    (hq : (q ()).Follows locking (.record id :: ks)) :
    (Prog.execute (fun _ => [.record id]) (fun _ => .ok ()) (fun _ s => s.withRecord id f) >>= q).Follows locking ks :=
  .execute_bind (fun _ _ _ => ⟨rfl, rfl⟩) (fun _ => obeys_withRecord ks id f) (fun _ => local_withRecord ks id f) hq

theorem follows_afterSave {ks : List Lock} (ctx : RecordCtx) (slug : String) (id : Uuid) (values : Values) :
    (afterSave ctx slug id values).Follows locking ks := by
  unfold afterSave
  refine .bind (follows_loadScript slug _) fun source => ?_
  cases source with
  | none => trivial
  | some source => exact .ofExcept_bind fun values _ => follows_update id _ trivial

theorem follows_insertRecord {ks : List Lock} (id : Uuid) (row : RecordRow) :
    (insertRecord id row).Follows locking ks := by
  unfold insertRecord
  refine .execute (fun v u h => ⟨by rw [agree_record h], rfl⟩) (fun v s => ⟨rfl, ?_⟩) fun v s t h =>
    ⟨h.1, ?_⟩
  · rintro ⟨j⟩ hk
    refine s.records.find?_insert_ne row ?_
    rintro rfl
    exact hk List.mem_cons_self
  · rintro ⟨j⟩ hk
    exact find?_insert_eq (h.2 _ hk) id row

theorem follows_fetchForUpdate {ks : List Lock} {β : Type} (slug : String) (id : Uuid) {q : RecordRow → Tx β}
    (hq : ∀ r, (q r).Follows locking (.record id :: ks)) : (fetchForUpdate slug id >>= q).Follows locking ks := by
  unfold fetchForUpdate
  rw [bind_assoc]
  exact .queryForUpdate_bind (fun v u h => agree_liveRecord h slug) fun _ => .okOr_bind fun r _ => hq r

theorem follows_saveVersion {ks : List Lock} (ctx : RecordCtx) (slug : String) (id : Uuid) (expected : Int)
    (values : Values) : (saveVersion ctx slug id expected values).Follows locking ks := by
  unfold saveVersion
  refine .executeReturning_bind (fun v u h => ?_) (fun v => ?_) (fun v => ?_) fun found => ?_
  · simp only [agree_liveRecord h slug, and_self]
  · split_ifs
    · exact obeys_withRecord ks id _
    · exact .id _
  · split_ifs
    · exact local_withRecord ks id _
    · exact .id _
  · exact .require

section
variable [CharTables]

/-- The handlers read and write a record under its lock. -/
theorem RecordOp.follows (op : RecordOp) : op.body.Follows locking [] := by
  cases op with
  | create ctx id slug body =>
    unfold RecordOp.body createRecord
    refine .ofExcept_bind fun _ _ => .bind (follows_loadPublishedEntity slug) fun fields => ?_
    refine .ofExcept_bind fun values _ => .bind (follows_loadScript slug _) fun source => ?_
    refine .ofExcept_bind fun values _ => .bind (follows_insertRecord id _) fun _ => ?_
    exact .bind (follows_afterSave ctx slug id values) fun _ => trivial
  | update ctx slug id ifMatch body =>
    unfold RecordOp.body updateRecord
    refine .ofExcept_bind fun _ _ => .okOr_bind fun expected _ => .bind (follows_loadPublishedEntity slug)
      fun fields => ?_
    refine follows_fetchForUpdate slug id fun existing => .require_bind fun _ => .ofExcept_bind fun values _ => ?_
    refine .bind (follows_loadScript slug _) fun source => .ofExcept_bind fun values _ => ?_
    refine .bind (follows_saveVersion ctx slug id expected values) fun _ => ?_
    refine .bind (follows_afterSave ctx slug id values) fun _ => ?_
    exact .query_bind (fun v u h => agree_record h) fun row => .okOr_bind fun _ _ => trivial
  | delete ctx slug id =>
    unfold RecordOp.body deleteRecord
    refine .ofExcept_bind fun _ _ => .bind (follows_loadPublishedEntity slug) fun _ => ?_
    exact follows_fetchForUpdate slug id fun row => follows_update id _ trivial

end

section
variable [CharTables] {ι : Type} [DecidableEq ι] {reqs : ι → RecordOp} {db : Db}
  {c : Config ι Db Lock Exit CustomRecordDto}

/-- Side by side, the requests that commit answer and make what they would one after another, in the order of their
commits. -/
theorem record_requests_serializable (h : Reachable (fun i => (reqs i).body) db c) :
    Serial (fun i => (reqs i).body) db (commits c.log) c.db := h.serial_of_locking fun i => (reqs i).follows

end

def afterScript (ctx : RecordCtx) (source : Option String) (values : Values) : Except Exit Values :=
  match source with
  | none => .ok values
  | some source => runScript ctx ctx.afterClock source values

/-- The script after the save changes the values of the record that was saved, and nothing else. -/
theorem run_afterSave {ctx : RecordCtx} {slug : String} {id : Uuid} {values after : Values} {s t : Db}
    (h : (afterSave ctx slug id values).run s = .ok (after, t)) :
    afterScript ctx (s.scriptOf slug "after_save") values = .ok after ∧
      ∃ f : RecordRow → RecordRow, (∀ r, r.values = values → f r = { r with values := after }) ∧
        t = s.withRecord id f := by
  unfold afterSave loadScript at h
  rw [Prog.run_query_bind] at h
  cases hsource : s.scriptOf slug "after_save" with
  | none =>
    rw [hsource] at h
    cases h
    refine ⟨rfl, fun r => r, ?_, ?_⟩
    · rintro r rfl
      rfl
    · simp [Db.withRecord, Table.modify]
  | some source =>
    rw [hsource] at h
    simp only [Prog.run_ofExcept_bind_ok, Prog.run_execute_bind_ok, true_and] at h
    obtain ⟨out, hrun, h⟩ := h
    cases h
    exact ⟨hrun, fun r => { r with values := after }, fun _ _ => rfl, rfl⟩

section
variable [CharTables]

/-- What is saved of the values of a request: they pass the checks, and formulas and scripts complete them. -/
def Db.saved (s : Db) (ctx : RecordCtx) (slug : String) (values : Values) : Option Values := do
  let fields ← s.fieldsOf slug
  let values ← (prepare ctx.build fields values).toOption
  let values ← (beforeSave ctx (s.scriptOf slug "before_save") values).toOption
  (afterScript ctx (s.scriptOf slug "after_save") values).toOption

/-- The record that the request is about. -/
def RecordOp.record : RecordOp → Uuid
  | create _ id _ _ => id
  | update _ _ id _ _ => id
  | delete _ _ id => id

/-- What the request is for its record. -/
def RecordOp.event (s : Db) : RecordOp → Versioned.Event Values
  | create ctx _ slug body => .put (s.saved ctx slug body)
  | update ctx slug _ ifMatch body => .swap ifMatch fun values => s.saved ctx slug (merge values body)
  | delete _ _ _ => .remove

end

def RecordRow.cell (r : RecordRow) : Versioned.Cell Values :=
  if r.deleted then .gone r.version r.values else .holds r.version r.values

def Db.cell (s : Db) (id : Uuid) : Versioned.Cell Values :=
  match s.records.find? id with
  | none => .free
  | some r => r.cell

/-- The second store is the first one with this row for the record. -/
structure Db.Wrote (s t : Db) (id : Uuid) (row : RecordRow) : Prop where
  entities : t.entities = s.entities
  scripts : t.scripts = s.scripts
  written : t.records.find? id = some row
  others : ∀ j, j ≠ id → t.records.find? j = s.records.find? j

theorem wrote_withRecord {s : Db} {id : Uuid} {r : RecordRow} (h : s.records.find? id = some r)
    (f : RecordRow → RecordRow) : s.Wrote (s.withRecord id f) id (f r) where
  entities := rfl
  scripts := rfl
  written := by
    change (s.records.modify id f).find? id = some (f r)
    rw [Table.find?_modify_self, h, Option.map_some]
  others _ hj := s.records.find?_modify_ne f hj

theorem wrote_insert {s : Db} {id : Uuid} (h : s.records.find? id = none) (row : RecordRow) :
    s.Wrote { s with records := s.records.insert id row } id row where
  entities := rfl
  scripts := rfl
  written := Table.find?_insert_self h row
  others _ hj := s.records.find?_insert_ne row hj

theorem Db.Wrote.trans {s t u : Db} {id : Uuid} {r row : RecordRow} (h : s.Wrote t id r) (h' : t.Wrote u id row) :
    s.Wrote u id row where
  entities := h'.entities.trans h.entities
  scripts := h'.scripts.trans h.scripts
  written := h'.written
  others j hj := (h'.others j hj).trans (h.others j hj)

theorem Db.Wrote.afterSave {s t u : Db} {ctx : RecordCtx} {slug : String} {id : Uuid} {values after : Values}
    {row : RecordRow} (h : s.Wrote t id row) (hrow : row.values = values)
    (hrun : (Custom.afterSave ctx slug id values).run t = .ok (after, u)) :
    afterScript ctx (s.scriptOf slug "after_save") values = .ok after ∧
      s.Wrote u id { row with values := after } := by
  obtain ⟨hscript, f, hf, rfl⟩ := run_afterSave hrun
  have hsource : t.scriptOf slug "after_save" = s.scriptOf slug "after_save" := by
    unfold Db.scriptOf
    rw [h.scripts]
  refine ⟨hsource ▸ hscript, h.trans ?_⟩
  rw [← hf row hrow]
  exact wrote_withRecord h.written f

theorem find?_of_liveRecord {s : Db} {slug : String} {id : Uuid} {r : RecordRow} (h : s.liveRecord slug id = some r) :
    s.records.find? id = some r ∧ r.entitySlug = slug ∧ r.deleted = false := by
  obtain ⟨hfind, hlive⟩ := Option.filter_eq_some_iff.mp h
  simpa [hfind] using hlive

theorem run_saveVersion {ctx : RecordCtx} {slug : String} {id : Uuid} {expected : Int} {values : Values} {s t : Db}
    {r : RecordRow} {u : Unit} (hr : s.liveRecord slug id = some r)
    (h : (saveVersion ctx slug id expected values).run s = .ok (u, t)) :
    s.Wrote t id { r with values := values, updatedBy := ctx.actor, version := r.version + 1 } := by
  unfold saveVersion at h
  obtain ⟨found, v, hwrite, hfound⟩ := Prog.run_bind_ok.mp h
  obtain ⟨hcheck, rfl⟩ := Prog.run_executeReturning_ok.mp hwrite
  obtain ⟨rfl, hu⟩ := Prog.run_require_ok.mp hfound
  obtain ⟨-, rfl⟩ := Prod.mk.inj hu
  rw [hr] at hcheck ⊢
  cases hversion : (some r).filter (·.version = expected) with
  | none =>
    rw [hversion] at hcheck
    cases hcheck
  | some r' =>
    rw [Option.isSome_some, if_pos rfl]
    exact wrote_withRecord (find?_of_liveRecord hr).1 fun r =>
      { r with values := values, updatedBy := ctx.actor, version := r.version + 1 }

section
variable {ctx : RecordCtx} {slug : String} {id : Uuid} {s t : Db} {a : CustomRecordDto}

theorem run_loadPublishedEntity_bind {β : Type} {q : List FieldDef → Tx β} {r : β × Db}
    (h : (loadPublishedEntity slug >>= q).run s = .ok r) :
    ∃ fields, s.fieldsOf slug = some fields ∧ (q fields).run s = .ok r := by
  unfold loadPublishedEntity at h
  simpa [bind_assoc] using h

theorem run_fetchForUpdate_bind {β : Type} {q : RecordRow → Tx β} {r : β × Db}
    (h : (fetchForUpdate slug id >>= q).run s = .ok r) :
    ∃ row, s.liveRecord slug id = some row ∧ (q row).run s = .ok r := by
  unfold fetchForUpdate at h
  simpa [bind_assoc] using h

theorem run_deleteRecord (h : (deleteRecord ctx slug id).run s = .ok (a, t)) :
    ∃ r, s.liveRecord slug id = some r ∧ a = r.dto id ∧
      s.Wrote t id { r with deleted := true, updatedBy := ctx.actor } := by
  unfold deleteRecord at h
  obtain ⟨_, -, h⟩ := Prog.run_ofExcept_bind_ok.mp h
  obtain ⟨_, -, h⟩ := run_loadPublishedEntity_bind h
  obtain ⟨r, hr, h⟩ := run_fetchForUpdate_bind h
  obtain ⟨-, h⟩ := Prog.run_execute_bind_ok.mp h
  cases h
  obtain ⟨hfind, hslug, hlive⟩ := find?_of_liveRecord hr
  refine ⟨r, hr, rfl, ?_⟩
  have hwrote := wrote_withRecord hfind fun r =>
    if r.entitySlug = slug ∧ ¬r.deleted then { r with deleted := true, updatedBy := ctx.actor } else r
  simpa only [hslug, hlive, Bool.false_eq_true, not_false_eq_true, and_self, if_true] using hwrote

variable [CharTables] {body : Values}

theorem saved_eq {fields : List FieldDef} {values prepared before after : Values}
    (hfields : s.fieldsOf slug = some fields)
    (hprepare : prepare ctx.build fields values = .ok prepared)
    (hbefore : beforeSave ctx (s.scriptOf slug "before_save") prepared = .ok before)
    (hafter : afterScript ctx (s.scriptOf slug "after_save") before = .ok after) :
    s.saved ctx slug values = some after := by
  simp [Db.saved, hfields, hprepare, hbefore, hafter, Except.toOption]

theorem run_createRecord (h : (createRecord ctx id slug body).run s = .ok (a, t)) :
    ∃ values, s.saved ctx slug body = some values ∧ s.records.find? id = none ∧ a = ⟨id, slug, values, 1⟩ ∧
      s.Wrote t id ⟨slug, values, ctx.actor, ctx.actor, 1, false⟩ := by
  unfold createRecord at h
  obtain ⟨_, -, h⟩ := Prog.run_ofExcept_bind_ok.mp h
  obtain ⟨fields, hfields, h⟩ := run_loadPublishedEntity_bind h
  obtain ⟨prepared, hprepare, h⟩ := Prog.run_ofExcept_bind_ok.mp h
  unfold loadScript at h
  rw [Prog.run_query_bind] at h
  obtain ⟨before, hbefore, h⟩ := Prog.run_ofExcept_bind_ok.mp h
  unfold insertRecord at h
  obtain ⟨hfree, h⟩ := Prog.run_execute_bind_ok.mp h
  obtain ⟨after, u, hsave, h⟩ := Prog.run_bind_ok.mp h
  cases h
  have hnone : s.records.find? id = none := by
    cases hfind : s.records.find? id with
    | none => rfl
    | some r => simp [hfind] at hfree
  obtain ⟨hafter, hwrote⟩ := (wrote_insert hnone _).afterSave rfl hsave
  exact ⟨after, saved_eq hfields hprepare hbefore hafter, hnone, rfl, hwrote⟩

theorem run_updateRecord {ifMatch : Option Int} (h : (updateRecord ctx slug id ifMatch body).run s = .ok (a, t)) :
    ∃ r values, s.liveRecord slug id = some r ∧ ifMatch = some r.version ∧
      s.saved ctx slug (merge r.values body) = some values ∧ a = ⟨id, slug, values, r.version + 1⟩ ∧
      s.Wrote t id { r with values := values, updatedBy := ctx.actor, version := r.version + 1 } := by
  unfold updateRecord at h
  obtain ⟨_, -, h⟩ := Prog.run_ofExcept_bind_ok.mp h
  obtain ⟨expected, rfl, h⟩ := Prog.run_okOr_bind_ok.mp h
  obtain ⟨fields, hfields, h⟩ := run_loadPublishedEntity_bind h
  obtain ⟨r, hr, h⟩ := run_fetchForUpdate_bind h
  obtain ⟨rfl, h⟩ := Prog.run_require_bind_ok.mp h
  obtain ⟨prepared, hprepare, h⟩ := Prog.run_ofExcept_bind_ok.mp h
  unfold loadScript at h
  rw [Prog.run_query_bind] at h
  obtain ⟨before, hbefore, h⟩ := Prog.run_ofExcept_bind_ok.mp h
  obtain ⟨_, u, hupdate, h⟩ := Prog.run_bind_ok.mp h
  obtain ⟨after, w, hsave, h⟩ := Prog.run_bind_ok.mp h
  obtain ⟨hafter, hwrote⟩ := (run_saveVersion hr hupdate).afterSave rfl hsave
  rw [Prog.run_query_bind] at h
  obtain ⟨row, hrow, h⟩ := Prog.run_okOr_bind_ok.mp h
  cases h
  obtain rfl := Option.some.inj (hwrote.written.symm.trans hrow)
  refine ⟨r, after, hr, rfl, saved_eq hfields hprepare hbefore hafter, ?_, hwrote⟩
  rw [← (find?_of_liveRecord hr).2.1]
  rfl

end

section
variable {op : RecordOp} {s t db : Db} {a : CustomRecordDto}

theorem cell_of_written {id : Uuid} {row : RecordRow} (h : t.records.find? id = some row) : t.cell id = row.cell := by
  unfold Db.cell
  rw [h]

theorem cell_of_live {slug : String} {id : Uuid} {r : RecordRow} (h : s.liveRecord slug id = some r) :
    s.cell id = .holds r.version r.values := by
  obtain ⟨hfind, -, hlive⟩ := find?_of_liveRecord h
  rw [cell_of_written hfind, RecordRow.cell, hlive]
  rfl

variable [CharTables]

theorem RecordOp.run_body (h : op.body.run s = .ok (a, t)) :
    (s.cell op.record).step (op.event s) = some ((a.version, a.values), t.cell op.record) ∧
      ∃ row, s.Wrote t op.record row := by
  cases op with
  | create ctx id slug body =>
    obtain ⟨values, hsaved, hnone, rfl, hwrote⟩ := run_createRecord h
    refine ⟨?_, _, hwrote⟩
    have hfree : s.cell id = .free := by
      unfold Db.cell
      rw [hnone]
    simp only [RecordOp.record, RecordOp.event]
    rw [hfree, hsaved, cell_of_written hwrote.written]
    rfl
  | update ctx slug id ifMatch body =>
    obtain ⟨r, values, hr, rfl, hsaved, rfl, hwrote⟩ := run_updateRecord h
    refine ⟨?_, _, hwrote⟩
    simp only [RecordOp.record, RecordOp.event]
    rw [cell_of_live hr, cell_of_written hwrote.written]
    simp only [Versioned.Cell.step, RecordRow.cell, (find?_of_liveRecord hr).2.2, hsaved, if_true, Bool.false_eq_true,
      if_false,
      Option.map_some]
  | delete ctx slug id =>
    obtain ⟨r, hr, rfl, hwrote⟩ := run_deleteRecord h
    refine ⟨?_, _, hwrote⟩
    simp only [RecordOp.record, RecordOp.event]
    rw [cell_of_live hr, cell_of_written hwrote.written]
    rfl

theorem event_eq (op : RecordOp) (hentities : t.entities = s.entities) (hscripts : t.scripts = s.scripts) :
    op.event t = op.event s := by
  have hsaved : t.saved = s.saved := by
    unfold Db.saved Db.fieldsOf Db.scriptOf
    rw [hentities, hscripts]
  cases op with
  | create | update =>
    simp only [RecordOp.event]
    rw [hsaved]
  | delete => rfl

variable {ι : Type} (reqs : ι → RecordOp)

/-- The committed requests for a record with their answers, in the order of their commits. -/
def history (id : Uuid) (log : List (ι × Except Exit CustomRecordDto)) : List (ι × CustomRecordDto) :=
  log.filterMap fun r =>
    match r.2 with
    | .ok a => if (reqs r.1).record = id then some (r.1, a) else none
    | .error _ => none

/-- The events of a cell that the committed requests are. -/
def events (db : Db) (id : Uuid) (log : List (ι × Except Exit CustomRecordDto)) : List (Versioned.Event Values) :=
  (history reqs id log).map fun r => (reqs r.1).event db

def answers (id : Uuid) (log : List (ι × Except Exit CustomRecordDto)) : List (Int × Values) :=
  (history reqs id log).map fun r => (r.2.version, r.2.values)

omit [CharTables] in
theorem history_commit (id : Uuid) (log : List (ι × Except Exit CustomRecordDto)) (i : ι) (a : CustomRecordDto) :
    history reqs id (log ++ [(i, .ok a)]) =
      history reqs id log ++ if (reqs i).record = id then [(i, a)] else [] := by
  unfold history
  rw [List.filterMap_append]
  congr 1
  simp only [List.filterMap_cons, List.filterMap_nil]
  split_ifs <;> rfl

omit [CharTables] in
theorem history_error (id : Uuid) (log : List (ι × Except Exit CustomRecordDto)) (i : ι) (e : Exit) :
    history reqs id (log ++ [(i, .error e)]) = history reqs id log := by
  unfold history
  rw [List.filterMap_append]
  exact List.append_nil _

variable {reqs} {log : List (ι × Except Exit CustomRecordDto)}

/-- One after another, the requests that commit are a run of the cell of every record. -/
theorem serial_cell (h : Serial (fun i => (reqs i).body) db log s) (id : Uuid) :
    (db.cell id).run (events reqs db id log) = some (answers reqs id log, s.cell id) ∧
      s.entities = db.entities ∧ s.scripts = db.scripts := by
  induction h with
  | nil => exact ⟨rfl, rfl, rfl⟩
  | @ok log s i a t _ _ hrun ih =>
    obtain ⟨hcell, hentities, hscripts⟩ := ih
    obtain ⟨hstep, row, hwrote⟩ := RecordOp.run_body hrun
    refine ⟨?_, hwrote.entities.trans hentities, hwrote.scripts.trans hscripts⟩
    unfold events answers
    rw [history_commit]
    split_ifs with hid
    · subst hid
      rw [event_eq (reqs i) hentities hscripts] at hstep
      rw [List.map_append, List.map_append]
      exact Versioned.Cell.run_snoc hcell hstep
    · have hsame : t.cell id = s.cell id := by
        unfold Db.cell
        rw [hwrote.others id (Ne.symm hid)]
      rw [List.append_nil, hsame]
      exact hcell
  | error _ _ _ ih =>
    unfold events answers
    rw [history_error]
    exact ih

omit [CharTables] in
theorem history_commits (id : Uuid) : history reqs id (commits log) = history reqs id log := by
  unfold history commits
  rw [List.filterMap_filter]
  congr 1
  funext r
  cases r.2 <;> rfl

/-- In every interleaving each record is a cell under compare-and-swap: the committed requests for it are accepted one
after another, an update makes what it saves of the values that its version named, and the versions that the updates
name follow one another. -/
theorem record_updates_compare_and_swap [DecidableEq ι] {c : Config ι Db Lock Exit CustomRecordDto}
    (h : Reachable (fun i => (reqs i).body) db c) (id : Uuid) :
    (db.cell id).run (events reqs db id c.log) = some (answers reqs id c.log, c.db.cell id) ∧
      ∃ n : Nat, (events reqs db id c.log).filterMap Versioned.Event.expected =
          (List.range n).map (fun k : Nat => (db.cell id).version + k) ∧
        (c.db.cell id).version = (db.cell id).version + n := by
  have hrun := (serial_cell (h.serial_of_locking fun i => (reqs i).follows) id).1
  unfold events answers at hrun
  rw [history_commits] at hrun
  exact ⟨hrun, _, Versioned.Cell.run_expected hrun⟩

end

/-! Two requests name the same version. The second waits for the record, and is refused. -/

def clerk : RecordCtx where
  build := .release
  actor := 7
  permitted := .ok ()
  parseProgram _ := .ok []
  beforeClock := ⟨id, monotone_id, 60⟩
  afterClock := ⟨id, monotone_id, 60⟩

def counted (n : Nat) : Values := SortedMap.empty.insert "count" (.number (.posInt n))

def stockroom : Db where
  entities := Table.empty.insert "stock" ⟨true, false, [⟨"count", .number, true, none, none⟩]⟩
  scripts := .empty
  records := Table.empty.insert 1 ⟨"stock", counted 5, 7, 7, 1, false⟩

def recounts : Fin 2 → RecordOp :=
  sideBySide (.update clerk "stock" 1 (some 1) (counted 4)) (.update clerk "stock" 1 (some 1) (counted 3))

theorem recounted : letI := asciiTables
    ∃ c : Config (Fin 2) Db Lock Exit CustomRecordDto, Reachable (fun i => (recounts i).body) stockroom c ∧
      c.log.map (fun r => (r.1, r.2.toBool)) = [(left, true), (right, false)] := by
  let := asciiTables
  obtain ⟨c, hc, hlog⟩ := Reachable.of_play (fun i => (recounts i).body) stockroom
    (.exec right :: Move.through left 6 ++ Move.through right 1)
    (fun c => c.log.map (fun r => (r.1, r.2.toBool)) = [(left, true), (right, false)]) (by decide +kernel)
  exact ⟨c, hc, of_decide_eq_true hlog⟩

theorem recounts_serializable : letI := asciiTables
    ∃ c : Config (Fin 2) Db Lock Exit CustomRecordDto, Reachable (fun i => (recounts i).body) stockroom c ∧
      c.log.map (fun r => (r.1, r.2.toBool)) = [(left, true), (right, false)] ∧
      Serial (fun i => (recounts i).body) stockroom (commits c.log) c.db := by
  let := asciiTables
  obtain ⟨c, hc, hlog⟩ := recounted
  exact ⟨c, hc, hlog, record_requests_serializable hc⟩

theorem recounts_compare_and_swap : letI := asciiTables
    ∃ c : Config (Fin 2) Db Lock Exit CustomRecordDto, Reachable (fun i => (recounts i).body) stockroom c ∧
      c.log.map (fun r => (r.1, r.2.toBool)) = [(left, true), (right, false)] ∧
      (stockroom.cell 1).run (events recounts stockroom 1 c.log) = some (answers recounts 1 c.log, c.db.cell 1) ∧
        ∃ n : Nat, (events recounts stockroom 1 c.log).filterMap Versioned.Event.expected =
            (List.range n).map (fun k : Nat => (stockroom.cell 1).version + k) ∧
          (c.db.cell 1).version = (stockroom.cell 1).version + n := by
  let := asciiTables
  obtain ⟨c, hc, hlog⟩ := recounted
  exact ⟨c, hc, hlog, record_updates_compare_and_swap hc 1⟩

/-- The build of the service that the request runs on. -/
def RecordOp.build : RecordOp → Build
  | create ctx _ _ _ => ctx.build
  | update ctx _ _ _ _ => ctx.build
  | delete ctx _ _ => ctx.build

section
variable [CharTables] {b : Build} {slug : String} {fields : List FieldDef} {s t db : Db}

/-- Every record of the entity, deleted or not, passes the checks and has the values of its formulas. -/
def AllComplete (b : Build) (slug : String) (fields : List FieldDef) (s : Db) : Prop :=
  ∀ id r, s.records.find? id = some r → r.entitySlug = slug → Complete b fields r.values

theorem complete_of_saved {ctx : RecordCtx} {values out : Values} (hfields : s.fieldsOf slug = some fields)
    (hscripts : ∀ hook, s.scriptOf slug hook = none) (ho : Ordered fields) (h : s.saved ctx slug values = some out) :
    Complete ctx.build fields out := by
  unfold Db.saved at h
  simp only [hfields, hscripts, beforeSave, afterScript, Except.toOption, Option.bind_eq_bind, Option.bind_some] at h
  cases hprepare : prepare ctx.build fields values with
  | error e =>
    rw [hprepare] at h
    cases h
  | ok prepared =>
    rw [hprepare] at h
    cases h
    exact complete_of_prepare ho hprepare

theorem AllComplete.wrote {id : Uuid} {row : RecordRow} (h : AllComplete b slug fields s) (hwrote : s.Wrote t id row)
    (hrow : row.entitySlug = slug → Complete b fields row.values) : AllComplete b slug fields t := by
  intro j r hr
  by_cases hj : j = id
  · subst hj
    obtain rfl := Option.some.inj (hwrote.written.symm.trans hr)
    exact hrow
  · rw [hwrote.others j hj] at hr
    exact h j r hr

theorem AllComplete.run_body {op : RecordOp} {a : CustomRecordDto} (h : AllComplete op.build slug fields s)
    (hfields : s.fieldsOf slug = some fields) (hscripts : ∀ hook, s.scriptOf slug hook = none) (ho : Ordered fields)
    (hrun : op.body.run s = .ok (a, t)) : AllComplete op.build slug fields t := by
  cases op with
  | create ctx id slug' body =>
    obtain ⟨values, hsaved, -, -, hwrote⟩ := run_createRecord hrun
    refine h.wrote hwrote ?_
    rintro rfl
    exact complete_of_saved hfields hscripts ho hsaved
  | update ctx slug' id ifMatch body =>
    obtain ⟨r, values, hr, -, hsaved, -, hwrote⟩ := run_updateRecord hrun
    refine h.wrote hwrote ?_
    rintro rfl
    obtain rfl : r.entitySlug = slug' := (find?_of_liveRecord hr).2.1
    exact complete_of_saved hfields hscripts ho hsaved
  | delete ctx slug' id =>
    obtain ⟨r, hr, -, hwrote⟩ := run_deleteRecord hrun
    exact h.wrote hwrote (h id r (find?_of_liveRecord hr).1)

/-- Of an entity without scripts whose formulas name no later one, every stored record passes the checks of its fields
and has the values of its formulas, in every interleaving of requests. -/
theorem stored_records_complete {ι : Type} [DecidableEq ι] {reqs : ι → RecordOp}
    {c : Config ι Db Lock Exit CustomRecordDto}
    (h : Reachable (fun i => (reqs i).body) db c) (hbuild : ∀ i, (reqs i).build = b)
    (hfields : db.fieldsOf slug = some fields) (hscripts : ∀ hook, db.scriptOf slug hook = none) (ho : Ordered fields)
    (h0 : AllComplete b slug fields db) : AllComplete b slug fields c.db := by
  have hserial := h.serial_of_locking fun i => (reqs i).follows
  refine (hserial.invariant (I := fun s => s.entities = db.entities ∧ s.scripts = db.scripts ∧
    AllComplete b slug fields s)
    ⟨rfl, rfl, h0⟩ ?_).2.2
  rintro i s a t ⟨hentities, hscripts', hcomplete⟩ hrun
  obtain ⟨-, row, hwrote⟩ := RecordOp.run_body hrun
  refine ⟨hwrote.entities.trans hentities, hwrote.scripts.trans hscripts', ?_⟩
  have hfieldsOf : s.fieldsOf slug = some fields := by
    unfold Db.fieldsOf at hfields ⊢
    rw [hentities, hfields]
  have hscriptOf : ∀ hook, s.scriptOf slug hook = none := by
    intro hook
    have hnone := hscripts hook
    unfold Db.scriptOf at hnone ⊢
    rw [hscripts', hnone]
  rw [← hbuild i] at hcomplete ⊢
  exact hcomplete.run_body hfieldsOf hscriptOf ho hrun

end

/-! A line of an order has a price, a quantity and their product. -/

def lineFields : List FieldDef :=
  [⟨"price", .number, true, none, none⟩, ⟨"qty", .number, true, none, none⟩,
    ⟨"total", .formula, false, none, some "price*qty"⟩]

theorem ordered_lineFields : letI := asciiTables
    Ordered lineFields := by
  let := asciiTables
  have hsentence : Sentence "price*qty" (.binary .mul (.operand (.field "price")) (.operand (.field "qty"))) := by
    have hexpr : "price*qty".toList = ['p', 'r', 'i', 'c', 'e', '*', 'q', 't', 'y'] := by decide +kernel
    refine sentence_iff.mpr ⟨[], ?_, rfl⟩
    rw [readExpr, hexpr]
    rfl
  have hnames : ∀ f ∈ lineFields, ∀ g ∈ lineFields, ¬f.Names g := by
    rintro f hf g hg ⟨hcomputed, expr, t, hexpr, ht, hread⟩
    simp only [lineFields, List.mem_cons, List.not_mem_nil, or_false] at hf hg
    rcases hf with rfl | rfl | rfl
    · cases hexpr
    · cases hexpr
    · obtain rfl := Option.some.inj hexpr
      obtain rfl := hsentence.unique ht
      rcases hg with rfl | rfl | rfl
      · cases hcomputed
      · cases hcomputed
      · revert hread
        decide
  exact ⟨by decide, fun f hf => hnames f hf f hf, List.pairwise_of_forall_mem_list fun f hf g hg =>
    hnames f hf g hg⟩

def pricedOrders : Db where
  entities := Table.empty.insert "line" ⟨true, false, lineFields⟩
  scripts := .empty
  records := .empty

def orderLines : Fin 2 → RecordOp :=
  sideBySide
    (.create clerk 1 "line" ((SortedMap.empty.insert "price" (.number (.posInt 3))).insert "qty" (.number (.posInt 4))))
    (.update clerk "line" 1 (some 1) (SortedMap.empty.insert "qty" (.number (.posInt 5))))

theorem order_lines_complete : letI := asciiTables
    ∃ c : Config (Fin 2) Db Lock Exit CustomRecordDto, Reachable (fun i => (orderLines i).body) pricedOrders c ∧
      c.log.map (fun r => (r.1, r.2.toBool)) = [(left, true), (right, true)] ∧
      AllComplete .release "line" lineFields c.db := by
  let := asciiTables
  obtain ⟨c, hc, hlog⟩ := Reachable.of_play (fun i => (orderLines i).body) pricedOrders
    (.exec right :: Move.through left 4 ++ Move.through right 5)
    (fun c => c.log.map (fun r => (r.1, r.2.toBool)) = [(left, true), (right, true)]) (by decide +kernel)
  refine ⟨c, hc, of_decide_eq_true hlog, stored_records_complete hc (fun i => ?_) rfl
    (fun _ => rfl) ordered_lineFields ?_⟩
  · fin_cases i <;> rfl
  · exact fun id r hr => (by cases hr)

end Noxara.Custom
