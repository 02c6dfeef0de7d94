import Noxara.WorkflowEngine

/-! What the step of an instance can write: nothing of the other instances, and of its own never the
version it is pinned to. -/
namespace Noxara.Workflows

open Transaction
open Finance (Uuid Formats)

def InstanceRow.pin (row : InstanceRow) : Uuid × Uuid × Int :=
  (row.definitionId, row.versionId, row.versionNumber)

/-- The write changes no instance but `id`, whose pin it keeps. -/
def Moves (id : Uuid) (f : Db → Db) : Prop :=
  ∀ db, (f db).orgBounds = db.orgBounds ∧ ∃ change : Uuid → InstanceRow → InstanceRow,
    (f db).instances = db.instances.mapRows change ∧ (∀ k r, k ≠ id → change k r = r) ∧
      ∀ r, (change id r).pin = r.pin

theorem Moves.of_keeps {id : Uuid} {f : Db → Db} (hb : ∀ db, (f db).orgBounds = db.orgBounds)
    (hi : ∀ db, (f db).instances = db.instances) : Moves id f :=
  fun db => ⟨hb db, fun _ r => r, by simpa using hi db, fun _ _ _ => rfl, fun _ => rfl⟩

theorem Moves.id (id : Uuid) : Moves id (fun db => db) := .of_keeps (fun _ => rfl) fun _ => rfl

theorem Moves.comp {id : Uuid} {f g : Db → Db} (hf : Moves id f) (hg : Moves id g) :
    Moves id (f ∘ g) := by
  intro db
  obtain ⟨hbg, cg, hig, hog, hpg⟩ := hg db
  obtain ⟨hbf, cf, hif, hof, hpf⟩ := hf (g db)
  refine ⟨hbf.trans hbg, fun k r => cf k (cg k r), ?_, ?_, ?_⟩
  · rw [Function.comp, hif, hig, Table.mapRows_mapRows]
  · intro k r hk
    simp only [hog k r hk, hof k r hk]
  · exact fun r => (hpf _).trans (hpg r)

theorem writes_recordStep (id : Uuid) (index : Int) (row : StepRow) :
    (recordStep id index row).Writes (Moves id) :=
  Prog.writes_execute (Moves.id id) fun _ _ => .of_keeps (fun _ => rfl) fun _ => rfl

theorem writes_emitInstanceEvent [Formats] (req : RunRequest) (eventType : String) (row : InstanceRow)
    (id : Uuid) : (emitInstanceEvent req eventType row).Writes (Moves id) :=
  Prog.writes_execute (Moves.id id) fun _ _ => .of_keeps (fun _ => rfl) fun _ => rfl

theorem writes_updateInstance {id : Uuid} {change : InstanceRow → InstanceRow}
    (h : ∀ r, (change r).pin = r.pin) : (updateInstance id change).Writes (Moves id) :=
  Prog.writes_execute (Moves.id id) fun _ _ db =>
    ⟨rfl, fun k r => if k = id then change r else r, rfl, fun k r hk => if_neg hk, fun r => by simp [h]⟩

theorem writes_committed {id : Uuid} (visit : Option Visit) {p : Tx Unit} (h : p.Writes (Moves id)) :
    (committed visit p).Writes (Moves id) := (h.mapError _).bind fun _ => trivial

theorem writes_dropped {id : Uuid} (visit : Option Visit) {p : Tx Unit} (h : p.Writes (Moves id)) :
    (dropped visit p).Writes (Moves id) := (h.mapError _).bind fun _ => trivial

theorem writes_failInstance [Formats] (req : RunRequest) (turn : Turn) (id : Uuid) (row : InstanceRow)
    (message : String) : (failInstance req turn id row message).Writes (Moves id) := by
  unfold failInstance
  exact .bind (writes_updateInstance fun _ => rfl) fun _ => writes_emitInstanceEvent _ _ _ _

theorem writes_completeInstance [Formats] (req : RunRequest) (turn : Turn) (id : Uuid) (row : InstanceRow) :
    (completeInstance req turn id row).Writes (Moves id) := by
  unfold completeInstance
  exact .bind (writes_updateInstance fun _ => rfl) fun _ => writes_emitInstanceEvent _ _ _ _

theorem writes_moveInstance (turn : Turn) (id : Uuid) (index : Int) (next : Option String) :
    (moveInstance turn id index next).Writes (Moves id) := by
  unfold moveInstance
  exact writes_updateInstance fun _ => rfl

/-- A step is recorded before anything else is written. -/
theorem writes_recorded {id : Uuid} (index : Int) (row : StepRow) {p : Tx Unit}
    (hp : p.Writes (Moves id)) : (recordStep id index row >>= fun _ => p).Writes (Moves id) :=
  (writes_recordStep id index row).bind fun _ => hp

section
variable [Formats] [JsonText] [Clock]

theorem writes_visitNode (req : RunRequest) (turn : Turn) (id : Uuid) (row : InstanceRow)
    (node : WorkflowNode) : (visitNode req turn id row node).Writes (Moves id) := by
  unfold visitNode
  cases node with
  | endNode nodeId => exact writes_committed _ (writes_recorded _ _ (writes_completeInstance _ _ _ _))
  | action nodeId action params next =>
    dsimp only
    split
    · exact writes_dropped _ (writes_recorded _ _ (writes_failInstance _ _ _ _ _))
    · split
      · exact writes_dropped _ (writes_recorded _ _ (writes_failInstance _ _ _ _ _))
      · exact writes_committed _ (writes_recorded _ _ (writes_moveInstance _ _ _ _))
  | condition | branch => exact writes_committed _ (writes_recorded _ _ (writes_moveInstance _ _ _ _))
  | timer nodeId durationSecs next =>
    dsimp only
    split
    · trivial
    · refine writes_committed _ (writes_recorded _ _ (.bind (writes_updateInstance ?_) fun _ => ?_))
      · exact fun _ => rfl
      · exact writes_emitInstanceEvent _ _ _ _
  | human nodeId kind params onApprove onReject =>
    have hwait : ∀ call srow next, (committed (some (Visit.mk (row.stepCount + 1) nodeId call)) do
        recordStep id (row.stepCount + 1) srow
        updateInstance id fun r =>
          { r with
            status := .waiting, currentNodeId := some next, stepCount := row.stepCount + 1
            updatedAt := turn.dbNow }
        emitInstanceEvent req "waiting" row).Writes (Moves id) := by
      intro call srow next
      refine writes_committed _ (writes_recorded _ _ (.bind (writes_updateInstance ?_) fun _ => ?_))
      · exact fun _ => rfl
      · exact writes_emitInstanceEvent _ _ _ _
    cases kind with
    | inbox => exact hwait _ _ _
    | approval =>
      dsimp only
      split
      · exact writes_dropped _ (writes_recorded _ _ (writes_failInstance _ _ _ _ _))
      · exact hwait _ _ _

theorem writes_advanceRunning (req : RunRequest) (turn : Turn) (id : Uuid) (bounds : OrgBounds)
    (row : InstanceRow) : (advanceRunning req turn id bounds row).Writes (Moves id) := by
  unfold advanceRunning
  split
  · exact writes_dropped _ (writes_failInstance _ _ _ _ _)
  · split_ifs
    · exact writes_dropped _ (writes_failInstance _ _ _ _ _)
    · split
      · exact writes_dropped _ (writes_failInstance _ _ _ _ _)
      · exact writes_visitNode req turn id row _

theorem writes_advanceInstance (req : RunRequest) (turn : Turn) (id : Uuid) :
    (advanceInstance req turn id).Writes (Moves id) := by
  refine .bind ((Prog.writes_query (.id id) _).mapError _) fun bounds =>
    .bind (Prog.writes_queryForUpdate (.id id) _ _) fun row => ?_
  cases row with
  | none => trivial
  | some row =>
    dsimp only
    split_ifs
    · exact writes_advanceRunning req turn id bounds row
    · trivial

end

end Noxara.Workflows
