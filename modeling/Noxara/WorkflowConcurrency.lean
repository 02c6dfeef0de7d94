import Mathlib.Data.Finset.Card
import Noxara.WorkflowInstances
import Noxara.WorkflowVisits

/-! The cap on concurrent instances. A transaction that counted fewer active instances than the cap
holds a place until it ends; the cap is kept as long as those who pass the count find a place free
of the instances committed and of the places held. -/
namespace Noxara.Workflows

open Transaction
open Finance (Uuid Formats PublicId canonicalFormats)

/-- The part of the store that the cap is about. -/
def capView (s : Store) : Option OrgBounds × Table Uuid InstanceRow := (s.orgBounds, s.instances)

/-- Others leave the bounds and the locked instances alone. -/
def capTerms : Terms Store StoreKey where
  rely ls s s' := s'.orgBounds = s.orgBounds ∧
    ∀ id, .runtime (.instance id) ∈ ls → s'.instances.find? id = s.instances.find? id
  when _ _ _ := True
  refl _ _ := ⟨rfl, fun _ _ => rfl⟩
  trans h h' := ⟨h'.1.trans h.1, fun id hid => (h'.2 id hid).trans (h.2 id hid)⟩
  anti hk h := ⟨h.1, fun id hid => h.2 id (hk _ hid)⟩

theorem keeps_put (scope key : String) (status : Int) (body : StoredBody) :
    (Idempotency.put scope key status body).Writes (Prog.Keeps capView) :=
  AnswerTable.writes_put (.id _) (fun _ _ _ _ => rfl) _ _ _

theorem keeps_insertVersion (id : Uuid) (row : VersionRow) :
    (insertVersion id row).Writes (Prog.Keeps capView) :=
  Prog.writes_execute (.id _) fun _ _ _ => rfl

theorem keeps_updateDefinitionRow (id : Uuid) (change : DefinitionRow → DefinitionRow) :
    (updateDefinitionRow id change).Writes (Prog.Keeps capView) :=
  Prog.writes_execute (.id _) fun _ _ _ => rfl

section
variable [Formats]

theorem keeps_createDefinition (ctx : RequestCtx) (body : CreateWorkflowDefinitionRequest) :
    (createDefinition ctx body).Writes (Prog.Keeps capView) := by
  refine writes_liftExcept_bind fun principal _ => writes_liftExcept_bind fun _ _ =>
    Prog.writes_require.bind fun _ => writes_liftExcept_bind fun _ _ =>
      writes_liftExcept_bind fun required _ => ?_
  refine .bind ?_ fun _ => .bind ?_ fun _ => ?_
  · exact Prog.writes_execute (.id _) fun _ _ _ => rfl
  · exact keeps_insertVersion _ _
  · trivial

theorem keeps_saveDraft (ctx : RequestCtx) (defUuid : Uuid) (graph : WorkflowGraph)
    (required : List String) : (saveDraft ctx defUuid graph required).Writes (Prog.Keeps capView) := by
  refine .bind (Prog.writes_query (.id _) _) fun draft => ?_
  cases draft with
  | none =>
    refine .bind (Prog.writes_execute (.id _) fun v _ s => ?_) fun _ => trivial
    dsimp only
    split <;> rfl
  | some v => exact .bind (Prog.writes_execute (.id _) fun _ _ _ => rfl) fun _ => trivial

theorem keeps_updateGraph (ctx : RequestCtx) (principal : Principal) (defUuid : Uuid)
    (graph : Option WorkflowGraph) :
    (updateGraph ctx principal defUuid graph).Writes (Prog.Keeps capView) := by
  cases graph with
  | none => trivial
  | some graph =>
    refine writes_liftExcept_bind fun _ _ => writes_liftExcept_bind fun required _ => ?_
    exact .bind (keeps_saveDraft ctx defUuid graph required) fun _ => trivial

theorem keeps_updateDefinition (ctx : RequestCtx) (id : String) (body : UpdateWorkflowDefinitionRequest) :
    (updateDefinition ctx id body).Writes (Prog.Keeps capView) := by
  refine writes_liftExcept_bind fun principal _ => writes_liftExcept_bind fun _ _ =>
    writes_liftExcept_bind fun defUuid _ => .bind (Prog.writes_queryForUpdate (.id _) _ _) fun found => ?_
  cases found with
  | none => trivial
  | some row =>
    refine Prog.writes_require.bind fun _ => .bind (keeps_updateGraph ctx principal defUuid _) fun _ => ?_
    exact .bind (keeps_updateDefinitionRow _ _) fun _ => trivial

theorem keeps_publishDraft (ctx : RequestCtx) (defUuid : Uuid) (defPublic : String)
    (graph : WorkflowGraph) (required : List String) :
    (publishDraft ctx defUuid defPublic graph required).Writes (Prog.Keeps capView) := by
  refine .bind (Prog.writes_query (.id _) _) fun maxVer => Prog.writes_require.bind fun _ =>
    .bind (keeps_insertVersion _ _) fun _ => .bind (keeps_updateDefinitionRow _ _) fun _ =>
      .bind ?_ fun _ => .bind ?_ fun _ => ?_
  · exact Prog.writes_execute (.id _) fun _ _ _ => rfl
  · exact Prog.writes_execute (.id _) fun _ _ _ => rfl
  · trivial

theorem keeps_publishDefinition (ctx : RequestCtx) (id : String) :
    (publishDefinition ctx id).Writes (Prog.Keeps capView) := by
  refine writes_liftExcept_bind fun idem _ => writes_liftExcept_bind fun principal _ =>
    writes_liftExcept_bind fun _ _ => Prog.writes_require.bind fun _ =>
      writes_liftExcept_bind fun defUuid _ => .bind (Prog.writes_query (.id _) _) fun stored => ?_
  cases stored with
  | some stored =>
    dsimp only [replayPublish]
    split_ifs
    · cases stored.2 <;> trivial
    · trivial
  | none =>
    refine .bind (Prog.writes_queryForUpdate (.id _) _ _) fun found => ?_
    cases found with
    | none => trivial
    | some row =>
      refine writes_liftExcept_bind fun creator _ =>
        .bind (Prog.writes_queryForUpdate (.id _) _ _) fun draft => ?_
      cases draft with
      | none => trivial
      | some draft =>
        refine writes_liftExcept_bind fun _ _ => writes_liftExcept_bind fun required _ => ?_
        refine .bind (keeps_publishDraft ctx defUuid _ _ required) fun dto => .bind ?_ fun _ => ?_
        · exact keeps_put _ _ _ _
        · trivial

end

/-- A commit that adds at most one active instance. -/
def AddsOne (x : Trail Store StoreKey) (_ : Answer) (s : Store) : Prop :=
  (x.pend s).orgBounds = s.orgBounds ∧ (x.pend s).activeInstances ≤ s.activeInstances + 1 ∧
    ∀ id, .runtime (.instance id) ∉ x.locks → (x.pend s).instances.find? id = s.instances.find? id

theorem safe_insertInstance {id : Uuid} {row : InstanceRow} {f : Unit → StoreTx Answer}
    {x : Trail Store StoreKey} (hx : Prog.Keeps capView x.pend)
    (hf : (f ()).Writes (Prog.Keeps capView)) (s : Store) :
    (insertInstance id row >>= f).Safe capTerms AddsOne x s := by
  refine Prog.Safe.execute_bind fun u _ _ _ => ?_
  refine Prog.Safe.of_writes (.id capView) (fun _ _ => .comp) hf fun y g a v hg hy hlocks _ => ?_
  have hview : capView (y.pend v) = (v.orgBounds, v.instances.insert id row) := by
    obtain ⟨hb, hi⟩ := Prod.mk.inj (hx v)
    rw [hy]
    refine (hg _).trans ?_
    simp only [Trail.push, Function.comp, capView, hb, hi]
  obtain ⟨hb, hi⟩ := Prod.mk.inj hview
  refine ⟨hb, ?_, fun j hj => ?_⟩
  · simpa only [Db.activeInstances, hi] using v.instances.countP_insert_le id row _
  · rw [hi]
    refine Table.find?_insert_ne _ _ ?_
    rintro rfl
    exact hj (hlocks _ (List.mem_append_left _ (List.mem_singleton_self _)))

section
variable [Formats]

theorem safe_startBelowCap [Clock] (ctx : RequestCtx) (defUuid : Uuid) (payload : Json) (scope idem : String)
    {x : Trail Store StoreKey} (hx : Prog.Keeps capView x.pend) (s : Store) :
    (startBelowCap ctx defUuid payload scope idem).Safe capTerms AddsOne x s := by
  refine Prog.Safe.query_bind fun u₁ _ _ => ?_
  split
  · trivial
  · next row pubVer _ =>
    refine Prog.Safe.query_bind fun u₂ _ _ => ?_
    split
    · trivial
    · next verUuid ver _ =>
      refine safe_liftExcept_bind fun creator _ => safe_liftExcept_bind fun _ _ => ?_
      have hrest : ∀ sla, ((do
          let dto := startedDto ctx row verUuid pubVer ver.graph sla
          insertInstance (ctx.fresh 0) (startedRow ctx defUuid verUuid pubVer ver.graph payload)
          insertEvent (startedEvent row dto)
          Idempotency.put scope idem 201 (.instance dto)
          return .instance dto) : StoreTx Answer).Safe capTerms AddsOne ((x.look u₁).look u₂) u₂ := by
        intro sla
        refine safe_insertInstance (x := (x.look u₁).look u₂) hx ?_ u₂
        refine Prog.Writes.bind ?_ fun _ => Prog.Writes.bind (keeps_put _ _ _ _) fun _ => ?_
        · exact Prog.writes_execute (.id _) fun _ _ _ => rfl
        · trivial
      unfold slaDeadline
      split
      · exact hrest none
      · exact Prog.Safe.okOr_bind fun sla _ => hrest sla

theorem safe_triggerBelowCap (ctx : RequestCtx) (t : Triggered) (payload : Json)
    {x : Trail Store StoreKey} (hx : Prog.Keeps capView x.pend) (s : Store) :
    (triggerBelowCap ctx t payload).Safe capTerms AddsOne x s := by
  refine safe_liftExcept_bind fun creator _ => ?_
  split
  · trivial
  · refine safe_insertInstance hx ?_ s
    refine Prog.Writes.bind ?_ fun _ => ?_
    · exact Prog.writes_execute (.id _) fun _ _ _ => rfl
    · trivial

end

theorem Moves.activeInstances_le {id : Uuid} {f : Db → Db} (hf : Moves id f) {db : Db} {row : InstanceRow}
    (hrow : db.instances.find? id = some row) (hactive : row.isActive = true) :
    (f db).activeInstances ≤ db.activeInstances := by
  obtain ⟨_, change, hi, hother, _⟩ := hf db
  rw [Db.activeInstances, hi]
  refine Table.countP_mapRows_le fun k r hr hp => ?_
  by_cases hk : k = id
  · subst hk
    rwa [Table.row_unique hr (Table.find?_eq_some.mp hrow)]
  · rwa [hother k r hk] at hp

theorem Moves.find?_of_ne {id j : Uuid} {f : Db → Db} (hf : Moves id f) (db : Db) (h : j ≠ id) :
    (f db).instances.find? j = db.instances.find? j := by
  obtain ⟨_, change, hi, hother, _⟩ := hf db
  rw [hi, Table.find?_mapRows]
  cases db.instances.find? j with
  | none => rfl
  | some r => exact congrArg some (hother j r h)

section
variable [Formats] [JsonText] [Clock]

/-- What a request does once the cap let it pass. -/
def Request.BelowCap : Request → StoreTx Answer → Prop
  | .start ctx _ body, p => ∃ defUuid scope idem, p = startBelowCap ctx defUuid body.payload scope idem
  | .ingest ctx body _, p => ∃ t, p = triggerBelowCap ctx t body.payload
  | _, _ => False

/-- This is left of the request's body, and the cap let it pass. -/
def Request.Passed (r : Request) (left : StoreTx Answer) : Prop :=
  ∃ p seen, r.BelowCap p ∧ left = p.afterAll seen

/-- A commit adds an active instance only where the cap let the request pass. -/
def CapPromise (r : Request) (x : Trail Store StoreKey) (_ : Answer) (s : Store) : Prop :=
  (x.pend s).orgBounds = s.orgBounds ∧
    ((x.pend s).activeInstances ≤ s.activeInstances ∨
      (r.Passed (r.body.afterAll x.seen) ∧ (x.pend s).activeInstances ≤ s.activeInstances + 1)) ∧
    ∀ id, .runtime (.instance id) ∉ x.locks → (x.pend s).instances.find? id = s.instances.find? id

theorem capPromise_of_keeps {r : Request} {x : Trail Store StoreKey} (h : Prog.Keeps capView x.pend)
    (a : Answer) (s : Store) : CapPromise r x a s := by
  obtain ⟨hb, hi⟩ := Prod.mk.inj (h s)
  refine ⟨hb, .inl ?_, fun id _ => ?_⟩
  · rw [Db.activeInstances, hi]
    rfl
  · rw [hi]

/-- Requests that touch neither bounds nor instances. -/
theorem safe_of_keeps {r : Request} (h : r.body.Writes (Prog.Keeps capView)) (s : Store) :
    r.body.Safe capTerms (CapPromise r) .start s := by
  refine Prog.Safe.of_writes (.id capView) (fun _ _ => .comp) h fun y f a u hf hy _ _ => ?_
  refine capPromise_of_keeps ?_ a u
  rw [hy]
  exact hf

/-- What the cap let pass keeps the promise, once it is known to be what is left of the body. -/
theorem safe_passed {r : Request} {p : StoreTx Answer} {x : Trail Store StoreKey} {s : Store}
    (hp : r.BelowCap p) (hleft : r.body.afterAll x.seen = p) (h : p.Safe capTerms AddsOne x s) :
    p.Safe capTerms (CapPromise r) x s := by
  refine Prog.Safe.extends (h.mono fun y a u hone hmore => ?_)
  obtain ⟨more, hmore⟩ := hmore
  refine ⟨hone.1, .inr ⟨⟨p, more, hp, ?_⟩, hone.2.1⟩, hone.2.2⟩
  rw [hmore, Prog.afterAll_append, hleft]

theorem safe_startOnce {ctx : RequestCtx} {id : String} {body : StartWorkflowRequest}
    {defUuid : Uuid} {scope idem : String} {x : Trail Store StoreKey}
    (hx : Prog.Keeps capView x.pend)
    (hleft : (Request.start ctx id body).body.afterAll x.seen =
      startOnce ctx defUuid body.payload scope idem) (s : Store) :
    (startOnce ctx defUuid body.payload scope idem).Safe capTerms
      (CapPromise (.start ctx id body)) x s := by
  refine Prog.Safe.query_bind fun u₁ _ _ => ?_
  have h₁ := Prog.afterAll_look hleft u₁
  cases hstored : (Idempotency.answers.rows (x.pend u₁)).find? (scope, idem) with
  | some stored =>
    refine Prog.Safe.of_writes (W := Prog.Keeps capView) (.id _) (fun _ _ => .comp) ?_
      fun y f a u hf hy _ _ => ?_
    · dsimp only [replayStart]
      split_ifs
      · cases stored.2 <;> trivial
      · trivial
    · refine capPromise_of_keeps ?_ a u
      rw [hy]
      exact hf.comp hx
  | none =>
    simp only [hstored, enforceConcurrencyCap, countActiveInstances, bind_assoc, pure_bind] at h₁ ⊢
    refine Prog.Safe.query_bind fun u₂ _ _ => Prog.Safe.query_bind fun u₃ _ _ =>
      Prog.Safe.require_bind fun hroom => ?_
    have h₃ := Prog.afterAll_look (Prog.afterAll_look h₁ u₂) u₃
    rw [Prog.require_bind_of hroom] at h₃
    refine safe_passed ⟨defUuid, scope, idem, rfl⟩ h₃ (safe_startBelowCap ctx defUuid _ _ _ ?_ u₃)
    exact hx

theorem safe_start (ctx : RequestCtx) (id : String) (body : StartWorkflowRequest) (s : Store) :
    (Request.start ctx id body).body.Safe capTerms (CapPromise (.start ctx id body)) .start s := by
  refine Prog.Safe.require_bind fun hdry => safe_liftExcept_bind fun idem hidem =>
    safe_liftExcept_bind fun principal hprincipal => safe_liftExcept_bind fun _ hrun =>
      safe_liftExcept_bind fun defUuid hdef => safe_startOnce (.id capView) ?_ s
  simp only [Request.body, startInstance, Prog.require_bind_of hdry, hidem, hprincipal, hrun, hdef,
    liftExcept_ok_bind]
  rfl

theorem safe_ingestRound {ctx : RequestCtx} {body : TriggerEventRequest} {k : Nat}
    {x : Trail Store StoreKey} (hx : Prog.Keeps capView x.pend)
    (hleft : (Request.ingest ctx body k).body.afterAll x.seen = ingestRound ctx body k) (s : Store) :
    (ingestRound ctx body k).Safe capTerms (CapPromise (.ingest ctx body k)) x s := by
  refine Prog.Safe.query_bind fun u₁ _ _ => ?_
  have h₁ := Prog.afterAll_look hleft u₁
  cases hfound : ((publishedDefinitions (x.pend u₁)).filter fun t => t.matches body.eventKey)[k]? with
  | none => trivial
  | some t =>
    simp only [hfound, enforceConcurrencyCap, countActiveInstances, Prog.mapError_bind,
      Prog.mapError_query, Prog.mapError_require, Prog.mapError_pure, bind_assoc, pure_bind] at h₁ ⊢
    refine Prog.Safe.query_bind fun u₂ _ _ => Prog.Safe.query_bind fun u₃ _ _ =>
      Prog.Safe.require_bind fun hroom => ?_
    have h₃ := Prog.afterAll_look (Prog.afterAll_look h₁ u₂) u₃
    rw [Prog.require_bind_of hroom] at h₃
    refine safe_passed ⟨t, rfl⟩ h₃ (safe_triggerBelowCap ctx t _ ?_ u₃)
    exact hx

theorem safe_ingest (ctx : RequestCtx) (body : TriggerEventRequest) (k : Nat) (s : Store) :
    (Request.ingest ctx body k).body.Safe capTerms (CapPromise (.ingest ctx body k)) .start s := by
  refine safe_liftExcept_bind fun principal hprincipal => safe_liftExcept_bind fun _ hrun =>
    Prog.Safe.require_bind fun hknown => safe_ingestRound (.id capView) ?_ s
  simp only [Request.body, ingestTriggerEvent, Prog.require_bind_of hknown, hprincipal, hrun,
    liftExcept_ok_bind]
  rfl

/-- A step of a running instance takes none of the places that are free. -/
theorem safe_step (req : RunRequest) (turn : Turn) (id : Uuid) (s : Store) :
    (Request.step req turn id).body.Safe capTerms (CapPromise (.step req turn id)) .start s := by
  intro u₁ _ _ u₂ _ _
  cases hrow : u₂.instances.find? id with
  | none =>
    simp only [Trail.push, Trail.start, onRuntime, Function.comp, id_eq, hrow]
    trivial
  | some row =>
    simp only [Trail.push, Trail.start, onRuntime, Function.comp, id_eq, hrow]
    change (onStore (if row.status = .running then advanceRunning req turn id u₁.boundsOrDefault row
      else _) >>= fun _ => Pure.pure Answer.stepped).Safe _ _ _ _
    split_ifs with hrunning
    · refine Prog.Safe.of_writes (W := StepsOnly id) (.id id) (fun _ _ => .comp)
        (Prog.Writes.bind (writes_onStore (writes_advanceRunning ..)) fun _ => trivial) fun y g a u hg hy hlocks hu =>
          ?_
      obtain ⟨f, hf, hgf⟩ := hg
      have hkey : StoreKey.runtime (.instance id) ∈ [StoreKey.runtime (.instance id)] := List.mem_cons_self
      have hnow : u.instances.find? id = some row := (hu.2 id hkey).trans hrow
      have hpend : (y.pend u).toDb = f u.toDb := by
        rw [hy]
        exact congrArg Store.toDb (hgf u)
      refine ⟨?_, .inl ?_, fun j hj => ?_⟩
      · rw [hpend]
        exact (hf u.toDb).1
      · rw [hpend]
        exact hf.activeInstances_le hnow (by simp [InstanceRow.isActive, hrunning])
      · rw [hpend]
        refine hf.find?_of_ne u.toDb ?_
        rintro rfl
        exact hj (hlocks _ hkey)
    · trivial

/-- What a commit promises is within what the others count on. -/
theorem capPromise_rely {r : Request} {x : Trail Store StoreKey} {a : Answer} {ls : List StoreKey}
    {s : Store} (h : CapPromise r x a s) (hdisjoint : ∀ k ∈ x.locks, k ∉ ls) :
    capTerms.rely ls s (x.pend s) :=
  ⟨h.1, fun id hid => h.2.2 id fun hx => hdisjoint _ hx hid⟩

theorem safe_request (r : Request) (s : Store) : r.body.Safe capTerms (CapPromise r) .start s := by
  cases r with
  | create ctx body => exact safe_of_keeps (r := .create ctx body) (keeps_createDefinition ctx body) s
  | update ctx id body => exact safe_of_keeps (r := .update ctx id body) (keeps_updateDefinition ctx id body) s
  | publish ctx id => exact safe_of_keeps (r := .publish ctx id) (keeps_publishDefinition ctx id) s
  | start ctx id body => exact safe_start ctx id body s
  | ingest ctx body k => exact safe_ingest ctx body k s
  | step req turn id => exact safe_step req turn id s

section Runs
variable {ι : Type} (request : ι → Request)

/-- The transaction is in flight and holds a place: the cap let it pass. -/
def HoldsPlace (c : Config ι Store StoreKey Exit Answer) (i : ι) : Prop :=
  ∃ t, c.threads i = .running t ∧ t.prog ≠ (request i).body ∧ (request i).Passed t.prog

/-- A transaction that the cap lets pass finds a place free of the instances committed and of the
places that others hold. -/
def FindsPlace (c d : Config ι Store StoreKey Exit Answer) : Prop :=
  ∀ i, HoldsPlace request d i → ¬HoldsPlace request c i →
    ∀ S : Finset ι, (∀ j ∈ S, HoldsPlace request c j) →
      (c.db.activeInstances + S.card : Int) < c.db.boundsOrDefault.maxConcurrent

def WithinCap (c : Config ι Store StoreKey Exit Answer) : Prop :=
  ∀ S : Finset ι, (∀ j ∈ S, HoldsPlace request c j) →
    (c.db.activeInstances + S.card : Int) ≤ c.db.boundsOrDefault.maxConcurrent

variable {request}

/-- A body that can pass the cap starts with a statement. -/
theorem Request.Passed.body_ne_pure {r : Request} {left : StoreTx Answer} (h : r.Passed left)
    (a : Answer) : r.body ≠ .pure a := by
  obtain ⟨p, _, hp, _⟩ := h
  cases r with
  | start ctx id body =>
    exact Prog.require_bind_ne_pure <| liftExcept_bind_ne_pure fun _ =>
      liftExcept_bind_ne_pure fun _ => liftExcept_bind_ne_pure fun _ =>
        liftExcept_bind_ne_pure fun _ => nofun
  | ingest ctx body k =>
    exact liftExcept_bind_ne_pure fun _ => liftExcept_bind_ne_pure fun _ =>
      Prog.require_bind_ne_pure nofun
  | create | update | publish | step => cases hp

variable {c d : Config ι Store StoreKey Exit Answer}

theorem withinCap_initial {db : Store} (h : (db.activeInstances : Int) ≤ db.boundsOrDefault.maxConcurrent) :
    WithinCap request (.initial (fun i => (request i).body) db) := by
  intro S hS
  obtain rfl : S = ∅ := by
    refine Finset.eq_empty_of_forall_notMem fun j hj => ?_
    obtain ⟨t, ht, hne, _⟩ := hS j hj
    cases ht
    exact hne rfl
  change (db.activeInstances + (∅ : Finset ι).card : Int) ≤ db.boundsOrDefault.maxConcurrent
  simpa using h

variable [DecidableEq ι]

theorem HoldsPlace.of_setThread {i j : ι} {s : Status Store StoreKey Exit Answer} (hj : j ≠ i)
    (h : HoldsPlace request (c.setThread i s) j) : HoldsPlace request c j := by
  obtain ⟨t, ht, hleft⟩ := h
  exact ⟨t, (c.setThread_ne s hj).symm.trans ht, hleft⟩

theorem HoldsPlace.of_ended {i j : ι} {s : Status Store StoreKey Exit Answer}
    (hs : ∀ v, s ≠ .running v) (h : HoldsPlace request (c.setThread i s) j) :
    j ≠ i ∧ HoldsPlace request c j := by
  obtain ⟨t, ht, hleft⟩ := h
  obtain ⟨hj, hrun⟩ := Config.running_ended hs ht
  exact ⟨hj, t, hrun, hleft⟩

/-- A statement lets at most its own transaction pass, and then a place is free. -/
theorem WithinCap.exec {i : ι} {s : Status Store StoreKey Exit Answer} (h : WithinCap request c)
    (hk : FindsPlace request c (c.setThread i s)) : WithinCap request (c.setThread i s) := by
  intro S hS
  by_cases hi : i ∈ S ∧ ¬HoldsPlace request c i
  · obtain ⟨hiS, hnew⟩ := hi
    have hroom := hk i (hS i hiS) hnew (S.erase i) fun j hj =>
      (hS j (Finset.mem_of_mem_erase hj)).of_setThread (Finset.ne_of_mem_erase hj)
    have hcard := Finset.card_erase_add_one hiS
    simp only [Config.setThread_db]
    omega
  · refine h S fun j hj => ?_
    by_cases hji : j = i
    · subst hji
      by_contra hno
      exact hi ⟨hj, hno⟩
    · exact (hS j hj).of_setThread hji

theorem WithinCap.commit {i : ι} {t : Thread Store StoreKey Exit Answer} {a : Answer}
    (h : WithinCap request c) (hrun : c.threads i = .running t) (hprog : t.prog = .pure a)
    (hsafe : c.Safe (fun _ => capTerms) (fun i => CapPromise (request i)) fun i => (request i).body)
    {S : Finset ι} (hS : ∀ j ∈ S, j ≠ i ∧ HoldsPlace request c j) :
    (t.view c.db).orgBounds = c.db.orgBounds ∧
      ((t.view c.db).activeInstances + S.card : Int) ≤ c.db.boundsOrDefault.maxConcurrent := by
  obtain ⟨x, _, hpend, hleft, hb, hadds, _⟩ := hsafe.promise hrun hprog
  rw [hpend] at hb hadds
  refine ⟨hb, ?_⟩
  rcases hadds with hle | ⟨hpassed, hle⟩
  · have hcap := h S fun j hj => (hS j hj).2
    change (t.view c.db).activeInstances ≤ _ at hle
    omega
  · have hplace : HoldsPlace request c i := by
      refine ⟨t, hrun, ?_, ?_⟩
      · rw [hprog]
        exact (hpassed.body_ne_pure a).symm
      · rwa [hprog, ← hleft]
    have hi : i ∉ S := fun hi => (hS i hi).1 rfl
    have hcap := h (insert i S) fun j hj => by
      rcases Finset.mem_insert.mp hj with rfl | hj
      · exact hplace
      · exact (hS j hj).2
    have hcard := Finset.card_insert_of_notMem hi
    change (t.view c.db).activeInstances ≤ _ at hle
    omega

theorem WithinCap.step (h : WithinCap request c)
    (hsafe : c.Safe (fun _ => capTerms) (fun i => CapPromise (request i)) fun i => (request i).body)
    (hs : Step c d) (hk : FindsPlace request c d) :
    d.db.orgBounds = c.db.orgBounds ∧ WithinCap request d := by
  cases hs with
  | exec => exact ⟨rfl, h.exec hk⟩
  | @commit i t a hrun hprog =>
    have hended : ∀ S : Finset ι, (∀ j ∈ S, HoldsPlace request (c.setThread i (.committed a)) j) →
        ∀ j ∈ S, j ≠ i ∧ HoldsPlace request c j :=
      fun S hS j hj => (hS j hj).of_ended (by intro v; nofun)
    have hb := (h.commit (S := ∅) hrun hprog hsafe (by simp)).1
    refine ⟨hb, fun S hS => ?_⟩
    have hcap := (h.commit hrun hprog hsafe (hended S hS)).2
    simpa only [Db.boundsOrDefault, hb] using hcap
  | exit =>
    exact ⟨rfl, fun S hS => h S fun j hj => ((hS j hj).of_ended (by intro v; nofun)).2⟩
  | crash =>
    exact ⟨rfl, fun S hS => h S fun j hj => ((hS j hj).of_ended (by intro v; nofun)).2⟩

/-- Every run keeps to the cap as long as those whom the cap lets pass find a place. -/
theorem active_within_cap {db : Store}
    (h : ReachableWhere (FindsPlace request) (fun i => (request i).body) db c)
    (h0 : (db.activeInstances : Int) ≤ db.boundsOrDefault.maxConcurrent) :
    (c.db.activeInstances : Int) ≤ db.boundsOrDefault.maxConcurrent := by
  have hinv : c.db.orgBounds = db.orgBounds ∧ WithinCap request c := by
    induction h with
    | initial => exact ⟨rfl, withinCap_initial h0⟩
    | step prior next meets ih =>
      obtain ⟨hb, hcap⟩ := ih.2.step (prior.safe (fun i => safe_request (request i) db)
        (fun _ _ _ _ _ _ _ => trivial) fun i j _ _ _ _ _ => capPromise_rely) next meets
      exact ⟨hb.trans ih.1, hcap⟩
  have hcap := hinv.2 ∅ (by simp)
  simpa [Db.boundsOrDefault, hinv.1] using hcap

end Runs

end

def capOne : OrgBounds := ⟨1, 100, by decide, by decide⟩

def startTwice [Formats] : Fin 2 → Request :=
  sideBySide (.start (.of "first" 10) (PublicId.mk .workflowDefinition 3).asStr ⟨.null, false⟩)
    (.start (.of "second" 20) (PublicId.mk .workflowDefinition 3).asStr ⟨.null, false⟩)

/-- Both count no active instance, and both start one. -/
theorem cap_exceeded :
    letI := canonicalFormats
    letI := plainText
    letI := secondsClock
    ∃ c, Reachable (fun i => (startTwice i).body) (Store.publishedOnce (some capOne)) c ∧
      c.db.boundsOrDefault.maxConcurrent = 1 ∧ c.db.activeInstances = 2 := by
  let := canonicalFormats
  let := plainText
  let := secondsClock
  obtain ⟨c, hc, hend⟩ := Reachable.of_play (fun i => (startTwice i).body)
    (Store.publishedOnce (some capOne))
    (List.replicate 3 (.exec 0) ++ Move.through 1 8 ++ Move.through 0 5)
    (fun c => c.db.boundsOrDefault.maxConcurrent = 1 && c.db.activeInstances = 2) (by decide +kernel)
  simp only [Bool.and_eq_true, decide_eq_true_eq] at hend
  exact ⟨c, hc, hend⟩

def capThree : OrgBounds := ⟨3, 100, by decide, by decide⟩

/-- Below a cap of three both find a place, though the second passes before the first has taken its own. -/
theorem active_within_cap_side_by_side :
    letI := canonicalFormats
    letI := plainText
    letI := secondsClock
    ∃ c, ReachableWhere (FindsPlace startTwice) (fun i => (startTwice i).body)
        (Store.publishedOnce (some capThree)) c ∧
      c.db.activeInstances = 2 ∧
      (c.db.activeInstances : Int) ≤ (Store.publishedOnce (some capThree)).boundsOrDefault.maxConcurrent := by
  let := canonicalFormats
  let := plainText
  let := secondsClock
  let roomy (c : Config (Fin 2) Store StoreKey Exit Answer) : Bool :=
    c.db.boundsOrDefault.maxConcurrent = 3 && c.db.activeInstances ≤ 1
  have hfinds : ∀ c d, roomy c = true → FindsPlace startTwice c d := by
    intro c d hc i _ hno S hS
    simp only [roomy, Bool.and_eq_true, decide_eq_true_eq] at hc
    have hothers : S ⊆ Finset.univ.erase i := fun j hj =>
      Finset.mem_erase.mpr ⟨fun h => hno (h ▸ hS j hj), Finset.mem_univ j⟩
    have hone : ∀ j : Fin 2, (Finset.univ.erase j).card = 1 := by decide
    have hcard := Finset.card_le_card hothers
    rw [hone] at hcard
    omega
  obtain ⟨c, hc, htwo⟩ := ReachableWhere.of_play (fun i => (startTwice i).body)
    (Store.publishedOnce (some capThree)) roomy (fun c => c.db.activeInstances = 2) hfinds
    (List.replicate 3 (.exec 0) ++ Move.through 1 8 ++ Move.through 0 5) (by decide +kernel)
  exact ⟨c, hc, of_decide_eq_true htwo, active_within_cap hc (by decide +kernel)⟩

end Noxara.Workflows
