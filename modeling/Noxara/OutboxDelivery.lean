import Noxara.OutboxEvents

/-! No event is lost, whatever relays, replays and insertions do side by side: each transaction is a script
of acts on rows that it holds. -/
namespace Noxara.Outbox

open Transaction
open Finance (Uuid Timestamp)

def runActs (acts : List Act) (s : Store) : Store := acts.foldl (fun t a => a.apply t) s

/-- The transaction has done these acts, each on rows of its own that are in `s` as the act found them. -/
structure Script (x : Trail Store Lock) (s : Store) (acts : List Act) : Prop where
  pend : ∀ v, x.pend v = runActs acts v
  pre : ∀ a ∈ acts, a.Pre s
  held : ∀ a ∈ acts, ∀ k ∈ a.touches, k ∈ x.locks
  apart : acts.Pairwise fun a b => ∀ k ∈ a.touches, k ∉ b.touches

/-- Acts on different rows go one after another as they were found: what each of them keeps, all do. -/
theorem runActs_keeps {P : Store → Prop} (hP : ∀ s a, P s → Act.Pre s a → P (a.apply s)) {s : Store} (h : P s)
    {acts : List Act} (hpre : ∀ a ∈ acts, a.Pre s)
    (hapart : acts.Pairwise fun a b => ∀ k ∈ a.touches, k ∉ b.touches) : P (runActs acts s) := by
  induction acts generalizing s with
  | nil => exact h
  | cons a as ih =>
    obtain ⟨ha, has⟩ := List.pairwise_cons.mp hapart
    refine ih (hP s a h (hpre a List.mem_cons_self)) (fun b hb => ?_) has
    refine (hpre b (List.mem_cons_of_mem _ hb)).congr (fun id hid => ?_) fun id hid => ?_
    · exact Act.find?_event_apply fun hin => ha b hb _ hin hid
    · exact Act.find?_dlq_apply fun hin => ha b hb _ hin hid

theorem find?_event_runActs {s : Store} {acts : List Act} {id : Uuid}
    (h : ∀ a ∈ acts, Lock.event id ∉ a.touches) :
    (runActs acts s).events.find? id = s.events.find? id := by
  induction acts generalizing s with
  | nil => rfl
  | cons a as ih =>
    have has := ih (s := a.apply s) fun b hb => h b (List.mem_cons_of_mem _ hb)
    exact has.trans (Act.find?_event_apply (h a List.mem_cons_self))

theorem find?_dlq_runActs {s : Store} {acts : List Act} {id : Uuid}
    (h : ∀ a ∈ acts, Lock.dlq id ∉ a.touches) : (runActs acts s).dlq.find? id = s.dlq.find? id := by
  induction acts generalizing s with
  | nil => rfl
  | cons a as ih =>
    have has := ih (s := a.apply s) fun b hb => h b (List.mem_cons_of_mem _ hb)
    exact has.trans (Act.find?_dlq_apply (h a List.mem_cons_self))

inductive OutboxOp
  | insertEvent (envelope : EventEnvelope)
  | publishBatch (ctx : RelayCtx) (limit : Int) (maxAttempts : Nat)
  | replayDlqRow (now : Timestamp) (newId dlqId : Uuid)

def OutboxOp.body : OutboxOp → Tx Unit
  | insertEvent envelope => do
    let _ ← Outbox.insertEvent envelope
  | publishBatch ctx limit maxAttempts => do
    let _ ← Outbox.publishBatch ctx limit maxAttempts
  | replayDlqRow now newId dlqId => do
    let _ ← Outbox.replayDlqRow now newId dlqId

/-- The ids that a relay makes up for dead-letter rows. -/
def OutboxOp.Owns : OutboxOp → Uuid → Prop
  | publishBatch ctx _ _, d => ∃ id, ctx.dlqId id = d
  | _, _ => False

/-- The acts of a transaction of this kind. -/
def OutboxOp.Does : OutboxOp → List Act → Prop
  | insertEvent envelope, acts => acts = [.inserted envelope]
  | publishBatch ctx _ _, acts => ∀ a ∈ acts, (∃ id row, a = .published ctx.now id row) ∨
      ∃ id row error, a = .died ctx id row error
  | replayDlqRow now newId dlqId, acts => ∃ row, acts = [.replayed now dlqId row newId]

/-- The committed rows that a transaction holds stay, and the ids that it makes up stay free. -/
structure OutboxRely (mine : Uuid → Prop) (ls : List Lock) (s t : Store) : Prop where
  event : ∀ id, .event id ∈ ls → t.events.find? id = s.events.find? id
  dlq : ∀ id, .dlq id ∈ ls → t.dlq.find? id = s.dlq.find? id
  free : ∀ id, mine id → s.dlq.find? id = none → t.dlq.find? id = none

def outboxTerms (mine : Uuid → Prop) : Terms Store Lock where
  rely := OutboxRely mine
  when _ _ _ := True
  refl _ _ := ⟨fun _ _ => rfl, fun _ _ => rfl, fun _ _ h => h⟩
  trans h h' := ⟨fun id hid => (h'.event id hid).trans (h.event id hid),
    fun id hid => (h'.dlq id hid).trans (h.dlq id hid), fun id hid hs => h'.free id hid (h.free id hid hs)⟩
  anti hls h := ⟨fun id hid => h.event id (hls _ hid), fun id hid => h.dlq id (hls _ hid), h.free⟩

def OutboxPromise (op : OutboxOp) (x : Trail Store Lock) (_ : Unit) (s : Store) : Prop :=
  ∃ acts, op.Does acts ∧ Script x s acts

section
variable {mine : Uuid → Prop} {x : Trail Store Lock} {s t : Store} {acts : List Act}

theorem Script.rely (h : Script x s acts) (hs : OutboxRely mine x.locks s t) : Script x t acts where
  pend := h.pend
  pre a ha := (h.pre a ha).congr (fun id hid => hs.event id (h.held a ha _ hid))
    fun id hid => hs.dlq id (h.held a ha _ hid)
  held := h.held
  apart := h.apart

theorem safe_insertEvent (env : EventEnvelope) (s : Store) :
    (OutboxOp.insertEvent env).body.Safe (outboxTerms mine) (OutboxPromise (.insertEvent env)) .start s := by
  unfold OutboxOp.body Outbox.insertEvent insertOutboxRow
  refine .bind (Prog.Safe.execute_bind fun u _ _ hcheck => Prog.Safe.pure fun v hv => ?_)
  refine Prog.Safe.pure fun w hw => ⟨[.inserted env], rfl, Script.rely ?_ hw⟩
  refine Script.rely (s := u) ⟨fun _ => rfl, fun a ha => ?_, fun a ha k hk => ?_, List.pairwise_singleton _ _⟩ hv
  · obtain rfl := List.mem_singleton.mp ha
    split_ifs at hcheck with hkey
    exact Table.find?_eq_none.mpr hkey
  · obtain rfl := List.mem_singleton.mp ha
    exact List.mem_append_left _ hk

theorem safe_replayDlqRow (now : Timestamp) (newId dlqId : Uuid) (s : Store) :
    (OutboxOp.replayDlqRow now newId dlqId).body.Safe (outboxTerms mine)
      (OutboxPromise (.replayDlqRow now newId dlqId)) .start s := by
  unfold OutboxOp.body Outbox.replayDlqRow insertOutboxRow
  refine .bind (Prog.Safe.queryForUpdate_bind fun u _ _ => Prog.Safe.okOr_bind fun row hrow => ?_)
  refine Prog.Safe.require_bind fun hunreplayed => ?_
  refine Prog.Safe.execute_bind fun u₁ h₁ _ hcheck => Prog.Safe.execute_bind fun u₂ h₂ _ _ => ?_
  refine Prog.Safe.pure fun u₃ h₃ => Prog.Safe.pure fun u₄ h₄ =>
    ⟨[.replayed now dlqId row newId], ⟨row, rfl⟩, Script.rely ?_ h₄⟩
  refine Script.rely ?_ h₃
  have hheld : u₂.dlq.find? dlqId = some row := by
    rw [h₂.dlq dlqId (by simp [Trail.push]), h₁.dlq dlqId (by simp [Trail.push])]
    exact hrow
  have hfree : u₂.events.find? newId = none := by
    rw [h₂.event newId (by simp [Trail.push])]
    split_ifs at hcheck with hkey
    exact Table.find?_eq_none.mpr hkey
  refine ⟨fun _ => rfl, fun a ha => ?_, fun a ha k hk => ?_, List.pairwise_singleton _ _⟩
  · obtain rfl := List.mem_singleton.mp ha
    exact ⟨hheld, hunreplayed, hfree⟩
  · obtain rfl := List.mem_singleton.mp ha
    rcases List.mem_cons.mp hk with rfl | hk
    · simp [Trail.push]
    · obtain rfl := List.mem_singleton.mp hk
      simp [Trail.push]

/-- A relay between two events: what it has done, and the claimed rows that are still to do. -/
structure Relaying (ctx : RelayCtx) (x : Trail Store Lock) (s : Store) (acts : List Act)
    (todo : List (Uuid × OutboxEvent)) : Prop where
  script : Script x s acts
  kinds : ∀ a ∈ acts, (∃ id row, a = .published ctx.now id row) ∨ ∃ id row error, a = .died ctx id row error
  nodup : (todo.map Prod.fst).Nodup
  row : ∀ r ∈ todo, Lock.event r.1 ∈ x.locks ∧ s.events.find? r.1 = some r.2 ∧ r.2.publishedAt = none
  free : ∀ r ∈ todo, s.dlq.find? (ctx.dlqId r.1) = none
  untouched : ∀ a ∈ acts, ∀ r ∈ todo, Lock.event r.1 ∉ a.touches ∧ Lock.dlq (ctx.dlqId r.1) ∉ a.touches

/-- The ids that the relay makes up. -/
def RelayCtx.Owns (ctx : RelayCtx) (d : Uuid) : Prop := ∃ id, ctx.dlqId id = d

variable {ctx : RelayCtx} {r : Uuid × OutboxEvent} {todo : List (Uuid × OutboxEvent)}

theorem Relaying.rely (h : Relaying ctx x s acts todo) (hs : OutboxRely ctx.Owns x.locks s t) :
    Relaying ctx x t acts todo where
  script := h.script.rely hs
  kinds := h.kinds
  nodup := h.nodup
  row r hr := by
    obtain ⟨hlock, hrow, hu⟩ := h.row r hr
    exact ⟨hlock, (hs.event r.1 hlock).trans hrow, hu⟩
  free r hr := hs.free _ ⟨r.1, rfl⟩ (h.free r hr)
  untouched := h.untouched

theorem Relaying.done (h : Relaying ctx x s acts (r :: todo)) (hinj : Function.Injective ctx.dlqId)
    {y : Trail Store Lock} {a : Act} (hpend : ∀ v, y.pend v = a.apply (x.pend v))
    (hlocks : ∀ k, k ∈ x.locks ∨ k ∈ a.touches → k ∈ y.locks) (hpre : a.Pre s)
    (hkind : (∃ id row, a = .published ctx.now id row) ∨ ∃ id row error, a = .died ctx id row error)
    (htouches : ∀ k ∈ a.touches, k = .event r.1 ∨ k = .dlq (ctx.dlqId r.1)) :
    Relaying ctx y s (acts ++ [a]) todo := by
  obtain ⟨hnotin, hnodup⟩ := List.nodup_cons.mp h.nodup
  constructor
  · constructor
    · intro v
      rw [hpend, h.script.pend, runActs, runActs, List.foldl_append]
      rfl
    · intro b hb
      rcases List.mem_append.mp hb with hb | hb
      · exact h.script.pre b hb
      · rwa [List.mem_singleton.mp hb]
    · intro b hb k hk
      rcases List.mem_append.mp hb with hb | hb
      · exact hlocks k (.inl (h.script.held b hb k hk))
      · rw [List.mem_singleton.mp hb] at hk
        exact hlocks k (.inr hk)
    · rw [List.pairwise_append]
      refine ⟨h.script.apart, List.pairwise_singleton _ _, fun b hb b' hb' k hk hk' => ?_⟩
      rw [List.mem_singleton.mp hb'] at hk'
      obtain ⟨he, hd⟩ := h.untouched b hb r List.mem_cons_self
      rcases htouches k hk' with rfl | rfl
      · exact he hk
      · exact hd hk
  · intro b hb
    rcases List.mem_append.mp hb with hb | hb
    · exact h.kinds b hb
    · rwa [List.mem_singleton.mp hb]
  · exact hnodup
  · intro q hq
    obtain ⟨hlock, hrow⟩ := h.row q (List.mem_cons_of_mem _ hq)
    exact ⟨hlocks _ (.inl hlock), hrow⟩
  · exact fun q hq => h.free q (List.mem_cons_of_mem _ hq)
  · intro b hb q hq
    rcases List.mem_append.mp hb with hb | hb
    · exact h.untouched b hb q (List.mem_cons_of_mem _ hq)
    · -- the rows that are left are others
      rw [List.mem_singleton.mp hb]
      have hne : q.1 ≠ r.1 := by
        intro he
        exact hnotin (he ▸ List.mem_map_of_mem hq)
      constructor
      · intro hk
        rcases htouches _ hk with he | he
        · exact hne (Lock.event.inj he)
        · cases he
      · intro hk
        rcases htouches _ hk with he | he
        · cases he
        · exact hne (hinj (Lock.dlq.inj he))

theorem safe_publishEvent (hinj : Function.Injective ctx.dlqId) (maxAttempts : Nat)
    (h : Relaying ctx x s acts (r :: todo)) :
    (publishEvent ctx maxAttempts r.1 r.2).Safe (outboxTerms ctx.Owns)
      (fun y _ u => ∃ acts', Relaying ctx y u acts' todo) x s := by
  unfold publishEvent
  split
  · intro u hu
    have hnow := h.rely hu
    obtain ⟨-, hnodup⟩ := List.nodup_cons.mp hnow.nodup
    exact ⟨acts, hnow.script, hnow.kinds, hnodup, fun q hq => hnow.row q (List.mem_cons_of_mem _ hq),
      fun q hq => hnow.free q (List.mem_cons_of_mem _ hq),
      fun b hb q hq => hnow.untouched b hb q (List.mem_cons_of_mem _ hq)⟩
  · refine Prog.Safe.execute_bind fun u hu _ _ => Prog.Safe.pure fun v hv => ?_
    have hnow := h.rely hu
    obtain ⟨-, hrow, hunpublished⟩ := hnow.row r List.mem_cons_self
    have hdone := hnow.done (y := x.push (fun _ => [.event r.1]) (fun _ s =>
        { markPublished ctx.now r.1 s with deliveries := s.deliveries ++ [(r.2.subject, r.2.payload)] }) u)
      hinj (a := .published ctx.now r.1 r.2) (fun _ => rfl) (fun k hk => ?_) ⟨hrow, hunpublished⟩
      (.inl ⟨_, _, rfl⟩) fun k hk => .inl (List.mem_singleton.mp hk)
    · exact ⟨_, hdone.rely hv⟩
    · rcases hk with hk | hk
      · exact List.mem_append_right _ hk
      · exact List.mem_append_left _ hk
  · next e _ =>
    refine .bind ?_
    unfold moveToDlq markPublishedTx
    refine Prog.Safe.execute_bind fun u hu _ _ v hv _ w hw w' hw' => ?_
    have hv' : OutboxRely ctx.Owns x.locks u v :=
      (outboxTerms ctx.Owns).anti (fun k hk => List.mem_append_right _ hk) hv
    have hnow := (h.rely hu).rely hv'
    obtain ⟨-, hrow, hunpublished⟩ := hnow.row r List.mem_cons_self
    have hdone := hnow.done (y := (x.push (fun _ => [.dlq (ctx.dlqId r.1)]) (fun _ s => s.setDlq
        (·.insert (ctx.dlqId r.1) (deadRow ctx r.1 r.2 e))) u).push (fun _ => [.event r.1])
        (fun _ => markPublished ctx.now r.1) v)
      hinj (a := .died ctx r.1 r.2 e) (fun _ => rfl) (fun k hk => ?_)
      ⟨hrow, hunpublished, hnow.free r List.mem_cons_self⟩ (.inr ⟨_, _, _, rfl⟩) fun k hk => ?_
    · exact ⟨_, (hdone.rely hw).rely hw'⟩
    · rcases hk with hk | hk
      · exact List.mem_append_right _ (List.mem_append_right _ hk)
      · simp only [Act.touches, List.mem_cons, List.not_mem_nil, or_false] at hk
        rcases hk with rfl | rfl <;> simp [Trail.push]
    · simpa [Act.touches] using hk

theorem safe_publishAll (hinj : Function.Injective ctx.dlqId) (maxAttempts : Nat) (published : Nat)
    (h : Relaying ctx x s acts todo) :
    (publishAll ctx maxAttempts todo published).Safe (outboxTerms ctx.Owns)
      (fun y _ u => ∃ acts', Relaying ctx y u acts' []) x s := by
  induction todo generalizing x s acts published with
  | nil => exact fun u hu => ⟨acts, h.rely hu⟩
  | cons r rs ih =>
    unfold publishAll
    refine .bind ((safe_publishEvent hinj maxAttempts h).mono fun y counted u hy => ?_)
    obtain ⟨acts', hy⟩ := hy
    exact ih _ hy

/-- The claimed rows are unpublished, each once. -/
theorem claimable_spec (skipped : List Uuid) (limit : Nat) (s : Store) :
    ((claimable skipped limit s).map Prod.fst).Nodup ∧ ∀ r ∈ claimable skipped limit s,
      s.events.find? r.1 = some r.2 ∧ r.2.publishedAt = none := by
  have hperm := List.perm_insertionSort (fun a b : Uuid × OutboxEvent => a.2.createdAt ≤ b.2.createdAt)
    (s.events.rows.filter fun r => r.2.publishedAt = none ∧ r.1 ∉ skipped)
  constructor
  · refine ((List.take_sublist _ _).map Prod.fst).nodup ?_
    refine (hperm.map Prod.fst).nodup_iff.mpr ?_
    exact (List.filter_sublist.map Prod.fst).nodup s.events.nodup
  · intro r hr
    have hmem := hperm.mem_iff.mp (List.mem_of_mem_take hr)
    obtain ⟨hrow, hcond⟩ := List.mem_filter.mp hmem
    simp only [decide_eq_true_eq] at hcond
    exact ⟨Table.find?_eq_some.mpr hrow, hcond.1⟩

theorem safe_publishBatch (hinj : Function.Injective ctx.dlqId) (limit : Int) (maxAttempts : Nat)
    (hfree : ∀ id, s.dlq.find? (ctx.dlqId id) = none) :
    (OutboxOp.publishBatch ctx limit maxAttempts).body.Safe (outboxTerms ctx.Owns)
      (OutboxPromise (.publishBatch ctx limit maxAttempts)) .start s := by
  unfold OutboxOp.body Outbox.publishBatch claimUnpublished
  refine .bind (.bind (Prog.Safe.require_bind fun _ u hu _ v hv => ?_))
  obtain ⟨hnodup, hrows⟩ := claimable_spec ctx.skipped limit.toNat u
  have hstart : Relaying ctx (Trail.push .start (fun v => (claimable ctx.skipped limit.toNat v).map fun r =>
      .event r.1) (fun _ t => t) u) u [] (claimable ctx.skipped limit.toNat u) := by
    constructor
    · exact ⟨fun _ => rfl, fun a ha => absurd ha List.not_mem_nil, fun a ha => absurd ha List.not_mem_nil, .nil⟩
    · exact fun a ha => absurd ha List.not_mem_nil
    · exact hnodup
    · intro r hr
      obtain ⟨hrow, hu'⟩ := hrows r hr
      exact ⟨List.mem_append_left _ (List.mem_map_of_mem hr), hrow, hu'⟩
    · exact fun r _ => hu.free _ ⟨r.1, rfl⟩ (hfree r.1)
    · exact fun a ha => absurd ha List.not_mem_nil
  refine (safe_publishAll hinj maxAttempts 0 (hstart.rely hv)).mono fun y _ w hy w' hw' => ?_
  obtain ⟨acts', hy⟩ := hy
  exact ⟨acts', (hy.rely hw').kinds, (hy.rely hw').script⟩

end

section
variable {s : Store} {env : EventEnvelope} {d : Uuid}

def Replayed (s : Store) (d : Uuid) : Prop := ∃ row, s.dlq.find? d = some row ∧ row.replayedAt ≠ none

theorem Inserted.apply (h : Inserted s env) {a : Act} (hpre : a.Pre s) : Inserted (a.apply s) env := by
  cases a with
  | inserted env' => exact (inserted_of_insert hpre).mpr (.inl h)
  | published now id row => exact inserted_markPublished.mpr h
  | died ctx id row error => exact inserted_markPublished.mpr h
  | replayed now d row n => exact (inserted_of_insert hpre.2.2).mpr (.inl h)

theorem Replayed.apply (h : Replayed s d) {a : Act} : Replayed (a.apply s) d := by
  obtain ⟨row, hrow, hreplayed⟩ := h
  cases a with
  | inserted env' => exact ⟨row, hrow, hreplayed⟩
  | published now id r => exact ⟨row, hrow, hreplayed⟩
  | died ctx id r error => exact ⟨row, Table.find?_insert_of_some hrow _, hreplayed⟩
  | replayed now d' r n =>
    have hmap := Table.find?_mapRows s.dlq
      (fun k r => if k = d' then { r with replayedAt := some now } else r) d
    rw [hrow] at hmap
    refine ⟨_, hmap, ?_⟩
    split_ifs
    · exact fun hnone => by cases hnone
    · exact hreplayed

end

variable {ι : Type} [DecidableEq ι] {ops : ι → OutboxOp} {c : Config ι Store Lock OutboxError Unit}

/-- No id for a dead-letter row is made up twice. -/
structure FreshDlqIds (ops : ι → OutboxOp) : Prop where
  apart : ∀ i j d, (ops i).Owns d → (ops j).Owns d → i = j
  injective : ∀ i ctx limit maxAttempts, ops i = .publishBatch ctx limit maxAttempts →
    Function.Injective ctx.dlqId

omit [DecidableEq ι] in
theorem safe_outbox (hfresh : FreshDlqIds ops) (i : ι) :
    (ops i).body.Safe (outboxTerms (ops i).Owns) (OutboxPromise (ops i)) .start .empty := by
  cases hop : ops i with
  | insertEvent envelope => exact safe_insertEvent envelope .empty
  | publishBatch ctx limit maxAttempts =>
    exact safe_publishBatch (hfresh.injective i ctx limit maxAttempts hop) limit maxAttempts fun _ => rfl
  | replayDlqRow now newId dlqId => exact safe_replayDlqRow now newId dlqId .empty

omit [DecidableEq ι] in
/-- What one transaction commits leaves the rows that another holds, and its ids. -/
theorem OutboxPromise.rely (hfresh : FreshDlqIds ops) {i j : ι} (hij : i ≠ j) {x : Trail Store Lock}
    {u : Unit} {s : Store} {ls : List Lock} (h : OutboxPromise (ops i) x u s) (hls : ∀ k ∈ x.locks, k ∉ ls) :
    OutboxRely (ops j).Owns ls s (x.pend s) := by
  obtain ⟨acts, hdoes, hscript⟩ := h
  rw [hscript.pend]
  constructor
  · exact fun id hid => find?_event_runActs fun a ha hk => hls _ (hscript.held a ha _ hk) hid
  · exact fun id hid => find?_dlq_runActs fun a ha hk => hls _ (hscript.held a ha _ hk) hid
  · intro d hd hnone
    rw [find?_dlq_runActs (fun a ha hk => ?_), hnone]
    -- who touches a dead-letter row makes up its id, or finds it there
    have hpre := hscript.pre a ha
    cases a with
    | inserted env => simp [Act.touches] at hk
    | published now id row => simp [Act.touches] at hk
    | replayed now d' row n =>
      obtain rfl : d = d' := by simpa [Act.touches] using hk
      rw [hpre.1] at hnone
      cases hnone
    | died ctx id row error =>
      obtain rfl : d = ctx.dlqId id := by simpa [Act.touches] using hk
      refine hij (hfresh.apart i j _ ?_ hd)
      unfold OutboxOp.Does at hdoes
      split at hdoes
      · rw [hdoes] at ha
        cases List.mem_singleton.mp ha
      · next ctx' _ _ hop =>
        rcases hdoes _ ha with ⟨_, _, he⟩ | ⟨_, _, _, he⟩
        · cases he
        · cases he
          rw [hop]
          exact ⟨id, rfl⟩
      · obtain ⟨_, rfl⟩ := hdoes
        cases List.mem_singleton.mp ha

/-- The transaction committed the insertion of the event. -/
def InsertsEvent (ops : ι → OutboxOp) (env : EventEnvelope) (e : ι × Except OutboxError Unit) : Prop :=
  e.2 = .ok () ∧ ops e.1 = .insertEvent env

def ReplaysRow (ops : ι → OutboxOp) (d : Uuid) (e : ι × Except OutboxError Unit) : Prop :=
  e.2 = .ok () ∧ ∃ now newId, ops e.1 = .replayDlqRow now newId d

structure OutboxHistory (ops : ι → OutboxOp) (c : Config ι Store Lock OutboxError Unit) : Prop where
  kept : Kept c.db
  inserted : ∀ e ∈ c.log, ∀ env, InsertsEvent ops env e → Inserted c.db env
  replayed : ∀ e ∈ c.log, ∀ d, ReplaysRow ops d e → Replayed c.db d
  once : c.log.Pairwise fun e e' => ∀ d, ReplaysRow ops d e → ¬ReplaysRow ops d e'

omit [DecidableEq ι] in
theorem OutboxHistory.commit (h : OutboxHistory ops c) {d : Config ι Store Lock OutboxError Unit} {i : ι}
    {x : Trail Store Lock} (hp : OutboxPromise (ops i) x () c.db) (hdb : d.db = x.pend c.db)
    (hlog : d.log = c.log ++ [(i, .ok ())]) : OutboxHistory ops d := by
  obtain ⟨acts, hdoes, hscript⟩ := hp
  rw [hscript.pend] at hdb
  have hkeeps : ∀ P : Store → Prop, (∀ s a, P s → Act.Pre s a → P (a.apply s)) → P c.db → P d.db := by
    intro P hP h0
    rw [hdb]
    exact runActs_keeps hP h0 hscript.pre hscript.apart
  constructor
  · exact hkeeps Kept (fun s a hs ha => hs.apply ha) h.kept
  · intro e he env hins
    rw [hlog] at he
    rcases List.mem_append.mp he with he | he
    · exact hkeeps (Inserted · env) (fun s a hs ha => hs.apply ha) (h.inserted e he env hins)
    · obtain rfl := List.mem_singleton.mp he
      rw [hins.2] at hdoes
      obtain rfl : acts = [.inserted env] := hdoes
      rw [hdb]
      exact (inserted_of_insert (hscript.pre _ (List.mem_singleton.mpr rfl))).mpr (.inr ⟨rfl, rfl⟩)
  · intro e he k hrep
    rw [hlog] at he
    rcases List.mem_append.mp he with he | he
    · exact hkeeps (Replayed · k) (fun s a hs _ => hs.apply) (h.replayed e he k hrep)
    · obtain rfl := List.mem_singleton.mp he
      obtain ⟨-, now, newId, hop⟩ := hrep
      rw [hop] at hdoes
      obtain ⟨row, rfl⟩ := hdoes
      have hrow := (hscript.pre _ (List.mem_singleton.mpr rfl)).1
      have hself := Table.find?_modify_self c.db.dlq k fun r => { r with replayedAt := some now }
      rw [hrow] at hself
      rw [hdb]
      exact ⟨_, hself, fun hnone => by cases hnone⟩
  · rw [hlog, List.pairwise_append]
    refine ⟨h.once, List.pairwise_singleton _ _, fun e he e' he' k hrep hrep' => ?_⟩
    obtain rfl := List.mem_singleton.mp he'
    obtain ⟨-, now, newId, hop⟩ := hrep'
    rw [hop] at hdoes
    obtain ⟨row, rfl⟩ := hdoes
    obtain ⟨hrow, hunreplayed, -⟩ := hscript.pre _ (List.mem_singleton.mpr rfl)
    obtain ⟨row', hrow', hreplayed⟩ := h.replayed e he k hrep
    cases hrow.symm.trans hrow'
    exact hreplayed hunreplayed

theorem outboxHistory (h : Reachable (fun i => (ops i).body) .empty c) (hfresh : FreshDlqIds ops) :
    OutboxHistory ops c := by
  induction h with
  | initial =>
    refine ⟨⟨?_, ?_, ?_, ?_, ?_, ?_⟩, ?_, ?_, .nil⟩
    · exact fun id row h => by cases h
    · exact fun id row h => by cases h
    · rintro env ⟨row, hrow, -⟩
      cases hrow
    · rintro env id id' ⟨row, hrow, -⟩
      cases hrow
    · rintro env id id' ⟨row, hrow, -⟩
      cases hrow
    · rintro env id id' ⟨row, hrow, -⟩
      cases hrow
    · exact fun e he => absurd he List.not_mem_nil
    · exact fun e he => absurd he List.not_mem_nil
  | @step c d prior next ih =>
    have hsafe := prior.unconditional.safe (T := fun i => outboxTerms (ops i).Owns)
      (Q := fun i => OutboxPromise (ops i)) (safe_outbox hfresh) (fun _ _ _ _ _ _ _ => trivial)
      fun i j x a ls s hij hp hls => hp.rely hfresh hij hls
    cases next with
    | exec | crash => exact ⟨ih.kept, ih.inserted, ih.replayed, ih.once⟩
    | @commit i t a hrun hprog =>
      obtain ⟨x, -, hpend, -, hp⟩ := hsafe.promise hrun hprog
      exact ih.commit hp (by rw [hpend]; rfl) rfl
    | @exit i t e hrun hprog =>
      -- an exit leaves the store and what was answered with success
      have hmem : ∀ x ∈ c.log ++ [(i, .error e)], x.2 = .ok () → x ∈ c.log := by
        intro x hx hok
        rcases List.mem_append.mp hx with hx | hx
        · exact hx
        · rw [List.mem_singleton.mp hx] at hok
          cases hok
      refine ⟨ih.kept, fun x hx env hins => ?_, fun x hx k hrep => ?_, ?_⟩
      · exact ih.inserted x (hmem x hx hins.1) env hins
      · exact ih.replayed x (hmem x hx hrep.1) k hrep
      · rw [List.pairwise_append]
        refine ⟨ih.once, List.pairwise_singleton _ _, fun x _ x' hx' k _ hrep => ?_⟩
        rw [List.mem_singleton.mp hx'] at hrep
        cases hrep.1

/-- Every inserted event waits, was accepted, or is in the dead-letter queue as it was inserted; in one of
the two tables and one row at most; and no dead-letter row is replayed twice. -/
theorem outbox_keeps_events (h : Reachable (fun i => (ops i).body) .empty c) (hfresh : FreshDlqIds ops) :
    (∀ env, (∃ e ∈ c.log, InsertsEvent ops env e) →
      (∃ id, Pending c.db env id) ∨ Delivered c.db env ∨ ∃ id row, c.db.dlq.find? id = some row ∧
        row.replayedAt = none ∧ row.subject = env.subject ∧ row.payload = env ∧
        row.idempotencyKey = env.idempotencyKey ∧ ∀ id', Buried c.db env id' → id' = id) ∧
    (∀ env, (∀ id id', Pending c.db env id → Pending c.db env id' → id = id') ∧
      (∀ id id', Buried c.db env id → Buried c.db env id' → id = id') ∧
      ∀ id id', Pending c.db env id → ¬Buried c.db env id') ∧
    c.log.Pairwise fun e e' => ∀ d, ReplaysRow ops d e → ¬ReplaysRow ops d e' := by
  have hhistory := outboxHistory h hfresh
  have hkept := hhistory.kept
  refine ⟨fun env hins => ?_, fun env => ⟨hkept.onePending env, hkept.oneBuried env, hkept.notBoth env⟩,
    hhistory.once⟩
  obtain ⟨e, he, hins⟩ := hins
  rcases hkept.somewhere env (hhistory.inserted e he env hins) with hpending | hdelivered | ⟨id, hburied⟩
  · exact .inl hpending
  · exact .inr (.inl hdelivered)
  · obtain ⟨row, hrow, rfl, hunreplayed⟩ := hburied
    obtain ⟨-, hsubject, hkey⟩ := (hkept.dead id row hrow).1
    refine .inr (.inr ⟨id, row, hrow, hunreplayed, hsubject, rfl, hkey, fun id' hb => ?_⟩)
    exact hkept.oneBuried _ id' id hb ⟨row, hrow, rfl, hunreplayed⟩

def helloEvent : EventEnvelope := ⟨5, "companyos.org_9.core.hello.created.v1", 9, 0, .null, "5"⟩

def refusedRelay : RelayCtx := ⟨1, [], fun _ _ => .error "forced publish failure", (· + 100)⟩

def helloOps : Fin 2 → OutboxOp := sideBySide (.insertEvent helloEvent) (.publishBatch refusedRelay 50 3)

theorem helloOps_fresh : FreshDlqIds helloOps := by
  have howns : ∀ i d, (helloOps i).Owns d → i = right := by
    intro i d h
    unfold helloOps sideBySide at h
    split_ifs at h with hi
    · cases h
    · exact Fin.eq_one_of_ne_zero i hi
  constructor
  · exact fun i j d hi hj => (howns i d hi).trans (howns j d hj).symm
  · intro i ctx limit maxAttempts hop
    unfold helloOps sideBySide at hop
    split_ifs at hop
    cases hop
    exact fun a b h => Nat.add_right_cancel h

theorem outbox_keeps_events_refused :
    ∃ c, Reachable (fun i => (helloOps i).body) .empty c ∧ Buried c.db helloEvent 105 ∧
      ∀ id, ¬Pending c.db helloEvent id := by
  obtain ⟨c, hc, hdead⟩ := Reachable.of_play (fun i => (helloOps i).body) .empty
    (Move.through left 1 ++ Move.through right 3)
    (fun c => (c.db.dlq.find? 105).any fun r => r.payload = helloEvent ∧ r.replayedAt = none)
    (by decide +kernel)
  simp only [Option.any_eq_true, decide_eq_true_eq] at hdead
  have hburied : Buried c.db helloEvent 105 := hdead
  refine ⟨c, hc, hburied, fun id hp => ?_⟩
  exact ((outbox_keeps_events hc helloOps_fresh).2.1 helloEvent).2.2 id 105 hp hburied

end Noxara.Outbox
