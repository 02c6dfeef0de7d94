import Noxara.NotificationIngest

/-! Deliveries of one event side by side. The delivery whose commit marks the event is the only one that writes
items; it writes one for every member who may receive the event, unless it fails after that commit. -/
namespace Noxara.Notifications

open Transaction
open Finance (Uuid AppError)
open Authz (PermissionId TimeFormats isAllowed)

/-- One of these commits has marked the event. -/
def Holds (key : String) (past : Past Db) : Prop :=
  ∃ x ∈ past, x.1.processed.find? key = none ∧ (x.2.processed.find? key).isSome = true

def Loose (key : String) (past : Past Db) : Prop := ¬Holds key past

theorem holds_append {key : String} {past : Past Db} {s t : Db} : Holds key (past ++ [(s, t)]) ↔
    Holds key past ∨ (s.processed.find? key = none ∧ (t.processed.find? key).isSome = true) := by
  simp [Holds, or_and_right, exists_or]

/-- A commit that leaves the processed events as they were marks nothing. -/
theorem holds_append_same {key : String} {past : Past Db} {s t : Db} (h : t.processed = s.processed) :
    Holds key (past ++ [(s, t)]) ↔ Holds key past := by
  rw [holds_append, h]
  constructor
  · rintro (hpast | ⟨hnone, hsome⟩)
    · exact hpast
    · rw [hnone] at hsome
      cases hsome
  · exact .inl

def pledge (key : String) : Pledge Db RowKey where
  rely past ls s t := t.workspace = s.workspace ∧ t.preferences = s.preferences ∧ (Holds key past → t = s) ∧
    (.processed key ∈ ls → t.processed = s.processed) ∧
    ((s.processed.find? key).isSome = true → (t.processed.find? key).isSome = true) ∧
    (t.processed.find? key = none → t.items = s.items)
  keeps past ls s t := t = s ∨
    (s.processed.find? key = none ∧ .processed key ∈ ls ∧
      ∃ now, t = { s with processed := s.processed.insert key now }) ∨
    (Holds key past ∧ t.workspace = s.workspace ∧ t.preferences = s.preferences ∧ t.processed = s.processed)
  refl _ _ _ := ⟨rfl, rfl, fun _ => rfl, fun _ => rfl, id, fun _ => rfl⟩
  trans := by
    rintro past ls s t u ⟨hws, hprefs, hheld, hlock, hsome, hitems⟩
      ⟨hws', hprefs', hheld', hlock', hsome', hitems'⟩
    refine ⟨hws'.trans hws, hprefs'.trans hprefs, fun h => (hheld' h).trans (hheld h),
      fun h => (hlock' h).trans (hlock h), fun h => hsome' (hsome h), ?_⟩
    intro hnone
    have ht : t.processed.find? key = none := by
      by_contra hne
      have hu := hsome' (Option.ne_none_iff_isSome.mp hne)
      simp [hnone] at hu
    exact (hitems' hnone).trans (hitems ht)
  anti := by
    rintro past ls ls' s t hls ⟨hws, hprefs, hheld, hlock, hsome, hitems⟩
    exact ⟨hws, hprefs, hheld, fun h => hlock (hls _ h), hsome, hitems⟩

/-- At most one delivery has marked the event, and the event is marked when one has. -/
structure OneHolder {ι : Type} (key : String) (past : ι → Past Db) (s : Db) : Prop where
  unique : ∀ i j, Holds key (past i) → Holds key (past j) → i = j
  marked : (s.processed.find? key).isSome = true ↔ ∃ i, Holds key (past i)

variable {ι : Type}

theorem fit_pledge [DecidableEq ι] (key : String) : Jobs.Fit (pledge key) (OneHolder (ι := ι) key) := by
  rintro past s i ls t ⟨hone, hmarked⟩ hkeeps
  have hat : ∀ j, j ≠ i → Function.update past i (past i ++ [(s, t)]) j = past j := by
    intro j hj
    simp [hj]
  rcases hkeeps with rfl | ⟨hnone, hlock, now, rfl⟩ | ⟨hheld, hws, hprefs, hprocessed⟩
  · -- nothing is written
    have hsame : ∀ j, Holds key (Function.update past i (past i ++ [(t, t)]) j) ↔ Holds key (past j) := by
      intro j
      by_cases hj : j = i
      · subst hj
        simp [holds_append_same]
      · rw [hat j hj]
    refine ⟨⟨?_, ?_⟩, ?_⟩
    · intro j k hj hk
      exact hone j k ((hsame j).mp hj) ((hsame k).mp hk)
    · simpa only [hsame] using hmarked
    · exact fun j ls' _ _ => (pledge key).refl _ _ _
  · -- the event is marked
    have hnobody : ∀ j, ¬Holds key (past j) := by
      intro j hj
      have hsome := hmarked.mpr ⟨j, hj⟩
      simp [hnone] at hsome
    have hfind : ((s.processed.insert key now).find? key).isSome = true := by
      simp [Table.find?_insert_self hnone]
    have hme : Holds key (past i ++ [(s, { s with processed := s.processed.insert key now })]) :=
      holds_append.mpr (.inr ⟨hnone, hfind⟩)
    have honly : ∀ j, Holds key (Function.update past i
        (past i ++ [(s, { s with processed := s.processed.insert key now })]) j) → j = i := by
      intro j hj
      by_contra hne
      rw [hat j hne] at hj
      exact hnobody j hj
    refine ⟨⟨?_, ?_⟩, ?_⟩
    · intro j k hj hk
      exact (honly j hj).trans (honly k hk).symm
    · refine ⟨fun _ => ⟨i, ?_⟩, fun _ => hfind⟩
      simpa using hme
    · intro j ls' _ hdisjoint
      refine ⟨rfl, rfl, fun h => absurd h (hnobody j), fun h => absurd h (hdisjoint _ hlock), fun _ => hfind, ?_⟩
      intro h
      simp [h] at hfind
  · -- the delivery that marked the event goes on
    have hsome : (s.processed.find? key).isSome = true := hmarked.mpr ⟨i, hheld⟩
    have hsame : ∀ j, Holds key (Function.update past i (past i ++ [(s, t)]) j) ↔ Holds key (past j) := by
      intro j
      by_cases hj : j = i
      · subst hj
        simp [holds_append_same hprocessed]
      · rw [hat j hj]
    refine ⟨⟨?_, ?_⟩, ?_⟩
    · intro j k hj hk
      exact hone j k ((hsame j).mp hj) ((hsame k).mp hk)
    · rw [hprocessed]
      simpa only [hsame] using hmarked
    · intro j ls' hj _
      refine ⟨hws, hprefs, fun h => absurd (hone j i h hheld) hj, fun _ => hprocessed, ?_, ?_⟩
      · rw [hprocessed]
        exact id
      · intro h
        rw [hprocessed] at h
        simp [h] at hsome

def Delivery.item (d : Delivery) (envelope : EventEnvelope) (userId : Uuid) : ItemRow :=
  ⟨d.itemId userId, userId, render envelope⟩

theorem ifEnabled_insertDelivery_run (enabled : Bool) (row : DeliveryRow) (s : Db) :
    ∃ t, (ifEnabled enabled (insertDelivery row)).run s = .ok ((), t) ∧ t.workspace = s.workspace ∧
      t.preferences = s.preferences ∧ t.processed = s.processed ∧ t.items = s.items := by
  cases enabled with
  | false => exact ⟨s, rfl, rfl, rfl, rfl, rfl⟩
  | true => exact ⟨{ s with deliveries := s.deliveries ++ [row] }, rfl, rfl, rfl, rfl, rfl⟩

theorem deliverToUser_off {d : Delivery} {content : Rendered} {u : Uuid} {s : Db}
    (h : ¬(s.enabled u "in_app" = true ∨ s.enabled u "email" = true)) :
    (deliverToUser d content u).run s = .ok (false, s) := by
  simp only [not_or] at h
  simp only [deliverToUser, Prog.run_query_bind, if_pos h]
  rfl

theorem deliverToUser_on {d : Delivery} {content : Rendered} {u : Uuid} {s : Db}
    (h : s.enabled u "in_app" = true ∨ s.enabled u "email" = true) :
    ∃ t, (deliverToUser d content u).run s = .ok (true, t) ∧ t.workspace = s.workspace ∧
      t.preferences = s.preferences ∧ t.processed = s.processed ∧
        t.items = s.items ++ [⟨d.itemId u, u, content⟩] := by
  have hon : ¬(¬s.enabled u "in_app" = true ∧ ¬s.enabled u "email" = true) := fun hoff => h.elim hoff.1 hoff.2
  obtain ⟨v, hv, hws, hprefs, hprocessed, hitems⟩ := ifEnabled_insertDelivery_run (s.enabled u "in_app")
    ⟨d.inAppId u, d.itemId u, "in_app", "delivered"⟩ { s with items := s.items ++ [⟨d.itemId u, u, content⟩] }
  obtain ⟨t, ht, hws', hprefs', hprocessed', hitems'⟩ := ifEnabled_insertDelivery_run (s.enabled u "email")
    ⟨d.emailId u, d.itemId u, "email", s.emailStatus u (d.clock u)⟩ v
  refine ⟨t, ?_, hws'.trans hws, hprefs'.trans hprefs, hprocessed'.trans hprocessed, hitems'.trans hitems⟩
  simp only [deliverToUser, Prog.run_query_bind, if_neg hon, insertItem, Prog.run_execute_bind_ok]
  refine ⟨trivial, Prog.run_bind_ok.mpr ⟨(), v, hv, Prog.run_bind_ok.mpr ⟨(), t, ht, rfl⟩⟩⟩

section
variable [TimeFormats]

def Db.receivers (db : Db) (envelope : EventEnvelope) : List Uuid :=
  db.candidates.filter fun u => db.Receives envelope u

/-- Everybody who may receive the event has one new item, and nobody else has one. -/
def Notified (deliveries : ι → Delivery) (envelope : EventEnvelope) (db t : Db) : Prop :=
  ∃ i, t.items = db.items ++ (db.receivers envelope).map ((deliveries i).item envelope)

def Answered (deliveries : ι → Delivery) (envelope : EventEnvelope) (db : Db) (_ : IngestResponse) (past : Past Db)
    (t : Db) : Prop :=
  (t.processed.find? envelope.idempotencyKey).isSome = true ∧
    (Holds envelope.idempotencyKey past → Notified deliveries envelope db t)

def Failed (envelope : EventEnvelope) (_ : AppError) (past : Past Db) (_ : Db) : Prop :=
  ¬Holds envelope.idempotencyKey past

variable {deliveries : ι → Delivery} {envelope : EventEnvelope} {db s : Db} {past : Past Db}

theorem receives_iff {required : PermissionId} (hrequired : requiredPermissionForEvent envelope = some required)
    {u : Uuid} (hu : u ∈ db.candidates) : db.Receives envelope u ↔ u ≠ envelope.onBehalfOf ∧
      db.mayReceive u required = true ∧ (db.enabled u "in_app" = true ∨ db.enabled u "email" = true) := by
  simp [Db.Receives, hu, hrequired]

/-- The members that are left: `done` are those who have been dealt with. -/
theorem safe_notifyMembers (i : ι) {required : PermissionId}
    (hrequired : requiredPermissionForEvent envelope = some required) (users done : List Uuid)
    (hsplit : db.candidates = done ++ users) (hheld : Holds envelope.idempotencyKey past)
    (hws : s.workspace = db.workspace) (hprefs : s.preferences = db.preferences)
    (hmarked : (s.processed.find? envelope.idempotencyKey).isSome = true)
    (hitems : s.items = db.items ++ (done.filter fun u => db.Receives envelope u).map ((deliveries i).item envelope))
    (notified skipped : ℕ) :
    (notifyMembers (deliveries i) envelope required users notified skipped).Safe (Loose envelope.idempotencyKey)
      (pledge envelope.idempotencyKey) (Answered deliveries envelope db) (Failed envelope) past .start s := by
  induction users generalizing past s done notified skipped with
  | nil =>
    rintro t ⟨_, _, hstill, _⟩
    obtain rfl := hstill hheld
    refine ⟨hmarked, fun _ => ⟨i, ?_⟩⟩
    rw [hitems, Db.receivers, hsplit, List.append_nil]
  | cons u us ih =>
    have hu : u ∈ db.candidates := by simp [hsplit]
    have hsplit' : db.candidates = (done ++ [u]) ++ us := by simp [hsplit]
    have henabled : ∀ channel, s.enabled u channel = db.enabled u channel := by
      intro channel
      simp only [Db.enabled, hprefs]
    -- the member gets no item
    have hskip : ¬db.Receives envelope u → ∀ past', Holds envelope.idempotencyKey past' → ∀ n k,
        (notifyMembers (deliveries i) envelope required us n k).Safe (Loose envelope.idempotencyKey)
          (pledge envelope.idempotencyKey) (Answered deliveries envelope db) (Failed envelope) past' .start s := by
      intro hnot past' hheld' n k
      refine ih (done ++ [u]) hsplit' hheld' hws hprefs hmarked ?_ n k
      simp [hitems, hnot]
    have hsame : Holds envelope.idempotencyKey (past ++ [(s, s)]) := (holds_append_same rfl).mpr hheld
    have hstill : ∀ past', Holds envelope.idempotencyKey past' → ∀ ls t,
        (pledge envelope.idempotencyKey).rely past' ls s t → t = s := fun _ h ls t hrely => hrely.2.2.1 h
    unfold notifyMembers
    split_ifs with hactor
    · refine hskip ?_ past hheld _ _
      rw [receives_iff hrequired hu]
      exact fun h => h.1 hactor
    · refine Job.Safe.transaction_alone (hstill past hheld) (not_not.mpr hheld) ?_ ?_
      · intro p t hload
        rw [loadPrincipal_run, principal_congr hws] at hload
        cases hp : db.principal u with
        | error e =>
          rw [hp] at hload
          cases hload
        | ok q =>
          rw [hp] at hload
          cases hload
          have hmay : db.mayReceive u required = isAllowed p required := by simp only [Db.mayReceive, hp]
          refine ⟨fun _ => .inl rfl, ?_⟩
          dsimp only
          split_ifs with hallowed
          · refine Job.Safe.transaction_alone (hstill _ hsame) (not_not.mpr hsame) ?_ ?_
            · intro b t hrun
              by_cases hon : s.enabled u "in_app" = true ∨ s.enabled u "email" = true
              · obtain ⟨v, hv, hws', hprefs', hprocessed, hnew⟩ := @deliverToUser_on (deliveries i)
                  (render envelope) _ _ hon
                rw [hv] at hrun
                cases hrun
                have hreceives : db.Receives envelope u := by
                  rw [receives_iff hrequired hu, hmay, ← henabled, ← henabled]
                  exact ⟨hactor, hallowed, hon⟩
                refine ⟨fun _ => .inr (.inr ⟨hsame, hws', hprefs', hprocessed⟩), ?_⟩
                refine ih (done ++ [u]) hsplit' ((holds_append_same hprocessed).mpr hsame) (hws'.trans hws)
                  (hprefs'.trans hprefs) (by rw [hprocessed]; exact hmarked) ?_ _ _
                rw [hnew, hitems]
                simp [hreceives, Delivery.item]
              · rw [deliverToUser_off hon] at hrun
                cases hrun
                refine ⟨fun _ => .inl rfl, hskip ?_ _ ((holds_append_same rfl).mpr hsame) _ _⟩
                rw [receives_iff hrequired hu, ← henabled, ← henabled]
                exact fun h => hon h.2.2
            · intro e hrun
              by_cases hon : s.enabled u "in_app" = true ∨ s.enabled u "email" = true
              · obtain ⟨v, hv, _⟩ := @deliverToUser_on (deliveries i) (render envelope) _ _ hon
                rw [hv] at hrun
                cases hrun
              · rw [deliverToUser_off hon] at hrun
                cases hrun
          · refine hskip ?_ _ hsame _ _
            rw [receives_iff hrequired hu, hmay]
            exact fun h => hallowed h.2.1
      · intro e hload
        rw [loadPrincipal_run, principal_congr hws] at hload
        have hmay : db.mayReceive u required = false := by
          unfold Db.mayReceive
          cases hp : db.principal u with
          | error e => rfl
          | ok q =>
            rw [hp] at hload
            cases hload
        refine hskip ?_ past hheld _ _
        rw [receives_iff hrequired hu, hmay]
        simp

/-- A delivery that finds no mapping of the event has nobody to notify. -/
theorem receivers_of_unmapped (h : requiredPermissionForEvent envelope = none) : db.receivers envelope = [] := by
  rw [Db.receivers, List.filter_eq_nil_iff]
  intro u _
  simp [Db.Receives, h]

/-- The delivery that marks the event on top of `db`, and then notifies the members. -/
theorem safe_ingest (i : ι) :
    (ingest (deliveries i) envelope).Safe (Loose envelope.idempotencyKey) (pledge envelope.idempotencyKey)
      (Answered deliveries envelope db) (Failed envelope) [] .start db := by
  have hnothing : ¬Holds envelope.idempotencyKey [] := by simp [Holds]
  refine Job.Safe.transaction (x := .start) ?_ ?_
  · refine Prog.Safe.query_bind fun u hu _ => ?_
    split_ifs with hexisting
    · -- a duplicate: the event has been marked by another delivery
      intro t ht
      refine ⟨.inl rfl, ?_⟩
      rintro v ⟨_, _, _, _, hsome, _⟩
      refine ⟨hsome (ht.2.2.2.2.1 hexisting), fun hheld => absurd ((holds_append_same rfl).mp hheld) hnothing⟩
    · refine Prog.Safe.execute_bind fun v hv _ hcheck => ?_
      have hfree : v.processed.find? envelope.idempotencyKey = none := by
        by_contra hne
        have hsome : (v.processed.find? envelope.idempotencyKey).isSome = true := Option.ne_none_iff_isSome.mp hne
        change (if (v.processed.find? envelope.idempotencyKey).isSome then _ else _) = Except.ok () at hcheck
        rw [if_pos hsome] at hcheck
        cases hcheck
      -- at the commit the place in the index is still free, and nobody has written an item since the start
      have hcommit : ∀ t, (pledge envelope.idempotencyKey).rely [] [.processed envelope.idempotencyKey] v t →
          t.processed.find? envelope.idempotencyKey = none ∧ t.workspace = db.workspace ∧
            t.preferences = db.preferences ∧ t.items = db.items := by
        intro t ht
        have hfind : t.processed.find? envelope.idempotencyKey = none := by
          rw [ht.2.2.2.1 (List.mem_singleton_self _), hfree]
        have hall := (pledge envelope.idempotencyKey).trans ((pledge envelope.idempotencyKey).trans
          ((pledge envelope.idempotencyKey).free hu) ((pledge envelope.idempotencyKey).free hv))
          ((pledge envelope.idempotencyKey).free ht)
        exact ⟨hfind, hall.1, hall.2.1, hall.2.2.2.2.2 hfind⟩
      have hmarks : ∀ t : Db, t.processed.find? envelope.idempotencyKey = none →
          ((t.processed.insert envelope.idempotencyKey (deliveries i).now).find?
            envelope.idempotencyKey).isSome = true := by
        intro t ht
        simp [Table.find?_insert_self ht]
      unfold readMembers
      cases hrequired : requiredPermissionForEvent envelope with
      | none =>
        intro t ht
        obtain ⟨hfind, _, _, hitems⟩ := hcommit t ht
        refine ⟨.inr (.inl ⟨hfind, List.mem_singleton_self _, _, rfl⟩), ?_⟩
        rintro w ⟨_, _, hstill, _, _, _⟩
        obtain rfl := hstill (holds_append.mpr (.inr ⟨hfind, hmarks t hfind⟩))
        refine ⟨hmarks t hfind, fun _ => ⟨i, ?_⟩⟩
        rw [receivers_of_unmapped hrequired, List.map_nil, List.append_nil]
        exact hitems
      | some required =>
        refine Prog.Safe.query_bind fun w hw _ => ?_
        intro t ht
        obtain ⟨hfind, hws, hprefs, hitems⟩ := hcommit t ((pledge envelope.idempotencyKey).trans hw ht)
        obtain ⟨_, hwsw, _, _⟩ := hcommit w hw
        refine ⟨.inr (.inl ⟨hfind, List.mem_singleton_self _, _, rfl⟩), ?_⟩
        refine safe_notifyMembers (s := { t with
          processed := t.processed.insert envelope.idempotencyKey (deliveries i).now }) i hrequired _ [] ?_
          (holds_append.mpr (.inr ⟨hfind, hmarks t hfind⟩)) hws hprefs (hmarks t hfind) (by simpa using hitems) 0 0
        have hcandidates : w.candidates = db.candidates := by simp only [Db.candidates, hwsw]
        exact hcandidates.symm
  · intro e u _
    exact fun _ _ => hnothing

/-- New items of the event: one for everybody who may receive it, and none for anybody else. -/
def EachOnce (envelope : EventEnvelope) (db : Db) (new : List ItemRow) : Prop :=
  (∀ x ∈ new, x.content = render envelope) ∧
    ∀ u, new.countP (fun x => x.userId = u) = if db.Receives envelope u then 1 else 0

theorem eachOnce_receivers (d : Delivery) : EachOnce envelope db ((db.receivers envelope).map (d.item envelope)) := by
  constructor
  · intro x hx
    obtain ⟨u, _, rfl⟩ := List.mem_map.mp hx
    rfl
  · intro u
    have hnodup : (db.receivers envelope).Nodup := by
      have hkeys : db.candidates.Sublist db.workspace.memberships.keys := List.filter_sublist.map _
      exact (hkeys.nodup db.workspace.memberships.nodup).filter _
    have hmem : u ∈ db.receivers envelope ↔ db.Receives envelope u := by
      simp only [Db.receivers, List.mem_filter, decide_eq_true_eq, and_iff_right_iff_imp]
      exact fun h => h.1
    have hcount : ((db.receivers envelope).map (d.item envelope)).countP (fun x => x.userId = u) =
        (db.receivers envelope).count u := by
      rw [List.countP_map, List.count]
      rfl
    rw [hcount]
    split_ifs with hu
    · exact List.count_eq_one_of_mem hnodup (hmem.mpr hu)
    · exact List.count_eq_zero.mpr fun h => hu (hmem.mp h)

/-- When every delivery has ended and one has answered, everybody who may receive the event has exactly one new
item and nobody else has one, if the delivery whose commit marks the event is refused nothing after that commit and
does not crash. -/
theorem notifications_exactly_once [DecidableEq ι] {c : Jobs ι Db RowKey AppError IngestResponse}
    (hnew : db.processed.find? envelope.idempotencyKey = none)
    (hrun : Jobs.Reached (Loose envelope.idempotencyKey) (fun i => ingest (deliveries i) envelope) db c)
    (hended : ∀ i, c.tasks i = none) {i : ι} {a : IngestResponse} (hanswer : (i, .ok a) ∈ c.log) :
    ∃ new, c.db.items = db.items ++ new ∧ EachOnce envelope db new := by
  have hstart : OneHolder envelope.idempotencyKey (fun _ : ι => []) db := by
    constructor
    · rintro j k ⟨x, hx, _⟩
      cases hx
    · simp [hnew, Holds]
  obtain ⟨hsettled, _, hmarked⟩ := Jobs.Reached.settled hrun (fit_pledge envelope.idempotencyKey)
    safe_ingest hstart
  obtain ⟨_, hthere⟩ := hsettled.answered i a hanswer
  obtain ⟨j, hj⟩ := hmarked.mp (hthere c.db ((pledge envelope.idempotencyKey).refl _ _ _)).1
  rcases hsettled.ended j (hended j) with ⟨r, hr⟩ | hloose
  · cases r with
    | ok b =>
      obtain ⟨k, hitems⟩ := ((hsettled.answered j b hr).2 c.db ((pledge envelope.idempotencyKey).refl _ _ _)).2 hj
      exact ⟨_, hitems, eachOnce_receivers _⟩
    | error e => exact absurd hj ((hsettled.failed j e hr).2 c.db ((pledge envelope.idempotencyKey).refl _ _ _))
  · exact absurd hj hloose

end

def dealEvent : EventEnvelope where
  idempotencyKey := "deal-7-changed"
  context := .sales
  aggregate := "deal"
  eventType := "updated"
  onBehalfOf := 2
  payload := .null

def oneOwner : Db where
  workspace := { Workspace.Store.empty with memberships := Table.empty.insert 1 {
    id := 11
    publicId := "mem_11"
    role := .owner
    roleId := none
    teamId := none
    departmentId := none
    policyVersion := 1
    status := .active
    suspendedAt := none
    revokedAt := none } }
  preferences := .empty
  processed := .empty
  items := []
  deliveries := []

def deliveryNo (n : ℕ) : Delivery where
  now := n
  itemId u := 100 * n + u
  inAppId u := 1000 * n + u
  emailId u := 2000 * n + u
  clock _ := ⟨43200, 0⟩

/-- The first delivery crashes after it has marked the event; the second finds it marked, and the owner is never
notified. -/
theorem notifications_lost :
    letI := Authz.canonicalTimeFormats
    ∃ c : Jobs (Fin 2) Db RowKey AppError IngestResponse,
      Jobs.Reached (fun _ => True) (fun i => ingest (deliveryNo (i.val + 1)) dealEvent) oneOwner c ∧
        (∀ i, c.tasks i = none) ∧ (∃ i a, (i, .ok a) ∈ c.log) ∧ c.db.items = [] ∧
            oneOwner.Receives dealEvent 1 := by
  let := Authz.canonicalTimeFormats
  have hplay := Jobs.Reached.of_play (P := fun _ => True) (L := fun _ => true) (fun _ _ => trivial)
    (fun i : Fin 2 => ingest (deliveryNo (i.val + 1)) dealEvent) oneOwner
    [.advance 0, .advance 0, .advance 0, .advance 0, .crash 0, .advance 1, .advance 1, .advance 1]
    (fun c => Decidable.decide (∀ i, (c.tasks i).isNone) &&
      c.log.any (fun (r : Fin 2 × Except AppError IngestResponse) => r.2.toOption.isSome) && c.db.items.isEmpty)
    (by decide +kernel)
  obtain ⟨c, hc, hP⟩ := hplay
  simp only [Bool.and_eq_true, decide_eq_true_eq, Option.isNone_iff_eq_none, List.any_eq_true, List.isEmpty_iff] at hP
  obtain ⟨⟨htasks, ⟨i, r⟩, hlog, hok⟩, hitems⟩ := hP
  refine ⟨c, hc, htasks, ?_, hitems, by decide +kernel⟩
  cases r with
  | error e => cases hok
  | ok a => exact ⟨i, a, hlog⟩

/-- A delivery that crashes before it has marked the event leaves it to the next. -/
theorem notifications_exactly_once_retried :
    letI := Authz.canonicalTimeFormats
    ∃ c : Jobs (Fin 2) Db RowKey AppError IngestResponse,
      Jobs.Reached (Loose "deal-7-changed") (fun i => ingest (deliveryNo (i.val + 1)) dealEvent) oneOwner c ∧
        ∃ new, c.db.items = oneOwner.items ++ new ∧ EachOnce dealEvent oneOwner new := by
  let := Authz.canonicalTimeFormats
  have hL : ∀ past : Past Db, past.isEmpty = true → Loose "deal-7-changed" past := by
    rintro past hempty ⟨x, hx, _⟩
    rw [List.isEmpty_iff.mp hempty] at hx
    cases hx
  have hplay := Jobs.Reached.of_play hL (fun i : Fin 2 => ingest (deliveryNo (i.val + 1)) dealEvent) oneOwner
    ([.advance 0, .advance 0, .crash 0] ++ List.replicate 15 (.advance 1))
    (fun c => Decidable.decide (∀ i, (c.tasks i).isNone) &&
      c.log.any fun (r : Fin 2 × Except AppError IngestResponse) => r.2.toOption.isSome)
    (by decide +kernel)
  obtain ⟨c, hc, hP⟩ := hplay
  simp only [Bool.and_eq_true, decide_eq_true_eq, Option.isNone_iff_eq_none, List.any_eq_true] at hP
  obtain ⟨htasks, ⟨i, r⟩, hlog, hok⟩ := hP
  refine ⟨c, hc, ?_⟩
  cases r with
  | error e => cases hok
  | ok a => exact notifications_exactly_once rfl hc htasks hlog

end Noxara.Notifications
