import Noxara.AuditChain

/-! An audit log that is only appended to verifies when every row comes after the rows of its partition. -/
namespace Noxara.Governance

open Transaction
open Finance (Uuid Timestamp)
open AuditFormats

section
variable [AuditFormats]

/-- Rows in their order, each chained to the one before it and with the digest of what it says. -/
structure Chained (rows : List (Uuid × AuditRow)) : Prop where
  sorted : rows.Pairwise fun a b => orderKey a < orderKey b
  linked : HashChain.Linked (·.2.prevHash) (·.2.contentHash) "" rows
  digests : ∀ r ∈ rows,
    r.2.contentHash = digest (payloadText r.2.prevHash r.1 r.2.toAuditEntry r.2.createdAt)

theorem Chained.nil : Chained [] := by
  constructor
  · exact .nil
  · trivial
  · simp

theorem Chained.check {orgId : Uuid} {key : String} {s : AuditLog} (h : Chained (partitionRows orgId key s)) :
    (checkPartition orgId key s).ok = true := by
  have hrows : ∀ r ∈ verifySql orgId key s, ¬(!r.contentOk || !r.chainOk) = true := by
    intro r hr
    unfold verifySql at hr
    rw [HashChain.ascending_of_pairwise h.sorted] at hr
    obtain ⟨x, hx, rfl⟩ := List.mem_map.mp hr
    have hcontent : (verifyRow x).contentOk = true :=
      decide_eq_true (h.digests x.1 (HashChain.fst_mem_of_mem_lag hx))
    have hchain : (verifyRow x).chainOk = true := decide_eq_true (HashChain.linked_iff_lag.mp h.linked x hx)
    simp [hcontent, hchain]
  have hfind := List.find?_eq_none.mpr hrows
  simp only [checkPartition, hfind]

theorem verifyAll_ok {orgId : Uuid} {s : AuditLog} (h : ∀ key, (checkPartition orgId key s).ok = true) :
    (verifyAll orgId s).ok = true := by
  have hfold : ∀ (keys : List String) (acc : AuditVerifyResponse), acc.ok = true →
      (keys.foldl (fun acc key => acc.add key (checkPartition orgId key s)) acc).ok = true := by
    intro keys
    induction keys with
    | nil => exact fun acc hacc => hacc
    | cons key keys ih =>
      intro acc hacc
      refine ih _ ?_
      simp [AuditVerifyResponse.add, h key, hacc]
  exact hfold _ _ rfl

/-- The trigger chains a row that comes last. -/
theorem Chained.append {e : AuditEntry} {id : Uuid} {createdAt : Timestamp} {v : AuditLog}
    (h : Chained (partitionRows e.orgId (monthText createdAt) v))
    (hlast : ∀ r ∈ partitionRows e.orgId (monthText createdAt) v, orderKey r < toLex (createdAt, id)) :
    Chained (partitionRows e.orgId (monthText createdAt) v ++
      [(id, companyosAuditHashChain id e createdAt v)]) := by
  constructor
  · rw [List.pairwise_append]
    refine ⟨h.sorted, List.pairwise_singleton _ _, fun r hr r' hr' => ?_⟩
    obtain rfl := List.mem_singleton.mp hr'
    exact hlast r hr
  · rw [HashChain.linked_append]
    refine ⟨h.linked, ?_⟩
    simp only [companyosAuditHashChain, HashChain.latest_of_pairwise h.sorted]
    rfl
  · intro r hr
    rcases List.mem_append.mp hr with hr | hr
    · exact h.digests r hr
    · obtain rfl := List.mem_singleton.mp hr
      rfl

def Lock.entry? : Lock → Option Uuid
  | .entry id => some id
  | .advisory _ => none

/-- A statement with these locks inserts a row that comes after every row of its partition that the
transaction sees in `v`. -/
def Appending.Follows (a : Appending) (ks : List Lock) (v : AuditLog) : Prop :=
  ∀ k ∈ ks, ∀ id ∈ k.entry?, ∀ r ∈ partitionRows a.orgId (monthText a.startedAt) v,
    orderKey r < toLex (a.startedAt, id)

instance (a : Appending) (ks : List Lock) (v : AuditLog) : Decidable (a.Follows ks v) := by
  unfold Appending.Follows
  infer_instance

/-- The partitions whose lock a transaction holds stay, and so do the ids it inserted. -/
structure AuditRely (ls : List Lock) (s t : AuditLog) : Prop where
  part : ∀ orgId key, .advisory (advisoryKey orgId key) ∈ ls →
    partitionRows orgId key t = partitionRows orgId key s
  entry : ∀ id, .entry id ∈ ls → t.find? id = s.find? id

def auditTerms (a : Appending) : Terms AuditLog Lock where
  rely := AuditRely
  when x ks s := a.Follows ks (x.pend s)
  refl _ _ := ⟨fun _ _ _ => rfl, fun _ _ => rfl⟩
  trans h h' := ⟨fun o k hk => (h'.part o k hk).trans (h.part o k hk),
    fun id hid => (h'.entry id hid).trans (h.entry id hid)⟩
  anti hls h := ⟨fun o k hk => h.part o k (hls _ hk), fun id hid => h.entry id (hls _ hid)⟩

structure Appended (a : Appending) (x : Trail AuditLog Lock) (s : AuditLog) (added : List (Uuid × AuditRow)) :
    Prop where
  rows : ∀ t, (∀ r ∈ added, t.find? r.1 = none) → (x.pend t).rows = t.rows ++ added
  free : ∀ r ∈ added, s.find? r.1 = none
  held : ∀ r ∈ added, .entry r.1 ∈ x.locks ∧ .advisory (advisoryKey a.orgId (monthText a.startedAt)) ∈ x.locks
  part : ∀ r ∈ added, r.2.orgId = a.orgId ∧ r.2.partitionKey = monthText a.startedAt
  chained : Chained (partitionRows a.orgId (monthText a.startedAt) s) →
    Chained (partitionRows a.orgId (monthText a.startedAt) s ++ added)

variable {a : Appending} {x : Trail AuditLog Lock} {s t : AuditLog} {added : List (Uuid × AuditRow)}

theorem Appended.start (a : Appending) (s : AuditLog) : Appended a .start s [] := by
  constructor
  · intro t _
    simp [Trail.start]
  · simp
  · simp
  · simp
  · simp

theorem Appended.rely (h : Appended a x s added) (hs : AuditRely x.locks s t) : Appended a x t added where
  rows := h.rows
  free r hr := (hs.entry r.1 (h.held r hr).1).trans (h.free r hr)
  held := h.held
  part := h.part
  chained hc := by
    cases added with
    | nil => simpa using hc
    | cons r rs =>
      -- who has appended holds the lock of the partition
      rw [hs.part _ _ (h.held r List.mem_cons_self).2] at hc ⊢
      exact h.chained hc

theorem Appended.rows_now (h : Appended a x s added) : (x.pend s).rows = s.rows ++ added :=
  h.rows s h.free

theorem Appended.partition_pend (h : Appended a x s added) :
    partitionRows a.orgId (monthText a.startedAt) (x.pend s) =
      partitionRows a.orgId (monthText a.startedAt) s ++ added := by
  have hall : (added.filter fun r => r.2.orgId = a.orgId ∧ r.2.partitionKey = monthText a.startedAt) = added := by
    rw [List.filter_eq_self]
    intro r hr
    simpa using h.part r hr
  simp only [partitionRows, h.rows_now, List.filter_append, hall]

theorem Appended.partition_ne (h : Appended a x s added) {orgId : Uuid} {key : String}
    (hne : ¬(orgId = a.orgId ∧ key = monthText a.startedAt)) :
    partitionRows orgId key (x.pend s) = partitionRows orgId key s := by
  have hnone : (added.filter fun r => r.2.orgId = orgId ∧ r.2.partitionKey = key) = [] := by
    rw [List.filter_eq_nil_iff]
    intro r hr
    obtain ⟨horg, hkey⟩ := h.part r hr
    have := hne
    simp only [horg, hkey, decide_eq_true_eq]
    rintro ⟨rfl, rfl⟩
    exact this ⟨rfl, rfl⟩
  simp only [partitionRows, h.rows_now, List.filter_append, hnone, List.append_nil]

theorem Appended.find?_pend (h : Appended a x s added) {id : Uuid} (hid : ∀ r ∈ added, r.1 ≠ id) :
    (x.pend s).find? id = s.find? id := by
  have hnone : added.find? (fun r => r.1 = id) = none := by
    rw [List.find?_eq_none]
    intro r hr
    simpa using hid r hr
  simp [Table.find?, h.rows_now, List.find?_append, hnone]

/-- One more row. -/
theorem Appended.insert (h : Appended a x s added) {id : Uuid} {e : AuditEntry}
    (horg : e.orgId = a.orgId) (hid : id ∉ (x.pend s).keys)
    (hfollows : ∀ r ∈ partitionRows a.orgId (monthText a.startedAt) (x.pend s),
      orderKey r < toLex (a.startedAt, id)) :
    Appended a
      (x.push (fun _ => [.advisory (advisoryKey e.orgId (monthText a.startedAt)), .entry id])
        (fun v s => s.insert id (companyosAuditHashChain id e a.startedAt v)) s)
      s (added ++ [(id, companyosAuditHashChain id e a.startedAt (x.pend s))]) := by
  have hkeys : id ∉ s.keys ∧ ∀ r ∈ added, r.1 ≠ id := by
    simp only [Table.keys, h.rows_now, List.map_append, List.mem_append, not_or] at hid
    refine ⟨hid.1, fun r hr he => hid.2 ?_⟩
    rw [← he]
    exact List.mem_map_of_mem hr
  constructor
  · intro t ht
    have hrows := h.rows t fun r hr => ht r (List.mem_append_left _ hr)
    have hfree : (x.pend t).find? id = none := by
      have hnone := ht _ (List.mem_append_right _ (List.mem_singleton.mpr rfl))
      simp only [Table.find?_eq_none, Table.keys, hrows, List.map_append, List.mem_append, not_or]
      refine ⟨Table.find?_eq_none.mp hnone, fun hmem => ?_⟩
      obtain ⟨r, hr, he⟩ := List.mem_map.mp hmem
      exact hkeys.2 r hr he
    change ((x.pend t).insert id _).rows = _
    rw [Table.rows_insert hfree, hrows, List.append_assoc]
  · intro r hr
    rcases List.mem_append.mp hr with hr | hr
    · exact h.free r hr
    · obtain rfl := List.mem_singleton.mp hr
      exact Table.find?_eq_none.mpr hkeys.1
  · intro r hr
    rcases List.mem_append.mp hr with hr | hr
    · exact ⟨List.mem_append_right _ (h.held r hr).1, List.mem_append_right _ (h.held r hr).2⟩
    · obtain rfl := List.mem_singleton.mp hr
      simp [Trail.push, horg]
  · intro r hr
    rcases List.mem_append.mp hr with hr | hr
    · exact h.part r hr
    · obtain rfl := List.mem_singleton.mp hr
      exact ⟨horg, rfl⟩
  · intro hc
    have hnow := h.chained hc
    rw [← h.partition_pend, ← horg] at hnow
    have hlast := @Chained.append _ _ id _ _ hnow (by rwa [horg])
    rwa [horg, h.partition_pend, List.append_assoc] at hlast

theorem safe_insertAuditEntry (h : Appended a x s added) (id : Uuid) (e : AuditEntry) :
    (insertAuditEntry a.orgId a.startedAt id e).Safe (auditTerms a)
      (fun y _ u => ∃ added, Appended a y u added) x s := by
  rw [← bind_pure (insertAuditEntry a.orgId a.startedAt id e)]
  unfold insertAuditEntry
  refine Prog.Safe.execute_bind fun u hu hfollows hcheck => ?_
  split_ifs at hcheck with horg hid
  have hnow := h.rely hu
  have hdone := hnow.insert (not_not.mp horg) hid (hfollows (.entry id) (by simp) id rfl)
  exact Prog.Safe.pure fun w hw => ⟨_, hdone.rely hw⟩

theorem safe_append (a : Appending) (s : AuditLog) :
    a.body.Safe (auditTerms a) (fun y _ u => ∃ added, Appended a y u added) .start s := by
  have hgo : ∀ (entries : List (Uuid × AuditEntry)) (x : Trail AuditLog Lock) (s : AuditLog),
      (∃ added, Appended a x s added) →
      (Prog.each (fun r => insertAuditEntry a.orgId a.startedAt r.1 r.2) entries).Safe (auditTerms a)
        (fun y _ u => ∃ added, Appended a y u added) x s := by
    intro entries
    induction entries with
    | nil =>
      rintro x s ⟨added, h⟩
      exact Prog.Safe.pure fun u hu => ⟨added, h.rely hu⟩
    | cons r rs ih =>
      rintro x s ⟨added, h⟩
      refine Prog.Safe.bind (f := fun _ => Prog.each _ rs) ?_
      exact (safe_insertAuditEntry h r.1 r.2).mono fun y _ u hy => ih y u hy
  exact hgo a.entries .start s ⟨[], .start a s⟩

variable {ι : Type} [DecidableEq ι] {ops : ι → Appending}

/-- What one transaction commits leaves the partitions and the ids that another holds. -/
theorem Appended.auditRely (h : Appended a x s added) {ls : List Lock} (hls : ∀ k ∈ x.locks, k ∉ ls) :
    AuditRely ls s (x.pend s) := by
  constructor
  · intro orgId key hk
    by_cases hpart : orgId = a.orgId ∧ key = monthText a.startedAt
    · obtain ⟨rfl, rfl⟩ := hpart
      cases added with
      | nil => simp [h.partition_pend]
      | cons r rs => exact absurd hk (hls _ (h.held r List.mem_cons_self).2)
    · exact h.partition_ne hpart
  · intro id hid
    refine h.find?_pend fun r hr he => ?_
    subst he
    exact hls _ (h.held r hr).1 hid

/-- Every `INSERT` of the step comes after the rows of its partition that its transaction sees. -/
def InsertsLast (ops : ι → Appending) (c d : Config ι AuditLog Lock AuditError Unit) : Prop :=
  ∀ i x ks, c.Asks (fun i => (ops i).body) d i x ks → (ops i).Follows ks (x.pend c.db)

/-- An audit log that grows by rows each of which comes last in its partition verifies, whatever
transactions append side by side. -/
theorem audit_verifies {c : Config ι AuditLog Lock AuditError Unit}
    (h : ReachableWhere (InsertsLast ops) (fun i => (ops i).body) .empty c) (orgId : Uuid) :
    (verifyAll orgId c.db).ok = true ∧ ∀ key, (checkPartition orgId key c.db).ok = true := by
  have hinv : ∀ orgId key, Chained (partitionRows orgId key c.db) := by
    refine h.safe_invariant (T := fun i => auditTerms (ops i))
      (Q := fun i y _ u => ∃ added, Appended (ops i) y u added) (I := fun s => ∀ o k, Chained (partitionRows o k s))
      (fun i => safe_append (ops i) .empty) ?_ ?_ ?_ ?_
    · exact fun c d i x ks hK hasks => hK i x ks hasks
    · rintro i j x _ ls s _ ⟨added, happ⟩ hls
      exact happ.auditRely hls
    · exact fun _ _ => .nil
    · rintro i x _ s hs ⟨added, happ⟩ o k
      by_cases hpart : o = (ops i).orgId ∧ k = monthText (ops i).startedAt
      · obtain ⟨rfl, rfl⟩ := hpart
        rw [happ.partition_pend]
        exact happ.chained (hs _ _)
      · rw [happ.partition_ne hpart]
        exact hs o k
  have hcheck : ∀ key, (checkPartition orgId key c.db).ok = true := fun key => (hinv orgId key).check
  exact ⟨verifyAll_ok hcheck, hcheck⟩

end

/-- The digested text of the rows below. -/
def assignedText (prev id second : String) : String :=
  prev ++ "|00000000-0000-0000-0000-00000000000" ++ id ++ "|00000000-0000-0000-0000-000000000009" ++
    "|00000000-0000-0000-0000-000000000004|00000000-0000-0000-0000-000000000004" ++
    "|0|role.assigned|membership|mem_1|{}|1970-01-01 00:00:0" ++ second ++ "+00"

def knownDigests : List (String × String) :=
  [(assignedText "" "5" "2", "b8b573f81e451a6fa6aaeb0b3c70e4b3910e7441658107dcae4fa0bbd5cf76b9"),
    (assignedText "b8b573f81e451a6fa6aaeb0b3c70e4b3910e7441658107dcae4fa0bbd5cf76b9" "6" "1",
      "45ed9622c83f689e393d57f1ec5e814dc35c66fa525f603abc15b29bfefce31b"),
    (assignedText "" "5" "1", "8500476c9a10cf8cd4c9cc21517ab39a62c4b168fb8275722f4200b63e32db2a"),
    (assignedText "8500476c9a10cf8cd4c9cc21517ab39a62c4b168fb8275722f4200b63e32db2a" "6" "2",
      "3463450e44553322a98da27f7d4c1f4d275722170b654be031ed3144a1b32f7b")]

/-- In the first seconds of 1970, for the rows below. -/
@[reducible] def epochFormats : AuditFormats where
  uuidText := Finance.hyphenated
  timestampText t := "1970-01-01 00:00:0" ++ toString t ++ "+00"
  timestampDisplay t := "1970-01-01 00:00:0" ++ toString t ++ " UTC"
  jsonText _ := "{}"
  monthText _ := "1970-01"
  digest s := (knownDigests.lookup s).getD ""
  hashTextExtended s := s.length

def roleAssigned (startedAt : Timestamp) (id : Uuid) : Appending :=
  auditMutation startedAt id 9 4 "role.assigned" "membership" "mem_1" (.object [])

/-- Two writers, the second of which starts and commits after the first. -/
def inOrder : Fin 2 → Appending := sideBySide (roleAssigned 1 5) (roleAssigned 2 6)

theorem audit_verifies_in_order :
    letI := epochFormats
    ∃ c, Reachable (fun i => (inOrder i).body) .empty c ∧ c.db.keys = [5, 6] ∧ (verifyAll 9 c.db).ok = true := by
  let := epochFormats
  have hmeets : ∀ c d : Config (Fin 2) AuditLog Lock AuditError Unit,
      decide (∀ i, ∀ t ∈ (c.threads i).thread?, (inOrder i).Follows (t.prog.asks (t.view c.db)) (t.view c.db)) =
        true → InsertsLast inOrder c d := by
    rintro c d hP i x ks ⟨t, l, w, n, hrun, hprog, -, -, hpend, rfl, -⟩
    have hfollows := of_decide_eq_true hP i t (by rw [hrun]; rfl)
    rw [hprog] at hfollows
    rw [hpend]
    exact hfollows
  obtain ⟨c, hc, hkeys⟩ := ReachableWhere.of_play (fun i => (inOrder i).body) .empty _
    (fun c => c.db.keys = [5, 6]) hmeets (Move.through left 1 ++ Move.through right 1) (by decide +kernel)
  exact ⟨c, hc.reachable, of_decide_eq_true hkeys, (audit_verifies hc 9).1⟩

/-- Two writers, the second of which starts first. -/
def outOfOrder : Fin 2 → Appending := sideBySide (roleAssigned 2 5) (roleAssigned 1 6)

/-- A log that is only appended to does not verify when a writer that started earlier appends later. -/
theorem audit_false_alarm :
    letI := epochFormats
    ∃ c, Reachable (fun i => (outOfOrder i).body) .empty c ∧ verifyAll 9 c.db = ⟨false, 1, 2,
      some "[1970-01] prev_hash chain break at entry 00000000-0000-0000-0000-000000000006 (1970-01-01 00:00:01 UTC)"⟩ := by
  let := epochFormats
  obtain ⟨c, hc, hbreak⟩ := Reachable.of_play (fun i => (outOfOrder i).body) .empty
    (Move.through left 1 ++ Move.through right 1)
    (fun c => verifyAll 9 c.db = ⟨false, 1, 2,
      some "[1970-01] prev_hash chain break at entry 00000000-0000-0000-0000-000000000006 (1970-01-01 00:00:01 UTC)"⟩)
    (by decide +kernel)
  exact ⟨c, hc, of_decide_eq_true hbreak⟩

end Noxara.Governance
