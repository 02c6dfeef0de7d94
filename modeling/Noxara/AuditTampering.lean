import Noxara.AuditVerified

/-! Changes of an audit log behind the back of its trigger, and which of them the verifier finds. -/
namespace Noxara.Governance

open Transaction
open Finance (Uuid Timestamp)
open AuditFormats

section
variable [AuditFormats]

/-- The texts of identifiers, instants and digests tell them apart and have no bar; a digest is not empty.
SHA-256 is taken to have no collisions. -/
class FaithfulFormats : Prop where
  uuidText_inj : ∀ u v : Uuid, uuidText u = uuidText v → u = v
  uuidText_bar : ∀ u : Uuid, '|' ∉ (uuidText u).toList
  timestampText_inj : ∀ t u : Timestamp, timestampText t = timestampText u → t = u
  timestampText_bar : ∀ t : Timestamp, '|' ∉ (timestampText t).toList
  digest_inj : ∀ a b : String, digest a = digest b → a = b
  digest_bar : ∀ a : String, '|' ∉ (digest a).toList
  digest_ne : ∀ a : String, digest a ≠ ""

/-- A row with other hashed columns and the stored hashes as they were. -/
def AuditRow.forge (row : AuditRow) (e : AuditEntry) (createdAt : Timestamp) : AuditRow :=
  { row with toAuditEntry := e, createdAt }

/-- `UPDATE` of one row, refused where the new id is taken. -/
def forgeRow (id newId : Uuid) (e : AuditEntry) (createdAt : Timestamp) (s : AuditLog) : AuditLog :=
  let rows := s.rows.map fun r => if r.1 = id then (newId, r.2.forge e createdAt) else r
  if h : (rows.map Prod.fst).Nodup then ⟨rows, h⟩ else s

/-- `DELETE` of one row. -/
def deleteRow (id : Uuid) (s : AuditLog) : AuditLog := s.filter fun k _ => decide (k ≠ id)

/-- The free columns as they stand in the digested text. -/
def AuditEntry.freeText (e : AuditEntry) : String :=
  e.action ++ "|" ++ e.resourceType ++ "|" ++ e.resourceId ++ "|" ++ jsonText e.metadata

/-- The change does no more than move text between the free columns, over the bars that separate them. -/
structure MovesBars (id : Uuid) (row : AuditRow) (newId : Uuid) (e : AuditEntry) (createdAt : Timestamp) : Prop where
  id : newId = id
  orgId : e.orgId = row.orgId
  actorUserId : e.actorUserId = row.actorUserId
  actorOnBehalfOf : e.actorOnBehalfOf = row.actorOnBehalfOf
  actorIsAi : e.actorIsAi = row.actorIsAi
  createdAt : createdAt = row.createdAt
  freeText : e.freeText = row.toAuditEntry.freeText

omit [AuditFormats] in
theorem toList_bar : "|".toList = ['|'] := by decide

theorem toList_payloadText (p : String) (id : Uuid) (e : AuditEntry) (t : Timestamp) :
    (payloadText p id e t).toList = p.toList ++ '|' :: ((uuidText id).toList ++ '|' ::
      ((uuidText e.orgId).toList ++ '|' :: ((uuidText e.actorUserId).toList ++ '|' ::
      ((uuidText e.actorOnBehalfOf).toList ++ '|' :: ((if e.actorIsAi then "1" else "0").toList ++ '|' ::
      (e.freeText.toList ++ '|' :: (timestampText t).toList)))))) := by
  unfold payloadText AuditEntry.freeText
  simp only [String.toList_append]
  rw [toList_bar]
  simp only [List.append_assoc, List.cons_append, List.nil_append]

omit [AuditFormats] in
theorem before_bar {z : Char} {a b x y : List Char} (ha : z ∉ a) (hb : z ∉ b) (h : a ++ z :: x = b ++ z :: y) :
    a = b ∧ x = y := by
  induction a generalizing b with
  | nil =>
    cases b with
    | nil => exact ⟨rfl, List.tail_eq_of_cons_eq h⟩
    | cons d ds =>
      have hhead : z = d := (List.cons.inj h).1
      exact absurd (hhead ▸ List.mem_cons_self) hb
  | cons c cs ih =>
    cases b with
    | nil =>
      have hhead : c = z := (List.cons.inj h).1
      exact absurd (hhead ▸ List.mem_cons_self) ha
    | cons d ds =>
      obtain ⟨hcd, htail⟩ := List.cons.inj h
      obtain ⟨hcs, hxy⟩ := ih (fun hc => ha (List.mem_cons_of_mem _ hc))
        (fun hd => hb (List.mem_cons_of_mem _ hd)) htail
      exact ⟨by rw [hcd, hcs], hxy⟩

omit [AuditFormats] in
theorem after_bar {a b x y : List Char} (hx : '|' ∉ x) (hy : '|' ∉ y) (h : a ++ '|' :: x = b ++ '|' :: y) :
    a = b ∧ x = y := by
  have hrev := congrArg List.reverse h
  simp only [List.reverse_append, List.reverse_cons, List.append_assoc, List.cons_append, List.nil_append] at hrev
  obtain ⟨hxy, hab⟩ := before_bar (by simpa using hx) (by simpa using hy) hrev
  exact ⟨List.reverse_injective hab, List.reverse_injective hxy⟩

/-- The digested text after the previous digest. -/
theorem toList_payloadText_prev (p : String) (id : Uuid) (e : AuditEntry) (t : Timestamp) :
    (payloadText p id e t).toList = p.toList ++ (payloadText "" id e t).toList := by
  rw [toList_payloadText, toList_payloadText]
  rfl

variable [FaithfulFormats]

theorem uuid_before_bar {u v : Uuid} {x y : List Char}
    (h : (uuidText u).toList ++ '|' :: x = (uuidText v).toList ++ '|' :: y) : u = v ∧ x = y := by
  obtain ⟨huv, hxy⟩ := before_bar (FaithfulFormats.uuidText_bar u) (FaithfulFormats.uuidText_bar v) h
  exact ⟨FaithfulFormats.uuidText_inj u v (String.toList_injective huv), hxy⟩

/-- What two rows have in common whose digested texts agree after the previous digest. -/
theorem same_of_rest {id newId : Uuid} {row : AuditRow} {e : AuditEntry} {t : Timestamp}
    (h : (payloadText "" newId e t).toList = (payloadText "" id row.toAuditEntry row.createdAt).toList) :
    MovesBars id row newId e t := by
  rw [toList_payloadText, toList_payloadText] at h
  obtain ⟨-, h⟩ := before_bar List.not_mem_nil List.not_mem_nil h
  obtain ⟨hid, h⟩ := uuid_before_bar h
  obtain ⟨horg, h⟩ := uuid_before_bar h
  obtain ⟨hactor, h⟩ := uuid_before_bar h
  obtain ⟨hbehalf, h⟩ := uuid_before_bar h
  have hflag : ∀ b : Bool, '|' ∉ (if b then "1" else "0").toList := by decide
  obtain ⟨hai, h⟩ := before_bar (hflag _) (hflag _) h
  obtain ⟨hfree, htime⟩ :=
    after_bar (FaithfulFormats.timestampText_bar _) (FaithfulFormats.timestampText_bar _) h
  have hai' : e.actorIsAi = row.actorIsAi := by
    cases hb : e.actorIsAi <;> cases hb' : row.actorIsAi <;> simp_all
  exact ⟨hid, horg, hactor, hbehalf, hai',
    FaithfulFormats.timestampText_inj _ _ (String.toList_injective htime), String.toList_injective hfree⟩

/-- The digested text says everything but where the bars between the free columns are. -/
theorem payloadText_eq_iff {p : String} {id newId : Uuid} {row : AuditRow} {e : AuditEntry} {t : Timestamp} :
    payloadText p newId e t = payloadText p id row.toAuditEntry row.createdAt ↔ MovesBars id row newId e t := by
  constructor
  · intro h
    have hlist := congrArg String.toList h
    rw [toList_payloadText_prev p newId, toList_payloadText_prev p id] at hlist
    exact same_of_rest (List.append_cancel_left hlist)
  · rintro ⟨rfl, horg, hactor, hbehalf, hai, rfl, hfree⟩
    apply String.toList_injective
    rw [toList_payloadText, toList_payloadText, horg, hactor, hbehalf, hai, hfree]

section
variable {orgId : Uuid} {key : String} {s : AuditLog} {id : Uuid} {row : AuditRow}

def DigestRight (r : Uuid × AuditRow) : Prop :=
  r.2.contentHash = digest (payloadText r.2.prevHash r.1 r.2.toAuditEntry r.2.createdAt)

omit [FaithfulFormats] in
theorem checkPartition_ok :
    (checkPartition orgId key s).ok = true ↔
      ∀ r ∈ verifySql orgId key s, r.contentOk = true ∧ r.chainOk = true := by
  simp only [checkPartition]
  cases hfind : (verifySql orgId key s).find? fun r => !r.contentOk || !r.chainOk with
  | none =>
    have hgood := List.find?_eq_none.mp hfind
    simpa using hgood
  | some r =>
    have hmem := List.mem_of_find?_eq_some hfind
    have hbad := List.find?_some hfind
    simp only [Bool.false_eq_true, false_iff, not_forall]
    refine ⟨r, hmem, fun hgood => ?_⟩
    simp [hgood.1, hgood.2] at hbad

abbrev orderedRows (orgId : Uuid) (key : String) (s : AuditLog) : List (Uuid × AuditRow) :=
  HashChain.ascending orderKey (partitionRows orgId key s)

omit [FaithfulFormats] in
theorem checkPartition_ok_iff :
    (checkPartition orgId key s).ok = true ↔
      HashChain.Linked (·.2.prevHash) (·.2.contentHash) "" (orderedRows orgId key s) ∧
      ∀ r ∈ partitionRows orgId key s, DigestRight r := by
  have hok : (checkPartition orgId key s).ok = true ↔
      ∀ x ∈ HashChain.lag (·.2.contentHash) "" (orderedRows orgId key s),
        DigestRight x.1 ∧ x.1.2.prevHash = x.2 := by
    rw [checkPartition_ok]
    simp only [verifySql, List.forall_mem_map, verifyRow, decide_eq_true_eq]
    rfl
  rw [hok, HashChain.linked_iff_lag]
  constructor
  · refine fun h => ⟨fun x hx => (h x hx).2, fun r hr => ?_⟩
    have hmem : r ∈ orderedRows orgId key s := HashChain.mem_ascending.mpr hr
    obtain ⟨x, hx, rfl⟩ := HashChain.exists_mem_lag (fun r : Uuid × AuditRow => r.2.contentHash) "" hmem
    exact (h x hx).1
  · rintro ⟨hlinked, hdigests⟩ x hx
    exact ⟨hdigests x.1 (HashChain.mem_ascending.mp (HashChain.fst_mem_of_mem_lag hx)), hlinked x hx⟩

variable {newId : Uuid} {e : AuditEntry} {createdAt : Timestamp}

omit [AuditFormats] [FaithfulFormats] in
theorem rows_forgeRow (hfree : newId = id ∨ newId ∉ s.keys) :
    (forgeRow id newId e createdAt s).rows =
      s.rows.map fun r => if r.1 = id then (newId, r.2.forge e createdAt) else r := by
  have hnodup : ((s.rows.map fun r => if r.1 = id then (newId, r.2.forge e createdAt) else r).map
      Prod.fst).Nodup := by
    rw [List.map_map]
    refine (List.nodup_map_iff_inj_on s.nodup.of_map).mpr fun a ha b hb hab => ?_
    have hkeys : ∀ r ∈ s.rows, r.1 ≠ id → r.1 ≠ newId := by
      rintro r hr hne rfl
      rcases hfree with hsame | hfree
      · exact hne hsame
      · exact hfree (List.mem_map_of_mem hr)
    have hfst : ∀ r : Uuid × AuditRow, (if r.1 = id then (newId, r.2.forge e createdAt) else r).1 =
        if r.1 = id then newId else r.1 := by
      intro r
      split_ifs <;> rfl
    simp only [Function.comp_apply, hfst] at hab
    refine List.inj_on_of_nodup_map s.nodup ha hb ?_
    split_ifs at hab with hai hbi hbi
    · exact hai.trans hbi.symm
    · exact absurd hab.symm (hkeys b hb hbi)
    · exact absurd hab (hkeys a ha hai)
    · exact hab
  unfold forgeRow
  rw [dif_pos hnodup]

theorem forge_found (hverifies : (checkPartition orgId key s).ok = true) (hrow : s.find? id = some row)
    (horg : row.orgId = orgId) (hkey : row.partitionKey = key) (hfree : newId = id ∨ newId ∉ s.keys)
    (hok : (checkPartition e.orgId key (forgeRow id newId e createdAt s)).ok = true) :
    MovesBars id row newId e createdAt := by
  have hmem := Table.find?_eq_some.mp hrow
  have hold : DigestRight (id, row) :=
    (checkPartition_ok_iff.mp hverifies).2 _ (List.mem_filter.mpr ⟨hmem, by simp [horg, hkey]⟩)
  have hnew : DigestRight (newId, row.forge e createdAt) := by
    refine (checkPartition_ok_iff.mp hok).2 _ (List.mem_filter.mpr ⟨?_, by simp [AuditRow.forge, hkey]⟩)
    rw [rows_forgeRow hfree]
    exact List.mem_map.mpr ⟨(id, row), hmem, by simp⟩
  exact payloadText_eq_iff.mp (FaithfulFormats.digest_inj _ _ (hnew.symm.trans hold))

theorem moved_bars_pass (hverifies : (checkPartition orgId key s).ok = true)
    (hrow : s.find? id = some row) (hmoves : MovesBars id row newId e createdAt) (horg : row.orgId = orgId) :
    (checkPartition e.orgId key (forgeRow id newId e createdAt s)).ok = true := by
  have hpayload := fun p => (payloadText_eq_iff (p := p)).mpr hmoves
  obtain ⟨rfl, horg', -, -, -, rfl, -⟩ := hmoves
  obtain ⟨hlinked, hdigests⟩ := checkPartition_ok_iff.mp hverifies
  have hone : ∀ r ∈ s.rows, r.1 = newId → r.2 = row := by
    rintro ⟨k, r⟩ hr rfl
    exact Table.row_unique hr (Table.find?_eq_some.mp hrow)
  -- the change of one row, on all rows
  let f : Uuid × AuditRow → Uuid × AuditRow :=
    fun r => if r.1 = newId then (newId, r.2.forge e r.2.createdAt) else r
  have hkeys : ∀ r, orderKey (f r) = orderKey r := by
    intro r
    simp only [f]
    split_ifs with hr
    · rw [← hr]
      rfl
    · rfl
  have hparts : partitionRows e.orgId key (forgeRow newId newId e row.createdAt s) =
      (partitionRows orgId key s).map f := by
    have hrows : (forgeRow newId newId e row.createdAt s).rows = s.rows.map f := by
      rw [rows_forgeRow (.inl rfl)]
      refine List.map_congr_left fun r hr => ?_
      simp only [f]
      split_ifs with hid
      · rw [hone r hr hid]
      · rfl
    rw [partitionRows, partitionRows, hrows, List.filter_map]
    congr 1
    refine List.filter_congr fun r hr => ?_
    simp only [Function.comp_apply, f]
    split_ifs with hid
    · rw [hone r hr hid]
      simp [AuditRow.forge, horg', horg]
    · rw [horg', horg]
  refine checkPartition_ok_iff.mpr ⟨?_, fun r hr => ?_⟩
  · rw [orderedRows, hparts, HashChain.ascending_map hkeys, HashChain.linked_map]
    · exact hlinked
    · intro r
      simp only [f]
      split_ifs <;> rfl
    · intro r
      simp only [f]
      split_ifs <;> rfl
  · rw [hparts] at hr
    obtain ⟨r₀, hr₀, rfl⟩ := List.mem_map.mp hr
    have hright := hdigests r₀ hr₀
    simp only [f]
    split_ifs with hid
    · have hsame := hone r₀ (List.mem_filter.mp hr₀).1 hid
      unfold DigestRight at hright ⊢
      rw [hid, hsame] at hright
      rw [hsame]
      exact hright.trans (congrArg digest (hpayload _).symm)
    · exact hright

/-- In a partition that verifies, no row has the digest that the row before it names. -/
theorem contentHash_ne {rs : List (Uuid × AuditRow)} {d : Uuid × AuditRow}
    (hlinked : HashChain.Linked (·.2.prevHash) (·.2.contentHash) "" (rs ++ [d]))
    (hdigests : ∀ r ∈ rs ++ [d], DigestRight r) (hfresh : ∀ r ∈ rs, r.1 ≠ d.1) :
    d.2.contentHash ≠ HashChain.lastDigest (·.2.contentHash) "" rs := by
  have hbar : ∀ (as : List (Uuid × AuditRow)), (∀ r ∈ as, DigestRight r) →
      '|' ∉ (HashChain.lastDigest (fun r : Uuid × AuditRow => r.2.contentHash) "" as).toList := by
    intro as has
    induction as using List.reverseRecOn with
    | nil => simp
    | append_singleton as a _ =>
      rw [HashChain.lastDigest_append]
      change '|' ∉ a.2.contentHash.toList
      rw [has a (List.mem_append_right _ (List.mem_singleton.mpr rfl))]
      exact FaithfulFormats.digest_bar _
  have hd := hdigests d (List.mem_append_right _ (List.mem_singleton.mpr rfl))
  obtain ⟨hlinked, hprev⟩ := HashChain.linked_append.mp hlinked
  cases rs using List.reverseRecOn with
  | nil =>
    rw [hd]
    exact FaithfulFormats.digest_ne _
  | append_singleton as a =>
    intro hsame
    have ha := hdigests a (by simp)
    obtain ⟨-, hprev'⟩ := HashChain.linked_append.mp hlinked
    rw [HashChain.lastDigest_append] at hsame hprev
    change d.2.contentHash = a.2.contentHash at hsame
    -- equal digests are of equal texts, which name the rows
    rw [hd, ha] at hsame
    have htext := congrArg String.toList (FaithfulFormats.digest_inj _ _ hsame)
    rw [toList_payloadText, toList_payloadText] at htext
    have hbard : '|' ∉ d.2.prevHash.toList := by
      rw [hprev]
      change '|' ∉ a.2.contentHash.toList
      rw [ha]
      exact FaithfulFormats.digest_bar _
    have hbara : '|' ∉ a.2.prevHash.toList := by
      rw [hprev']
      exact hbar as fun r hr => hdigests r (by simp [hr])
    obtain ⟨-, hrest⟩ := before_bar hbard hbara htext
    exact hfresh a (by simp) (uuid_before_bar hrest).1.symm

theorem deletion_found (hverifies : (checkPartition orgId key s).ok = true) (hrow : s.find? id = some row)
    (horg : row.orgId = orgId) (hkey : row.partitionKey = key)
    (hnext : ∃ r ∈ partitionRows orgId key s, orderKey (id, row) < orderKey r) :
    (checkPartition orgId key (deleteRow id s)).ok = false := by
  obtain ⟨hlinked, hdigests⟩ := checkPartition_ok_iff.mp hverifies
  have hmem : (id, row) ∈ partitionRows orgId key s :=
    List.mem_filter.mpr ⟨Table.find?_eq_some.mp hrow, by simp [horg, hkey]⟩
  have hnodup : ((partitionRows orgId key s).map Prod.fst).Nodup :=
    (List.filter_sublist.map _).nodup s.nodup
  have hone : ∀ r ∈ partitionRows orgId key s, ∀ r' ∈ partitionRows orgId key s,
      orderKey r = orderKey r' → r = r' := by
    intro r hr r' hr' h
    exact List.inj_on_of_nodup_map hnodup hr hr' (Prod.mk.inj (toLex.injective h)).2
  have hparts : orderedRows orgId key (deleteRow id s) = (orderedRows orgId key s).filter (·.1 ≠ id) := by
    have hfilter : partitionRows orgId key (deleteRow id s) = (partitionRows orgId key s).filter (·.1 ≠ id) := by
      simp only [partitionRows, deleteRow, Table.filter, List.filter_filter, Bool.and_comm]
    rw [orderedRows, hfilter, HashChain.ascending_filter _ hone]
  by_contra hok
  obtain ⟨hlinked', -⟩ := checkPartition_ok_iff.mp ((Bool.not_eq_false _).mp hok)
  rw [hparts] at hlinked'
  have hsorted := HashChain.pairwise_ascending orderKey (partitionRows orgId key s)
  have hperm := List.perm_insertionSort (fun a b : Uuid × AuditRow => orderKey a ≤ orderKey b)
    (partitionRows orgId key s)
  have hin : (id, row) ∈ orderedRows orgId key s := HashChain.mem_ascending.mpr hmem
  have hids : ((orderedRows orgId key s).map Prod.fst).Nodup := (hperm.map Prod.fst).nodup_iff.mpr hnodup
  have hright : ∀ r ∈ orderedRows orgId key s, DigestRight r := fun r hr =>
    hdigests r (HashChain.mem_ascending.mp hr)
  obtain ⟨r, hr, hlt⟩ := hnext
  have hr' : r ∈ orderedRows orgId key s := HashChain.mem_ascending.mpr hr
  obtain ⟨earlier, later, hsplit⟩ := List.append_of_mem hin
  change (orderedRows orgId key s).Pairwise _ at hsorted
  rw [hsplit] at hlinked hlinked' hsorted hids hright hr'
  obtain ⟨-, hafter, hbefore⟩ := List.pairwise_append.mp hsorted
  -- the successor stands after the deleted row
  cases later with
  | nil =>
    rcases List.mem_append.mp hr' with hearlier | hlater
    · exact absurd hlt (not_lt.mpr (hbefore r hearlier _ List.mem_cons_self))
    · rw [List.mem_singleton.mp hlater] at hlt
      exact lt_irrefl _ hlt
  | cons b bs =>
    simp only [List.map_append, List.map_cons, List.nodup_append, List.nodup_cons, List.mem_cons, List.mem_map,
      not_or, not_exists, not_and] at hids
    have hearlier : ∀ r ∈ earlier, r.1 ≠ id := fun r hr => hids.2.2 r.1 ⟨r, hr, rfl⟩ id (.inl rfl)
    have hkept : (earlier ++ (id, row) :: b :: bs).filter (·.1 ≠ id) = earlier ++ b :: bs := by
      have hb : b.1 ≠ id := fun h => hids.2.1.1.1 h.symm
      have hbs : bs.filter (·.1 ≠ id) = bs := by
        rw [List.filter_eq_self]
        intro r hr
        simpa using hids.2.1.1.2 r hr
      have hfirst : earlier.filter (·.1 ≠ id) = earlier := by
        rw [List.filter_eq_self]
        intro r hr
        simpa using hearlier r hr
      rw [List.filter_append, hfirst, List.filter_cons_of_neg (by simp),
        List.filter_cons_of_pos (by simpa using hb), hbs]
    rw [hkept] at hlinked'
    have hnow := (HashChain.linked_append_append.mp hlinked').2.1
    have hthen : b.2.prevHash = row.contentHash := (HashChain.linked_append_append.mp hlinked).2.2.1
    have hchain : HashChain.Linked (fun r : Uuid × AuditRow => r.2.prevHash) (·.2.contentHash) ""
        (earlier ++ [(id, row)]) := by
      rw [HashChain.linked_append]
      have hfst := HashChain.linked_append_append.mp hlinked
      exact ⟨hfst.1, hfst.2.1⟩
    refine contentHash_ne hchain (fun r hr => hright r ?_) hearlier (hthen.symm.trans hnow)
    rcases List.mem_append.mp hr with hr | hr
    · exact List.mem_append_left _ hr
    · exact List.mem_append_right _ (by simpa using .inl (List.mem_singleton.mp hr))

/-- Tampering with one row of a partition that verifies: a change of hashed columns is found exactly when it
does more than move text over the bars between the free columns, and the deletion of a row that has a
successor is always found. -/
theorem tampering_detected_iff (hverifies : (verifyPartition orgId key s).ok = true) (hrow : s.find? id = some row)
    (horg : row.orgId = orgId) (hkey : row.partitionKey = key) :
    (∀ newId e createdAt, (newId = id ∨ newId ∉ s.keys) →
      (newId, e, createdAt) ≠ (id, row.toAuditEntry, row.createdAt) →
      ((verifyPartition e.orgId key (forgeRow id newId e createdAt s)).ok = false ↔
        ¬MovesBars id row newId e createdAt)) ∧
    ((∃ r ∈ partitionRows orgId key s, orderKey (id, row) < orderKey r) →
      (verifyPartition orgId key (deleteRow id s)).ok = false) := by
  refine ⟨fun newId e createdAt hfree _ => ?_, deletion_found hverifies hrow horg hkey⟩
  rw [← not_iff_not, not_not, Bool.not_eq_false]
  exact ⟨forge_found hverifies hrow horg hkey hfree, fun h => moved_bars_pass hverifies hrow h horg⟩

end

end

/-- The texts of a few values, and a text for each other value. -/
def textOf {α : Type} [DecidableEq α] (known : List (α × String)) (other : α → String) (a : α) : String :=
  ((known.find? fun k => k.1 = a).map Prod.snd).getD (other a)

section
variable {α : Type} [DecidableEq α] {known : List (α × String)} {other : α → String}

theorem textOf_cases (known : List (α × String)) (other : α → String) (a : α) :
    (a, textOf known other a) ∈ known ∨ textOf known other a = other a := by
  unfold textOf
  cases h : known.find? fun k => k.1 = a with
  | none => exact .inr rfl
  | some k =>
    have hk : k.1 = a := by simpa using List.find?_some h
    left
    rw [← hk]
    exact List.mem_of_find?_eq_some h

theorem textOf_inj (hknown : (known.map Prod.snd).Nodup) (hother : ∀ a b, other a = other b → a = b)
    (happart : ∀ a, other a ∉ known.map Prod.snd) {a b : α} (h : textOf known other a = textOf known other b) :
    a = b := by
  rcases textOf_cases known other a with ha | ha <;> rcases textOf_cases known other b with hb | hb
  · rw [h] at ha
    exact (Prod.mk.inj (List.inj_on_of_nodup_map hknown ha hb rfl)).1
  · rw [h, hb] at ha
    exact absurd (List.mem_map_of_mem ha) (happart b)
  · rw [← h, ha] at hb
    exact absurd (List.mem_map_of_mem hb) (happart a)
  · exact hother a b (ha.symm.trans (h.trans hb))

theorem textOf_bar (hknown : ∀ k ∈ known, '|' ∉ k.2.toList) (hother : ∀ a, '|' ∉ (other a).toList) (a : α) :
    '|' ∉ (textOf known other a).toList := by
  rcases textOf_cases known other a with ha | ha
  · exact hknown _ ha
  · rw [ha]
    exact hother a

end

def unary (c : Char) (n : Nat) : String := String.ofList (List.replicate n c)

theorem unary_inj {c : Char} {m n : Nat} (h : unary c m = unary c n) : m = n := by
  have hlist := congrArg (fun s : String => s.toList.length) h
  simpa [unary] using hlist

theorem mem_unary {c d : Char} {n : Nat} (h : d ∈ (unary c n).toList) : d = c := by
  simp only [unary, String.toList_ofList] at h
  exact (List.mem_replicate.mp h).2

/-- An instant as its distance from zero. -/
def otherInstant (t : Int) : String := if 0 ≤ t then unary '+' t.toNat else unary '-' t.natAbs

theorem mem_otherInstant {t : Int} {c : Char} (h : c ∈ (otherInstant t).toList) : c = '+' ∨ c = '-' := by
  unfold otherInstant at h
  split_ifs at h
  · exact .inl (mem_unary h)
  · exact .inr (mem_unary h)

theorem otherInstant_inj {t u : Int} (h : otherInstant t = otherInstant u) : t = u := by
  have hsigns : ∀ m n : Nat, n ≠ 0 → unary '+' m ≠ unary '-' n := by
    intro m n hn he
    have hmem : '-' ∈ (unary '-' n).toList := by simp [unary, hn]
    rw [← he] at hmem
    cases mem_unary hmem
  unfold otherInstant at h
  split_ifs at h with ht hu hu
  · have hnum := unary_inj h
    omega
  · exact absurd h (hsigns _ _ (by omega))
  · exact absurd h.symm (hsigns _ _ (by omega))
  · have hnum := unary_inj h
    omega

/-- Each character as many strokes as its number. -/
def strokes : List Char → List Char
  | [] => []
  | c :: cs => List.replicate c.toNat '1' ++ '0' :: strokes cs

theorem strokes_inj {a b : List Char} (h : strokes a = strokes b) : a = b := by
  induction a generalizing b with
  | nil =>
    cases b with
    | nil => rfl
    | cons d ds => simp [strokes] at h
  | cons c cs ih =>
    cases b with
    | nil => simp [strokes] at h
    | cons d ds =>
      have hno : ∀ n, '0' ∉ List.replicate n '1' := by
        intro n hmem
        cases (List.mem_replicate.mp hmem).2
      obtain ⟨hcd, hrest⟩ := before_bar (hno _) (hno _) h
      have hnum : c.toNat = d.toNat := by simpa using congrArg List.length hcd
      rw [Char.toNat_inj.mp hnum, ih hrest]

theorem mem_strokes {a : List Char} {c : Char} (h : c ∈ strokes a) : c = '0' ∨ c = '1' := by
  induction a with
  | nil => cases h
  | cons d ds ih =>
    simp only [strokes, List.mem_append, List.mem_cons, List.mem_replicate] at h
    rcases h with ⟨-, rfl⟩ | rfl | h
    · exact .inr rfl
    · exact .inl rfl
    · exact ih h

def digestsBelow : List (String × String) :=
  knownDigests ++
    [("|00000000-0000-0000-0000-000000000005|00000000-0000-0000-0000-000000000009" ++
      "|00000000-0000-0000-0000-000000000004|00000000-0000-0000-0000-000000000004" ++
      "|0|role.assigned|membership|mem_1|note|{}|1970-01-01 00:00:01+00",
      "02f49d467c987789d99ece78b5d613dd2148ba60d37ae4ebf3efbfad686367a1")]

/-- In the first seconds of 1970, for the rows below. -/
@[reducible] def barredFormats : AuditFormats where
  uuidText := textOf ([4, 5, 6, 9].map fun u => (u, Finance.hyphenated u)) (unary 'x')
  timestampText := textOf [(1, "1970-01-01 00:00:01+00"), (2, "1970-01-01 00:00:02+00")]
    otherInstant
  timestampDisplay t := "1970-01-01 00:00:0" ++ toString t ++ " UTC"
  jsonText _ := "{}"
  monthText _ := "1970-01"
  digest := textOf digestsBelow fun s => "?" ++ String.ofList (strokes s.toList)
  hashTextExtended s := s.length

theorem barredFormats_faithful : @FaithfulFormats barredFormats := by
  let := barredFormats
  have hstroke : ∀ s : String, ("?" ++ String.ofList (strokes s.toList)).toList = '?' :: strokes s.toList := by
    intro s
    simp only [String.toList_append, String.toList_ofList]
    rfl
  constructor
  · intro u v h
    refine textOf_inj (by decide +kernel) (fun _ _ h => unary_inj h) (fun a ha => ?_) h
    have hdash : ∀ t ∈ ([4, 5, 6, 9].map fun u => (u, Finance.hyphenated u)).map Prod.snd, '-' ∈ t.toList := by
      decide +kernel
    cases mem_unary (hdash _ ha)
  · exact textOf_bar (by decide +kernel) fun a ha => by cases mem_unary ha
  · intro t u h
    refine textOf_inj (by decide +kernel) (fun _ _ h => otherInstant_inj h) (fun a ha => ?_) h
    have hone : ∀ t ∈ [(1, "1970-01-01 00:00:01+00"), ((2 : Timestamp), "1970-01-01 00:00:02+00")].map Prod.snd,
        '1' ∈ t.toList := by decide
    rcases mem_otherInstant (hone _ ha) with h | h <;> cases h
  · refine textOf_bar (by decide) fun a ha => ?_
    rcases mem_otherInstant ha with h | h <;> cases h
  · intro a b h
    refine textOf_inj (by decide +kernel) (fun a b h => ?_) (fun a ha => ?_) h
    · have hlist := congrArg String.toList h
      rw [hstroke, hstroke] at hlist
      exact String.toList_injective (strokes_inj (List.cons.inj hlist).2)
    · have hno : ∀ t ∈ digestsBelow.map Prod.snd, '?' ∉ t.toList := by decide +kernel
      refine hno _ ha ?_
      rw [hstroke]
      exact List.mem_cons_self
  · refine textOf_bar (by decide +kernel) fun a ha => ?_
    rw [hstroke] at ha
    rcases List.mem_cons.mp ha with h | h
    · cases h
    · rcases mem_strokes h with h | h <;> cases h
  · intro a h
    rcases textOf_cases digestsBelow (fun s => "?" ++ String.ofList (strokes s.toList)) a with ha | ha
    · have hne : ∀ k ∈ digestsBelow, k.2 ≠ "" := by decide +kernel
      exact hne _ ha h
    · have hlist := congrArg String.toList (ha.symm.trans h)
      rw [hstroke] at hlist
      cases hlist

def assignment (actor resource : Uuid) : AuditEntry :=
  ⟨9, actor, 4, false, "role.assigned", "membership", if resource = 1 then "mem_1" else "mem_1|note", .object []⟩

def chainedLog (rows : List (Uuid × AuditEntry × Timestamp)) : AuditLog :=
  letI := barredFormats
  rows.foldl (fun s r => s.insert r.1 (companyosAuditHashChain r.1 r.2.1 r.2.2 s)) .empty

def twoRows : AuditLog := chainedLog [(5, assignment 4 1, 1), (6, assignment 4 1, 2)]

theorem tampering_detected_two_rows :
    letI := barredFormats
    (verifyPartition 9 "1970-01" (forgeRow 5 5 (assignment 6 1) 1 twoRows)).ok = false ∧
      (verifyPartition 9 "1970-01" (deleteRow 5 twoRows)).ok = false := by
  let := barredFormats
  have := barredFormats_faithful
  obtain ⟨row, hrow, horg, hkey, hactor, hinstant, hnext⟩ :
    ∃ row, twoRows.find? 5 = some row ∧ row.orgId = 9 ∧
      row.partitionKey = "1970-01" ∧ row.actorUserId = 4 ∧ row.createdAt = 1 ∧
      ∃ r ∈ partitionRows 9 "1970-01" twoRows, orderKey (5, row) < orderKey r := by
    have hany : (twoRows.find? 5).any (fun row => row.orgId = 9 ∧ row.partitionKey = "1970-01" ∧
        row.actorUserId = 4 ∧ row.createdAt = 1 ∧
        ∃ r ∈ partitionRows 9 "1970-01" twoRows, orderKey (5, row) < orderKey r) = true := by decide +kernel
    obtain ⟨row, hrow, hfacts⟩ := (Option.any_eq_true _ _).mp hany
    exact ⟨row, hrow, of_decide_eq_true hfacts⟩
  obtain ⟨hforge, hdelete⟩ := tampering_detected_iff (by decide +kernel) hrow horg hkey
  refine ⟨(hforge 5 (assignment 6 1) 1 (.inl rfl) ?_).mpr ?_, hdelete hnext⟩
  · intro h
    have hsame := congrArg (fun x : Uuid × AuditEntry × Timestamp => x.2.1.actorUserId) h
    rw [hactor] at hsame
    cases hsame
  · intro h
    have hsame := h.actorUserId
    rw [hactor] at hsame
    cases hsame

def oneRow : AuditLog := chainedLog [(5, assignment 4 2, 1)]

/-- The forged row says another type and another resource. -/
theorem tampering_missed :
    letI := barredFormats
    (verifyPartition 9 "1970-01" oneRow).ok = true ∧
      (oneRow.find? 5).any (fun row => row.resourceType = "membership" ∧ row.resourceId = "mem_1|note") = true ∧
      (verifyPartition 9 "1970-01" (forgeRow 5 5
        ⟨9, 4, 4, false, "role.assigned", "membership|mem_1", "note", .object []⟩ 1 oneRow)).ok = true := by
  decide +kernel

end Noxara.Governance
