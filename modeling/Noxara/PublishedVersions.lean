import Noxara.WorkflowInstances
import Noxara.WorkflowVisits

/-! Published versions of workflows. In every interleaving the versions of a definition are numbered
without a gap up to its current one, a published version never changes, and an instance is pinned to
a version that it entered at the entry of its graph. -/
namespace Noxara.Workflows

open Transaction
open Finance (Uuid Formats PublicId canonicalFormats)

def Store.currentVersion (s : Store) (definitionId : Uuid) : Int :=
  ((s.definitions.find? definitionId).bind (·.currentPublishedVersion)).getD 0

/-- The row is the version `n` of the definition `d`. -/
def VersionRow.Is (v : VersionRow) (d : Uuid) (n : Int) : Prop := v.definitionId = d ∧ v.version = n

structure Sound (s : Store) : Prop where
  current_pos : ∀ d row n, s.definitions.find? d = some row → row.currentPublishedVersion = some n → 0 < n
  numbered : ∀ d n, 0 < n → (n ≤ s.currentVersion d ↔ ∃ id v, s.versions.find? id = some v ∧ v.Is d n)
  unique : ∀ {id id' v v' d n}, 0 < n → s.versions.find? id = some v → v.Is d n →
    s.versions.find? id' = some v' → v'.Is d n → id = id'
  valid : ∀ id v, s.versions.find? id = some v → 0 < v.version →
    v.graph.validate = .ok () ∧ v.publishedAt.isSome
  pinned : ∀ id row, s.instances.find? id = some row → 0 < row.versionNumber ∧
    ∃ v, s.versions.find? row.versionId = some v ∧ v.Is row.definitionId row.versionNumber

/-- Versions keep their numbers, and published ones do not change. -/
def KeepsVersions (s s' : Store) : Prop :=
  ∀ id v, s.versions.find? id = some v → ∃ v', s'.versions.find? id = some v' ∧
    v'.Is v.definitionId v.version ∧ (0 < v.version → v' = v)

/-- A new instance is at the entry of the graph of its version. -/
def StartsAtEntry (s s' : Store) : Prop :=
  ∀ id row, s.instances.find? id = none → s'.instances.find? id = some row →
    ∃ v, s'.versions.find? row.versionId = some v ∧ row.currentNodeId = some v.graph.entry

theorem sound_empty : Sound .empty where
  current_pos _ _ _ h := nomatch h
  numbered _ _ hn := ⟨fun h => absurd (lt_of_lt_of_le hn h) (lt_irrefl 0), nofun⟩
  unique _ h := nomatch h
  valid _ _ h := nomatch h
  pinned _ _ h := nomatch h

theorem KeepsVersions.refl (s : Store) : KeepsVersions s s := fun _ v h => ⟨v, h, ⟨rfl, rfl⟩, fun _ => rfl⟩

theorem KeepsVersions.trans {s t u : Store} (h : KeepsVersions s t) (h' : KeepsVersions t u) :
    KeepsVersions s u := by
  intro id v hv
  obtain ⟨v₁, hv₁, ⟨hd₁, hn₁⟩, hsame₁⟩ := h id v hv
  obtain ⟨v₂, hv₂, ⟨hd₂, hn₂⟩, hsame₂⟩ := h' id v₁ hv₁
  refine ⟨v₂, hv₂, ⟨hd₂.trans hd₁, hn₂.trans hn₁⟩, fun hpos => ?_⟩
  rw [hsame₂ (hn₁ ▸ hpos), hsame₁ hpos]

theorem KeepsVersions.published {s t : Store} (h : KeepsVersions s t) {id : Uuid} {v : VersionRow}
    (hv : s.versions.find? id = some v) (hpos : 0 < v.version) : t.versions.find? id = some v := by
  obtain ⟨v', hv', _, hsame⟩ := h id v hv
  rwa [hsame hpos] at hv'

theorem KeepsVersions.of_eq {s t : Store} (h : t.versions = s.versions) : KeepsVersions s t := by
  intro id v hv
  rw [h]
  exact KeepsVersions.refl s id v hv

theorem StartsAtEntry.of_eq {s t : Store} (h : t.instances = s.instances) : StartsAtEntry s t := by
  intro id row hnone hsome
  rw [h, hnone] at hsome
  cases hsome

section Writes
variable {s : Store}

theorem Sound.of_eq (h : Sound s) {t : Store} (hd : t.definitions = s.definitions)
    (hv : t.versions = s.versions) (hi : t.instances = s.instances) : Sound t := by
  have hcur : ∀ d, t.currentVersion d = s.currentVersion d := fun d => by
    rw [Store.currentVersion, hd]
    rfl
  exact {
    current_pos := by rw [hd]; exact h.current_pos
    numbered := by simpa only [hcur, hv] using h.numbered
    unique := by rw [hv]; exact h.unique
    valid := by rw [hv]; exact h.valid
    pinned := by rw [hi, hv]; exact h.pinned }

/-- A change of drafts. -/
structure Redrafts (s : Store) (f : Uuid → VersionRow → VersionRow) : Prop where
  identity : ∀ {id v}, s.versions.find? id = some v → (f id v).Is v.definitionId v.version
  published : ∀ {id v}, s.versions.find? id = some v → 0 < v.version → f id v = v

theorem Redrafts.keeps {f : Uuid → VersionRow → VersionRow} (hf : Redrafts s f) :
    KeepsVersions s { s with versions := s.versions.mapRows f } := by
  intro id v hv
  refine ⟨f id v, ?_, hf.identity hv, hf.published hv⟩
  rw [Table.find?_mapRows, hv]
  rfl

/-- A published row after drafts changed was there before. -/
theorem Redrafts.find? {f : Uuid → VersionRow → VersionRow} (hf : Redrafts s f) {id : Uuid}
    {v : VersionRow} (h : (s.versions.mapRows f).find? id = some v) (hpos : 0 < v.version) :
    s.versions.find? id = some v := by
  rw [Table.find?_mapRows] at h
  obtain ⟨w, hw, rfl⟩ := Option.map_eq_some_iff.mp h
  have hwpos : 0 < w.version := (hf.identity hw).2 ▸ hpos
  rwa [hf.published hw hwpos]

theorem Sound.redraft (h : Sound s) {f : Uuid → VersionRow → VersionRow} (hf : Redrafts s f) :
    Sound { s with versions := s.versions.mapRows f } where
  current_pos := h.current_pos
  numbered d n hn := by
    refine (h.numbered d n hn).trans ⟨?_, ?_⟩
    · rintro ⟨id, v, hv, hd, rfl⟩
      obtain ⟨v', hv', _, hsame⟩ := hf.keeps id v hv
      exact ⟨id, v', hv', by rw [hsame hn]; exact ⟨hd, rfl⟩⟩
    · rintro ⟨id, v, hv, hd, rfl⟩
      exact ⟨id, v, hf.find? hv hn, hd, rfl⟩
  unique hn hv hvn hv' hvn' :=
    h.unique hn (hf.find? hv (hvn.2 ▸ hn)) hvn (hf.find? hv' (hvn'.2 ▸ hn)) hvn'
  valid id v hv hpos := h.valid id v (hf.find? hv hpos) hpos
  pinned id row hrow := by
    obtain ⟨hpos, v, hv, hd, hn⟩ := h.pinned id row hrow
    exact ⟨hpos, v, hf.keeps.published hv (hn ▸ hpos), hd, hn⟩

theorem keepsVersions_insert (id : Uuid) (v : VersionRow) :
    KeepsVersions s { s with versions := s.versions.insert id v } := fun _ w hw =>
  ⟨w, Table.find?_insert_of_some hw v, ⟨rfl, rfl⟩, fun _ => rfl⟩

theorem find?_insert_draft {id j : Uuid} {v w : VersionRow} (hv : v.version = 0)
    (h : (s.versions.insert id v).find? j = some w) (hpos : 0 < w.version) :
    s.versions.find? j = some w := by
  rcases Table.find?_insert_some h with hold | ⟨_, rfl⟩
  · exact hold
  · exact absurd hv hpos.ne'

theorem Sound.insertDraft (h : Sound s) (id : Uuid) {v : VersionRow} (hv : v.version = 0) :
    Sound { s with versions := s.versions.insert id v } where
  current_pos := h.current_pos
  numbered d n hn := by
    refine (h.numbered d n hn).trans ⟨?_, ?_⟩
    · rintro ⟨j, w, hw, hwn⟩
      exact ⟨j, w, Table.find?_insert_of_some hw v, hwn⟩
    · rintro ⟨j, w, hw, hwn⟩
      exact ⟨j, w, find?_insert_draft hv hw (hwn.2 ▸ hn), hwn⟩
  unique hn hw hwn hw' hwn' :=
    h.unique hn (find?_insert_draft hv hw (hwn.2 ▸ hn)) hwn
      (find?_insert_draft hv hw' (hwn'.2 ▸ hn)) hwn'
  valid j w hw hpos := h.valid j w (find?_insert_draft hv hw hpos) hpos
  pinned j row hrow := by
    obtain ⟨hpos, w, hw, hwn⟩ := h.pinned j row hrow
    exact ⟨hpos, w, Table.find?_insert_of_some hw v, hwn⟩

theorem Sound.redefine (h : Sound s) {t : Table Uuid DefinitionRow}
    (ht : ∀ d, (t.find? d).bind (·.currentPublishedVersion) =
      (s.definitions.find? d).bind (·.currentPublishedVersion)) : Sound { s with definitions := t } where
  current_pos d row n hrow hn := by
    have hcur := ht d
    rw [hrow, Option.bind_some, hn] at hcur
    obtain ⟨row', hrow', hn'⟩ := Option.bind_eq_some_iff.mp hcur.symm
    exact h.current_pos d row' n hrow' hn'
  numbered d n hn := by
    refine Iff.trans ?_ (h.numbered d n hn)
    rw [Store.currentVersion, Store.currentVersion, ht d]
  unique := h.unique
  valid := h.valid
  pinned := h.pinned

theorem Sound.publish (h : Sound s) {d id : Uuid} {row : DefinitionRow} {v : VersionRow}
    (hrow : s.definitions.find? d = some row) (hfresh : s.versions.find? id = none)
    (hv : v.Is d (s.currentVersion d + 1)) (hcur : 0 ≤ s.currentVersion d)
    (hvalid : v.graph.validate = .ok ()) (hpublished : v.publishedAt.isSome)
    {change : DefinitionRow → DefinitionRow}
    (hchange : ∀ r, (change r).currentPublishedVersion = some (s.currentVersion d + 1)) :
    Sound { s with
      versions := s.versions.insert id v
      definitions := s.definitions.modify d change } := by
  have hold : ∀ {j w}, (s.versions.insert id v).find? j = some w →
      s.versions.find? j = some w ∨ (j = id ∧ w = v) := Table.find?_insert_some
  have hcurrent : ∀ e, Store.currentVersion { s with
      versions := s.versions.insert id v
      definitions := s.definitions.modify d change } e =
        if e = d then s.currentVersion d + 1 else s.currentVersion e := by
    intro e
    split_ifs with he
    · subst he
      simp [Store.currentVersion, Table.find?_modify_self, hrow, hchange]
    · simp only [Store.currentVersion, Table.find?_modify_ne _ _ he]
  -- nothing is published under the next number yet
  have hnext : ∀ {j w n}, s.versions.find? j = some w → w.Is d n → 0 < n → n ≤ s.currentVersion d :=
    fun hw hwn hn => (h.numbered d _ hn).mpr ⟨_, _, hw, hwn⟩
  constructor
  · intro e row' n hrow' hn
    by_cases he : e = d
    · subst he
      rw [Table.find?_modify_self, hrow] at hrow'
      cases hrow'
      rw [hchange] at hn
      cases hn
      omega
    · rw [Table.find?_modify_ne _ _ he] at hrow'
      exact h.current_pos e row' n hrow' hn
  · intro e n hn
    rw [hcurrent]
    constructor
    · intro hle
      by_cases hnew : e = d ∧ n = s.currentVersion d + 1
      · obtain ⟨rfl, rfl⟩ := hnew
        exact ⟨id, v, Table.find?_insert_self hfresh v, hv⟩
      · have hle' : n ≤ s.currentVersion e := by
          split_ifs at hle with he
          · subst he
            have : n ≠ s.currentVersion e + 1 := fun hn => hnew ⟨rfl, hn⟩
            omega
          · exact hle
        obtain ⟨j, w, hw, hwn⟩ := (h.numbered e n hn).mp hle'
        exact ⟨j, w, Table.find?_insert_of_some hw v, hwn⟩
    · rintro ⟨j, w, hw, hwn⟩
      rcases hold hw with hw | ⟨rfl, rfl⟩
      · have hle := (h.numbered e n hn).mpr ⟨j, w, hw, hwn⟩
        split_ifs with he
        · subst he
          omega
        · exact hle
      · obtain rfl : e = d := hwn.1.symm.trans hv.1
        rw [if_pos rfl]
        exact (hwn.2.symm.trans hv.2).le
  · intro j j' w w' e n hn hw hwn hw' hwn'
    rcases hold hw with hw₀ | ⟨rfl, rfl⟩ <;> rcases hold hw' with hw₁ | ⟨rfl, rfl⟩
    · exact h.unique hn hw₀ hwn hw₁ hwn'
    · obtain rfl : e = d := hwn'.1.symm.trans hv.1
      have hle := hnext hw₀ hwn hn
      have heq := hwn'.2.symm.trans hv.2
      omega
    · obtain rfl : e = d := hwn.1.symm.trans hv.1
      have hle := hnext hw₁ hwn' hn
      have heq := hwn.2.symm.trans hv.2
      omega
    · rfl
  · intro j w hw hpos
    rcases hold hw with hw | ⟨rfl, rfl⟩
    · exact h.valid j w hw hpos
    · exact ⟨hvalid, hpublished⟩
  · intro j irow hirow
    obtain ⟨hpos, w, hw, hwn⟩ := h.pinned j irow hirow
    exact ⟨hpos, w, Table.find?_insert_of_some hw v, hwn⟩

theorem Sound.insertInstance (h : Sound s) (id : Uuid) {row : InstanceRow} {v : VersionRow}
    (hv : s.versions.find? row.versionId = some v) (hpin : v.Is row.definitionId row.versionNumber)
    (hpos : 0 < row.versionNumber) : Sound { s with instances := s.instances.insert id row } where
  current_pos := h.current_pos
  numbered := h.numbered
  unique := h.unique
  valid := h.valid
  pinned j irow hirow := by
    rcases Table.find?_insert_some hirow with hold | ⟨_, rfl⟩
    · exact h.pinned j irow hold
    · exact ⟨hpos, v, hv, hpin⟩

theorem startsAtEntry_insert (id : Uuid) {row : InstanceRow} {v : VersionRow}
    (hv : s.versions.find? row.versionId = some v) (hentry : row.currentNodeId = some v.graph.entry) :
    StartsAtEntry s { s with instances := s.instances.insert id row } := by
  intro j irow hnone hsome
  rcases Table.find?_insert_some hsome with hold | ⟨_, rfl⟩
  · cases hnone.symm.trans hold
  · exact ⟨v, hv, hentry⟩

/-- Steps keep the pins. -/
theorem Moves.find?_some {id j : Uuid} {f : Db → Db} (hf : Moves id f) {db : Db} {row : InstanceRow}
    (h : (f db).instances.find? j = some row) :
    ∃ old, db.instances.find? j = some old ∧ row.pin = old.pin := by
  obtain ⟨_, change, hi, hother, hpin⟩ := hf db
  rw [hi, Table.find?_mapRows] at h
  obtain ⟨old, hold, rfl⟩ := Option.map_eq_some_iff.mp h
  refine ⟨old, hold, ?_⟩
  by_cases hj : j = id
  · subst hj
    exact hpin old
  · rw [hother j old hj]

theorem Sound.step (h : Sound s) {id : Uuid} {f : Db → Db} (hf : Moves id f) : Sound (onRuntime f s) where
  current_pos := h.current_pos
  numbered := h.numbered
  unique := h.unique
  valid := h.valid
  pinned j row hrow := by
    obtain ⟨old, hold, hpin⟩ := hf.find?_some hrow
    simp only [InstanceRow.pin, Prod.mk.injEq] at hpin
    obtain ⟨hd, hid, hn⟩ := hpin
    rw [hd, hid, hn]
    exact h.pinned j old hold

theorem Moves.startsAtEntry {id : Uuid} {f : Db → Db} (hf : Moves id f) : StartsAtEntry s (onRuntime f s) := by
  intro j row hnone hsome
  obtain ⟨old, hold, _⟩ := hf.find?_some hsome
  cases hnone.symm.trans hold

end Writes

theorem foldl_max_spec (l : List Int) (a : Int) :
    (∀ x ∈ l, x ≤ l.foldl max a) ∧ a ≤ l.foldl max a ∧ (l.foldl max a = a ∨ l.foldl max a ∈ l) := by
  induction l generalizing a with
  | nil => simp
  | cons y l ih =>
    obtain ⟨hle, ha, hmem⟩ := ih (max a y)
    rw [List.foldl_cons]
    refine ⟨fun x hx => ?_, by omega, ?_⟩
    · rcases List.mem_cons.mp hx with rfl | hx
      · omega
      · exact hle x hx
    · rcases hmem with heq | hin
      · rcases max_choice a y with hm | hm
        · exact .inl (heq.trans hm)
        · exact .inr (by simp [heq.trans hm])
      · exact .inr (List.mem_cons_of_mem _ hin)

section Reads
variable {s : Store}

theorem Sound.currentVersion_nonneg (h : Sound s) (d : Uuid) : 0 ≤ s.currentVersion d := by
  unfold Store.currentVersion
  cases hn : (s.definitions.find? d).bind (·.currentPublishedVersion) with
  | none => exact le_refl 0
  | some n =>
    obtain ⟨row, hrow, hcur⟩ := Option.bind_eq_some_iff.mp hn
    exact (h.current_pos d row n hrow hcur).le

theorem mem_publishedVersions {d : Uuid} {v : VersionRow} :
    v ∈ publishedVersions s d ↔ (∃ id, s.versions.find? id = some v) ∧ v.definitionId = d ∧
      0 < v.version := by
  simp only [publishedVersions, List.mem_filter, decide_eq_true_eq, Table.values, List.mem_map,
    Prod.exists, exists_eq_right, Table.find?_eq_some]

/-- The greatest number of a published version is the current one. -/
theorem Sound.maxVersion_eq (h : Sound s) (d : Uuid) : maxVersion s d = s.currentVersion d := by
  obtain ⟨hle, hnonneg, hmem⟩ := foldl_max_spec ((publishedVersions s d).map (·.version)) 0
  have hcur := h.currentVersion_nonneg d
  refine le_antisymm ?_ ?_
  · rcases hmem with hzero | hin
    · exact hzero.le.trans hcur
    · obtain ⟨v, hv, (hmax : v.version = maxVersion s d)⟩ := List.mem_map.mp hin
      obtain ⟨⟨id, hid⟩, hd, hpos⟩ := mem_publishedVersions.mp hv
      exact (h.numbered d _ (hmax ▸ hpos)).mpr ⟨id, v, hid, hd, hmax⟩
  · rcases hcur.eq_or_lt with hzero | hpos
    · exact hzero ▸ hnonneg
    · obtain ⟨id, v, hid, hd, hn⟩ := (h.numbered d _ hpos).mp (le_refl _)
      rw [← hn]
      exact hle _ (List.mem_map.mpr ⟨v, mem_publishedVersions.mpr ⟨⟨id, hid⟩, hd, hn ▸ hpos⟩, rfl⟩)

theorem versionAt_some {d : Uuid} {n : Int} {x : Uuid × VersionRow} (h : versionAt s d n = some x) :
    s.versions.find? x.1 = some x.2 ∧ x.2.Is d n := by
  have hp := List.find?_some h
  simp only [Bool.decide_and, Bool.and_eq_true, decide_eq_true_eq] at hp
  exact ⟨Table.find?_eq_some.mpr (List.mem_of_find?_eq_some h), hp⟩

end Reads

/-- Others keep the store sound and the published versions as they are; they leave a locked
definition alone, and do not take the id of a version that is about to be inserted. -/
def versionTerms : Terms Store StoreKey where
  rely ls s s' := (Sound s → Sound s') ∧ KeepsVersions s s' ∧
    (∀ d, .definition d ∈ ls → s'.definitions.find? d = s.definitions.find? d) ∧
    ∀ id, .version id ∈ ls → s.versions.find? id = none → s'.versions.find? id = none
  when _ _ _ := True
  refl _ _ := ⟨fun h => h, .refl _, fun _ _ => rfl, fun _ _ h => h⟩
  trans h h' := ⟨fun hs => h'.1 (h.1 hs), h.2.1.trans h'.2.1,
    fun d hd => (h'.2.2.1 d hd).trans (h.2.2.1 d hd), fun id hid hn => h'.2.2.2 id hid (h.2.2.2 id hid hn)⟩
  anti hk h := ⟨h.1, h.2.1, fun d hd => h.2.2.1 d (hk _ hd), fun id hid => h.2.2.2 id (hk _ hid)⟩

def VersionPromise (x : Trail Store StoreKey) (_ : Answer) (s : Store) : Prop :=
  Sound (x.pend s) ∧ KeepsVersions s (x.pend s) ∧ StartsAtEntry s (x.pend s) ∧
    (∀ d, .definition d ∉ x.locks → (x.pend s).definitions.find? d = s.definitions.find? d) ∧
    ∀ id, .version id ∉ x.locks → s.versions.find? id = none → (x.pend s).versions.find? id = none

theorem versionPromise_rely {x : Trail Store StoreKey} {a : Answer} {ls : List StoreKey} {s : Store}
    (h : VersionPromise x a s) (hdisjoint : ∀ k ∈ x.locks, k ∉ ls) : versionTerms.rely ls s (x.pend s) :=
  ⟨fun _ => h.1, h.2.1, fun d hd => h.2.2.2.1 d fun hx => hdisjoint _ hx hd,
    fun id hid => h.2.2.2.2 id fun hx => hdisjoint _ hx hid⟩

/-- The part of the store that the versions are about. -/
def versionView (s : Store) : Table Uuid DefinitionRow × Table Uuid VersionRow × Table Uuid InstanceRow :=
  (s.definitions, s.versions, s.instances)

theorem versionPromise_of_keeps {x : Trail Store StoreKey} (h : Prog.Keeps versionView x.pend)
    (a : Answer) {s : Store} (hs : Sound s) : VersionPromise x a s := by
  have hview := h s
  simp only [versionView, Prod.mk.injEq] at hview
  obtain ⟨hd, hv, hi⟩ := hview
  exact ⟨hs.of_eq hd hv hi, .of_eq hv, .of_eq hi, fun _ _ => by rw [hd], fun _ _ h => by rw [hv, h]⟩

theorem currents_insert {s : Store} (id : Uuid) {row : DefinitionRow} (hrow : row.currentPublishedVersion = none)
    (d : Uuid) : ((s.definitions.insert id row).find? d).bind (·.currentPublishedVersion) =
      (s.definitions.find? d).bind (·.currentPublishedVersion) := by
  by_cases hd : d = id
  · subst hd
    cases hold : s.definitions.find? d with
    | none => rw [Table.find?_insert_self hold, Option.bind_some, hrow, Option.bind_none]
    | some r => rw [Table.find?_insert_of_some hold]
  · rw [Table.find?_insert_ne _ _ hd]

theorem currents_modify {s : Store} (id : Uuid) {change : DefinitionRow → DefinitionRow}
    (hchange : ∀ r, (change r).currentPublishedVersion = r.currentPublishedVersion) (d : Uuid) :
    ((s.definitions.modify id change).find? d).bind (·.currentPublishedVersion) =
      (s.definitions.find? d).bind (·.currentPublishedVersion) := by
  by_cases hd : d = id
  · subst hd
    rw [Table.find?_modify_self]
    cases s.definitions.find? d with
    | none => rfl
    | some r => exact hchange r
  · rw [Table.find?_modify_ne _ _ hd]

/-- So far a body changed drafts only. -/
def DraftsOnly (x : Trail Store StoreKey) (s : Store) : Prop :=
  Sound (x.pend s) ∧ KeepsVersions s (x.pend s) ∧ (x.pend s).definitions = s.definitions ∧
    (x.pend s).instances = s.instances ∧
    ∀ id, .version id ∉ x.locks → s.versions.find? id = none → (x.pend s).versions.find? id = none

/-- A change of the draft row that the body read. -/
theorem redrafts_modify {s : Store} {id : Uuid} {d : Uuid} {v : VersionRow} (hv : s.versions.find? id = some v)
    (hdraft : v.Is d 0) {change : VersionRow → VersionRow}
    (hchange : ∀ r, (change r).Is r.definitionId r.version) :
    Redrafts s fun j r => if j = id then change r else r where
  identity {j r} hr := by
    split_ifs
    · exact hchange r
    · exact ⟨rfl, rfl⟩
  published {j r} hr hpos := by
    refine if_neg ?_
    rintro rfl
    cases hv.symm.trans hr
    exact absurd hdraft.2 hpos.ne'

theorem draftsOnly_redraft {x : Trail Store StoreKey} {s : Store} (hs : Sound s)
    {f : Uuid → VersionRow → VersionRow} (hf : Redrafts s f)
    (hpend : x.pend s = { s with versions := s.versions.mapRows f }) : DraftsOnly x s := by
  unfold DraftsOnly
  rw [hpend]
  refine ⟨hs.redraft hf, hf.keeps, rfl, rfl, fun id _ hnone => ?_⟩
  rw [Table.find?_mapRows, hnone]
  rfl

theorem draftsOnly_insert {x : Trail Store StoreKey} {s : Store} (hs : Sound s) {id : Uuid} {v : VersionRow}
    (hv : v.version = 0) (hpend : x.pend s = { s with versions := s.versions.insert id v })
    (hlock : .version id ∈ x.locks) : DraftsOnly x s := by
  unfold DraftsOnly
  rw [hpend]
  refine ⟨hs.insertDraft id hv, keepsVersions_insert id v, rfl, rfl, fun j hj hnone => ?_⟩
  refine (Table.find?_insert_ne _ _ ?_).trans hnone
  rintro rfl
  exact hj hlock

section Drafts
variable [Formats]

theorem safe_create (ctx : RequestCtx) (body : CreateWorkflowDefinitionRequest) {s : Store} (hs : Sound s) :
    (createDefinition ctx body).Safe versionTerms VersionPromise .start s := by
  refine safe_liftExcept_bind fun principal _ => safe_liftExcept_bind fun _ _ =>
    Prog.Safe.require_bind fun _ => safe_liftExcept_bind fun _ _ => safe_liftExcept_bind fun required _ =>
      Prog.Safe.execute_bind fun u₁ h₁ _ _ => Prog.Safe.execute_bind fun u₂ h₂ _ _ =>
        Prog.Safe.pure fun u h => ?_
  have hu : Sound u := h.1 (h₂.1 (h₁.1 hs))
  refine ⟨(hu.insertDraft _ rfl).redefine (currents_insert _ rfl), keepsVersions_insert _ _,
    .of_eq rfl, fun d hd => ?_, fun id hid hnone => ?_⟩
  · refine Table.find?_insert_ne _ _ ?_
    rintro rfl
    exact hd (by simp [Trail.push, Trail.start])
  · refine (Table.find?_insert_ne _ _ ?_).trans hnone
    rintro rfl
    exact hid (by simp [Trail.push, Trail.start])

/-- Saving the draft changes drafts only, whatever commits after its last statement. -/
theorem safe_saveDraft (ctx : RequestCtx) (defUuid : Uuid) (graph : WorkflowGraph) (required : List String)
    {x : Trail Store StoreKey} (hx : x.pend = id) {s : Store} (hs : Sound s) :
    (saveDraft ctx defUuid graph required).Safe versionTerms
      (fun y _ u => ∀ u', versionTerms.rely y.locks u u' → DraftsOnly y u') x s := by
  refine Prog.Safe.query_bind fun u₁ h₁ _ => ?_
  have hsound₁ := h₁.1 hs
  have hkeep : ∀ {t u vid v}, KeepsVersions t u → versionAt t defUuid 0 = some (vid, v) →
      ∃ w, u.versions.find? vid = some w ∧ w.Is defUuid 0 := by
    intro t u vid v hkeeps hat
    obtain ⟨hv, hd, hzero⟩ := versionAt_some hat
    obtain ⟨w, hw, hid, _⟩ := hkeeps vid v hv
    exact ⟨w, hw, hid.1.trans hd, hid.2.trans hzero⟩
  cases hdraft : (versionAt (x.pend u₁) defUuid 0).filter fun v => v.2.publishedAt = none with
  | some draft =>
    obtain ⟨vid, v⟩ := draft
    refine Prog.Safe.execute_bind fun u₂ h₂ _ _ => Prog.Safe.pure fun u₃ h₃ u h => ?_
    rw [hx] at hdraft
    obtain ⟨w, hw, hzero⟩ := hkeep ((h₂.2.1.trans h₃.2.1).trans h.2.1)
      (Option.filter_eq_some_iff.mp hdraft).1
    have hchange : ∀ r : VersionRow, ({ r with graph, requiredPermissions := required } : VersionRow).Is
        r.definitionId r.version := fun _ => ⟨rfl, rfl⟩
    refine draftsOnly_redraft (h.1 (h₃.1 (h₂.1 hsound₁))) (redrafts_modify hw hzero hchange) ?_
    simp only [Trail.push, Trail.look, Function.comp, hx, id]
    rfl
  | none =>
    refine Prog.Safe.execute_bind fun u₂ h₂ _ _ => Prog.Safe.pure fun u₃ h₃ u h => ?_
    have hsound := h.1 (h₃.1 (h₂.1 hsound₁))
    cases hat : versionAt u₂ defUuid 0 with
    | some draft =>
      obtain ⟨vid, v⟩ := draft
      obtain ⟨w, hw, hzero⟩ := hkeep (h₃.2.1.trans h.2.1) hat
      have hchange : ∀ r : VersionRow, (r.redrafted graph required).Is r.definitionId r.version :=
        fun _ => ⟨rfl, rfl⟩
      refine draftsOnly_redraft hsound (redrafts_modify hw hzero hchange) ?_
      simp only [Trail.push, Trail.look, Function.comp, hx, id, hat]
      rfl
    | none =>
      refine @draftsOnly_insert _ _ hsound (ctx.fresh 0) {
        publicId := (PublicId.mk .workflowVersion (ctx.fresh 0)).asStr, definitionId := defUuid
        version := 0, graph, requiredPermissions := required } rfl ?_ ?_
      · simp only [Trail.push, Trail.look, Function.comp, hx, id, hat]
      · simp [Trail.push, Trail.look, hx, hat]

theorem safe_updateGraph (ctx : RequestCtx) (principal : Principal) (defUuid : Uuid)
    (graph : Option WorkflowGraph) {x : Trail Store StoreKey} (hx : x.pend = id) {s : Store} (hs : Sound s) :
    (updateGraph ctx principal defUuid graph).Safe versionTerms
      (fun y _ u => ∀ u', versionTerms.rely y.locks u u' → DraftsOnly y u') x s := by
  cases graph with
  | none =>
    refine Prog.Safe.pure fun u h u' h' => ?_
    unfold DraftsOnly
    rw [hx]
    exact ⟨h'.1 (h.1 hs), .refl _, rfl, rfl, fun _ _ h => h⟩
  | some graph =>
    refine safe_liftExcept_bind fun _ _ => safe_liftExcept_bind fun required _ => ?_
    refine Prog.Safe.bind ((safe_saveDraft ctx defUuid graph required hx hs).mono fun y verId u h => ?_)
    exact Prog.Safe.pure fun v hv v' hv' => h v' (versionTerms.trans hv hv')

theorem safe_update (ctx : RequestCtx) (id : String) (body : UpdateWorkflowDefinitionRequest) {s : Store}
    (hs : Sound s) : (updateDefinition ctx id body).Safe versionTerms VersionPromise .start s := by
  refine safe_liftExcept_bind fun principal _ => safe_liftExcept_bind fun _ _ =>
    safe_liftExcept_bind fun defUuid _ => Prog.Safe.queryForUpdate_bind fun u₁ h₁ _ => ?_
  cases hfound : (Trail.start.pend u₁).definitions.find? defUuid with
  | none => trivial
  | some row =>
    refine Prog.Safe.require_bind fun _ => Prog.Safe.bind ?_
    refine (safe_updateGraph ctx principal defUuid body.graph rfl (h₁.1 hs)).mono fun y verId u₂ h => ?_
    refine Prog.Safe.execute_bind fun u₃ h₃ _ _ => Prog.Safe.pure fun u₄ h₄ => ?_
    have hlocks : ∀ k ∈ y.locks, k ∈ [StoreKey.definition defUuid] ++ y.locks :=
      fun _ => List.mem_append_right _
    obtain ⟨hsound, hkeeps, hdefs, hinst, hfresh⟩ :=
      h u₄ (versionTerms.trans h₃ (versionTerms.anti hlocks h₄))
    refine ⟨hsound.redefine (currents_modify _ fun _ => rfl), hkeeps, .of_eq hinst, fun d hd => ?_,
      fun j hj => hfresh j fun hy => hj (hlocks _ hy)⟩
    refine (Table.find?_modify_ne _ _ ?_).trans (by rw [hdefs])
    rintro rfl
    exact hd (List.mem_append_left _ List.mem_cons_self)

theorem safe_publishDraft (ctx : RequestCtx) {defUuid : Uuid} {row : DefinitionRow} {graph : WorkflowGraph}
    (hvalid : graph.validate = .ok ()) (required : List String) (scope idem : String)
    {x : Trail Store StoreKey} (hx : x.pend = id) (hlock : .definition defUuid ∈ x.locks) {s : Store}
    (hs : Sound s) (hrow : s.definitions.find? defUuid = some row) :
    (publishDraft ctx defUuid row.publicId graph required >>= fun dto => do
      Idempotency.put scope idem 200 (.version dto)
      return .version dto).Safe versionTerms VersionPromise x s := by
  obtain ⟨seen, locks, pend⟩ := x
  obtain rfl : pend = id := hx
  simp only [publishDraft, Idempotency.put, AnswerTable.put, bind_assoc, pure_bind]
  refine Prog.Safe.query_bind fun u₁ h₁ _ => Prog.Safe.require_bind fun _ =>
      Prog.Safe.execute_bind fun u₂ h₂ _ hfree =>
    Prog.Safe.execute_bind fun u₃ h₃ _ _ => Prog.Safe.execute_bind fun u₄ h₄ _ _ =>
      Prog.Safe.execute_bind fun u₅ h₅ _ _ => Prog.Safe.execute_bind fun u₆ h₆ _ _ =>
        Prog.Safe.pure fun u h => ?_
  -- what the locks of the insert, and those of the definition before it, let the others do
  have hafter : versionTerms.rely (.version (ctx.fresh 0) :: locks) u₂ u := by
    refine versionTerms.trans (versionTerms.anti ?_ h₃) (versionTerms.trans (versionTerms.anti ?_ h₄)
      (versionTerms.trans (versionTerms.anti ?_ h₅) (versionTerms.trans (versionTerms.anti ?_ h₆)
        (versionTerms.anti ?_ h)))) <;>
      simp +contextual [Trail.push, Trail.look]
  have hsince : versionTerms.rely locks u₁ u :=
    versionTerms.trans h₂ (versionTerms.anti (fun _ => List.mem_cons_of_mem _) hafter)
  have hsound₁ := h₁.1 hs
  have hsound := hsince.1 hsound₁
  have hrow₁ := (h₁.2.2.1 defUuid hlock).trans hrow
  have hrow' := (hsince.2.2.1 defUuid hlock).trans hrow₁
  have hcurrent : maxVersion u₁ defUuid = u.currentVersion defUuid := by
    rw [hsound₁.maxVersion_eq, Store.currentVersion, Store.currentVersion, hrow₁, hrow']
  have hfresh : u.versions.find? (ctx.fresh 0) = none := by
    refine hafter.2.2.2 _ List.mem_cons_self ?_
    simp only [versionFree, Trail.look, id] at hfree
    by_contra hsome
    simp [Option.isSome_iff_ne_none, hsome] at hfree
  have hchange : ∀ r : DefinitionRow, ({ r with
      status := .published, currentPublishedVersion := some (maxVersion u₁ defUuid + 1)
      updatedAt := ctx.now } : DefinitionRow).currentPublishedVersion = some (u.currentVersion defUuid + 1) :=
    fun _ => by rw [hcurrent]
  have hpublished := hsound.publish hrow' hfresh
    (v := ⟨(PublicId.mk .workflowVersion (ctx.fresh 0)).asStr, defUuid, maxVersion u₁ defUuid + 1,
      graph, required, some ctx.now, some ctx.actor⟩)
    ⟨rfl, by rw [hcurrent]⟩ (hsound.currentVersion_nonneg _) hvalid rfl hchange
  have hredraft : ∀ t, Redrafts t fun _ r =>
      if r.definitionId = defUuid ∧ r.version = 0 then r.redrafted graph required else r := by
    refine fun t => ⟨fun _ => ?_, fun _ hpos => ?_⟩
    · split_ifs <;> exact ⟨rfl, rfl⟩
    · exact if_neg fun hdraft => hpos.ne' hdraft.2
  refine ⟨(hpublished.redraft (hredraft _)).of_eq rfl rfl rfl,
    (keepsVersions_insert _ _).trans (hredraft _).keeps, .of_eq rfl, fun d hd => ?_, fun j hj hnone => ?_⟩
  · refine Table.find?_modify_ne _ _ ?_
    rintro rfl
    exact hd (by simp [Trail.push, Trail.look, hlock])
  · have hne : j ≠ ctx.fresh 0 := by
      rintro rfl
      exact hj (by simp [Trail.push, Trail.look])
    refine (Table.find?_mapRows _ _ _).trans ?_
    rw [Option.map_eq_none_iff]
    exact (Table.find?_insert_ne _ _ hne).trans hnone

theorem safe_publish (ctx : RequestCtx) (id : String) {s : Store} (hs : Sound s) :
    (publishDefinition ctx id).Safe versionTerms VersionPromise .start s := by
  refine safe_liftExcept_bind fun idem _ => safe_liftExcept_bind fun principal _ =>
    safe_liftExcept_bind fun _ _ => Prog.Safe.require_bind fun _ => safe_liftExcept_bind fun defUuid _ =>
      Prog.Safe.query_bind fun u₁ h₁ _ => ?_
  cases hstored : (Idempotency.answers.rows (Trail.start.pend u₁)).find? (s!"workflow.publish:{id}", idem) with
  | some stored =>
    dsimp only [replayPublish]
    split_ifs
    · cases stored.2 with
      | version dto => exact Prog.Safe.pure fun u h => versionPromise_of_keeps (.id _) _ (h.1 (h₁.1 hs))
      | «instance» dto => trivial
    · trivial
  | none =>
    refine Prog.Safe.queryForUpdate_bind fun u₂ h₂ _ => ?_
    cases hfound : ((Trail.start.look u₁).pend u₂).definitions.find? defUuid with
    | none => trivial
    | some row =>
      refine safe_liftExcept_bind fun creator _ => Prog.Safe.queryForUpdate_bind fun u₃ h₃ _ => ?_
      have hlock : StoreKey.definition defUuid ∈ [StoreKey.definition defUuid] := List.mem_cons_self
      split
      · trivial
      · refine safe_liftExcept_bind fun _ hvalid => safe_liftExcept_bind fun required _ => ?_
        refine safe_publishDraft ctx (Finance.mapError_ok.mp hvalid) required _ idem rfl ?_
          (h₃.1 (h₂.1 (h₁.1 hs))) ((h₃.2.2.1 defUuid hlock).trans hfound)
        exact List.mem_append_right _ hlock

end Drafts

theorem safe_insertPinned {id : Uuid} {row : InstanceRow} {v : VersionRow} {f : Unit → StoreTx Answer}
    {x : Trail Store StoreKey} (hx : x.pend = fun s => s) (hf : (f ()).Writes (Prog.Keeps versionView))
    {s : Store} (hs : Sound s) (hv : s.versions.find? row.versionId = some v)
    (hpin : v.Is row.definitionId row.versionNumber) (hpos : 0 < row.versionNumber)
    (hentry : row.currentNodeId = some v.graph.entry) :
    (insertInstance id row >>= f).Safe versionTerms VersionPromise x s := by
  refine Prog.Safe.execute_bind fun u₁ h₁ _ _ => ?_
  refine Prog.Safe.of_writes (.id versionView) (fun _ _ => .comp) hf fun y g a u hg hy hlocks h => ?_
  have hsound := h.1 (h₁.1 hs)
  have hv' := (h₁.2.1.trans h.2.1).published hv (hpin.2 ▸ hpos)
  have hview : versionView (y.pend u) = (u.definitions, u.versions, u.instances.insert id row) := by
    rw [hy]
    refine (hg _).trans ?_
    simp only [Trail.push, Function.comp, hx]
    rfl
  simp only [versionView, Prod.mk.injEq] at hview
  obtain ⟨hd, hvs, hi⟩ := hview
  refine ⟨(hsound.insertInstance id hv' hpin hpos).of_eq hd hvs hi, .of_eq hvs, ?_, fun _ _ => by rw [hd],
    fun _ _ hnone => by rw [hvs, hnone]⟩
  intro j irow hnone hsome
  rw [hi] at hsome
  rw [hvs]
  exact startsAtEntry_insert id hv' hentry j irow hnone hsome

theorem publishedVersionAt_some {s : Store} (hs : Sound s) {d : Uuid} {row : DefinitionRow} {n : Int}
    (hrow : s.definitions.find? d = some row) (hn : row.currentPublishedVersion = some n)
    {t : Store} {x : Uuid × VersionRow} (hx : publishedVersionAt t d n = some x) :
    t.versions.find? x.1 = some x.2 ∧ x.2.Is d n ∧ 0 < n := by
  obtain ⟨hfind, his⟩ := versionAt_some (Option.filter_eq_some_iff.mp hx).1
  exact ⟨hfind, his, hs.current_pos d row n hrow hn⟩

theorem keepsVersionView_put (scope key : String) (status : Int) (body : StoredBody) :
    (Idempotency.put scope key status body).Writes (Prog.Keeps versionView) :=
  AnswerTable.writes_put (.id _) (fun _ _ _ _ => rfl) _ _ _

theorem keepsVersionView_insertEvent (event : EventEnvelope) :
    (insertEvent event).Writes (Prog.Keeps versionView) :=
  Prog.writes_execute (.id _) fun _ _ _ => rfl

section Starts
variable [Formats] [Clock]

theorem safe_startBelowCap_versions (ctx : RequestCtx) (defUuid : Uuid) (payload : Json)
    (scope idem : String) {x : Trail Store StoreKey} (hx : x.pend = fun s => s) {s : Store} (hs : Sound s) :
    (startBelowCap ctx defUuid payload scope idem).Safe versionTerms VersionPromise x s := by
  obtain ⟨seen, locks, pend⟩ := x
  obtain rfl : pend = fun s => s := hx
  refine Prog.Safe.query_bind fun u₁ h₁ _ => ?_
  split
  · trivial
  · next row pubVer hdef =>
    obtain ⟨row', hrow, hcur⟩ := Option.bind_eq_some_iff.mp hdef
    obtain ⟨n, hn, he⟩ := Option.map_eq_some_iff.mp hcur
    cases he
    refine Prog.Safe.query_bind fun u₂ h₂ _ => ?_
    split
    · trivial
    · next verUuid ver hver =>
      obtain ⟨hfind, his, hpos⟩ := publishedVersionAt_some (h₁.1 hs) hrow hn hver
      refine safe_liftExcept_bind fun creator _ => safe_liftExcept_bind fun _ _ => ?_
      have hinsert : ∀ sla, ((do
          let dto := startedDto ctx row verUuid pubVer ver.graph sla
          insertInstance (ctx.fresh 0) (startedRow ctx defUuid verUuid pubVer ver.graph payload)
          insertEvent (startedEvent row dto)
          Idempotency.put scope idem 201 (.instance dto)
          return .instance dto) : StoreTx Answer).Safe versionTerms VersionPromise
            ((Trail.look ⟨seen, locks, fun s => s⟩ u₁).look u₂) u₂ := by
        intro sla
        refine safe_insertPinned rfl ?_ (h₂.1 (h₁.1 hs)) hfind his hpos rfl
        exact .bind (keepsVersionView_insertEvent _) fun _ =>
          .bind (keepsVersionView_put _ _ _ _) fun _ => trivial
      unfold slaDeadline
      split
      · exact hinsert none
      · exact Prog.Safe.okOr_bind fun sla _ => hinsert sla

theorem safe_start_versions (ctx : RequestCtx) (id : String) (body : StartWorkflowRequest) {s : Store}
    (hs : Sound s) : (startInstance ctx id body).Safe versionTerms VersionPromise .start s := by
  refine Prog.Safe.require_bind fun _ => safe_liftExcept_bind fun idem _ =>
    safe_liftExcept_bind fun principal _ => safe_liftExcept_bind fun _ _ =>
      safe_liftExcept_bind fun defUuid _ => Prog.Safe.query_bind fun u₁ h₁ _ => ?_
  have hsound := h₁.1 hs
  cases hstored : (Idempotency.answers.rows (Trail.start.pend u₁)).find? (s!"workflow.start:{id}", idem) with
  | some stored =>
    dsimp only [replayStart]
    split_ifs
    · cases stored.2 with
      | «instance» dto => exact Prog.Safe.pure fun u h => versionPromise_of_keeps (.id _) _ (h.1 hsound)
      | version dto => trivial
    · trivial
  | none =>
    simp only [enforceConcurrencyCap, countActiveInstances, bind_assoc, pure_bind]
    refine Prog.Safe.query_bind fun u₂ h₂ _ => Prog.Safe.query_bind fun u₃ h₃ _ =>
      Prog.Safe.require_bind fun _ => ?_
    exact safe_startBelowCap_versions ctx defUuid body.payload _ idem rfl (h₃.1 (h₂.1 hsound))

omit [Clock] in
theorem safe_ingest_versions (ctx : RequestCtx) (body : TriggerEventRequest) (k : Nat) {s : Store}
    (hs : Sound s) : (ingestTriggerEvent ctx body k).Safe versionTerms VersionPromise .start s := by
  refine safe_liftExcept_bind fun principal _ => safe_liftExcept_bind fun _ _ =>
    Prog.Safe.require_bind fun _ => Prog.Safe.query_bind fun u₁ h₁ _ => ?_
  have hsound := h₁.1 hs
  split
  · trivial
  · next t ht =>
    obtain ⟨⟨d, row⟩, hrow, hat⟩ :=
      List.mem_filterMap.mp (List.mem_filter.mp (List.mem_of_getElem? ht)).1
    obtain ⟨n, hn, hver⟩ := Option.bind_eq_some_iff.mp hat
    obtain ⟨v, hv, rfl⟩ := Option.map_eq_some_iff.mp hver
    have hfound := Table.find?_eq_some.mpr (List.mem_filter.mp hrow).1
    obtain ⟨hfind, his, hpos⟩ := publishedVersionAt_some hsound hfound hn hv
    simp only [enforceConcurrencyCap, countActiveInstances, Prog.mapError_bind, Prog.mapError_query,
      Prog.mapError_require, Prog.mapError_pure, bind_assoc, pure_bind]
    refine Prog.Safe.query_bind fun u₂ h₂ _ => Prog.Safe.query_bind fun u₃ h₃ _ =>
      Prog.Safe.require_bind fun _ => safe_liftExcept_bind fun creator _ => ?_
    split
    · trivial
    · refine safe_insertPinned rfl ?_ (h₃.1 (h₂.1 hsound)) ((h₂.2.1.trans h₃.2.1).published hfind
        (his.2 ▸ hpos)) ⟨his.1, rfl⟩ (his.2 ▸ hpos) rfl
      exact .bind (keepsVersionView_insertEvent _) fun _ => trivial

theorem safe_step_versions [JsonText] (req : RunRequest) (turn : Turn) (id : Uuid) {s : Store}
    (hs : Sound s) : (stepInstance req turn id).Safe versionTerms VersionPromise .start s := by
  refine Prog.Safe.of_writes (W := StepsOnly id) (.id id) (fun _ _ => .comp)
    (.bind (writes_onStore (writes_advanceInstance req turn id)) fun _ => trivial) fun y g a u hg hy _ h => ?_
  obtain ⟨f, hf, hgf⟩ := hg
  have hpend : y.pend u = onRuntime f u := by
    rw [hy]
    exact hgf u
  unfold VersionPromise
  rw [hpend]
  exact ⟨(h.1 hs).step hf, .of_eq rfl, hf.startsAtEntry, fun _ _ => rfl, fun _ _ h => h⟩

theorem safe_versions [JsonText] (r : Request) {s : Store} (hs : Sound s) :
    r.body.Safe versionTerms VersionPromise .start s := by
  cases r with
  | create ctx body => exact safe_create ctx body hs
  | update ctx id body => exact safe_update ctx id body hs
  | publish ctx id => exact safe_publish ctx id hs
  | start ctx id body => exact safe_start_versions ctx id body hs
  | ingest ctx body k => exact safe_ingest_versions ctx body k hs
  | step req turn id => exact safe_step_versions req turn id hs

end Starts

section Runs
variable [Formats] [JsonText] [Clock] {ι : Type} [DecidableEq ι] {request : ι → Request} {db : Store}
  {c d : Config ι Store StoreKey Exit Answer}

/-- A commit keeps its promise, and nothing else changes the store. -/
theorem versions_step (h0 : Sound db) (h : Reachable (fun i => (request i).body) db c) (hs : Step c d) :
    KeepsVersions c.db d.db ∧ StartsAtEntry c.db d.db := by
  cases hs with
  | commit hrun hprog =>
    have hsafe := h.unconditional.safe (fun i => safe_versions (request i) h0)
      (fun _ _ _ _ _ _ _ => trivial) fun _ _ _ _ _ _ _ => versionPromise_rely
    obtain ⟨x, _, hpend, _, _, hkeeps, hentry, _⟩ := hsafe.promise hrun hprog
    rw [hpend] at hkeeps hentry
    exact ⟨hkeeps, hentry⟩
  | exec | exit | crash => exact ⟨.refl _, .of_eq rfl⟩

theorem keepsVersions_run (h0 : Sound db) (h : Reachable (fun i => (request i).body) db c)
    (hrun : Relation.ReflTransGen Step c d) :
    Reachable (fun i => (request i).body) db d ∧ KeepsVersions c.db d.db := by
  induction hrun with
  | refl => exact ⟨h, .refl _⟩
  | tail _ hs ih => exact ⟨ih.1.step hs, ih.2.trans (versions_step h0 ih.1 hs).1⟩

theorem published_versions_immutable (h0 : Sound db) (h : Reachable (fun i => (request i).body) db c) :
    Sound c.db ∧
    (∀ d, Relation.ReflTransGen Step c d → ∀ id v, c.db.versions.find? id = some v → 0 < v.version →
      d.db.versions.find? id = some v) ∧
    ∀ d, Step c d → StartsAtEntry c.db d.db := by
  refine ⟨?_, fun d hrun id v hv hpos => (keepsVersions_run h0 h hrun).2.published hv hpos,
    fun d hs => (versions_step h0 h hs).2⟩
  exact h.unconditional.safe_invariant (fun i => safe_versions (request i) h0)
    (fun _ _ _ _ _ _ _ => trivial) (fun _ _ _ _ _ _ _ => versionPromise_rely) h0
    fun _ _ _ _ _ hpromise => hpromise.1

end Runs

def createPublishStart [Formats] : Fin 3 → Request
  | 0 => .create (.of "created" 10) ⟨"ending", "", .onlyEnd⟩
  | 1 => .publish (.of "published" 20) (PublicId.mk .workflowDefinition 10).asStr
  | 2 => .start (.of "started" 30) (PublicId.mk .workflowDefinition 10).asStr ⟨.null, false⟩

theorem published_versions_immutable_first_version :
    letI := canonicalFormats
    letI := plainText
    letI := secondsClock
    ∃ c, Reachable (fun i => (createPublishStart i).body) .empty c ∧ c.db.currentVersion 10 = 1 ∧
      c.db.statusOf 30 = some .running ∧ Sound c.db ∧
      (∀ d, Relation.ReflTransGen Step c d → ∀ id v, c.db.versions.find? id = some v → 0 < v.version →
        d.db.versions.find? id = some v) ∧
      ∀ d, Step c d → StartsAtEntry c.db d.db := by
  let := canonicalFormats
  let := plainText
  let := secondsClock
  obtain ⟨c, hc, hend⟩ := Reachable.of_play (fun i => (createPublishStart i).body) .empty
    (Move.through 0 2 ++ Move.through 1 9 ++ Move.through 2 8)
    (fun c => c.db.currentVersion 10 = 1 && c.db.statusOf 30 = some .running) (by decide +kernel)
  simp only [Bool.and_eq_true, decide_eq_true_eq] at hend
  exact ⟨c, hc, hend.1, hend.2, published_versions_immutable sound_empty hc⟩

end Noxara.Workflows
