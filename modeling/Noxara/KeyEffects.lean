import Noxara.CustomerKeys

/-! What one commit or one call does to the keys of an organization, and what it leaves as it is. -/
namespace Noxara.CustomerKeys

open Crypto Transaction
open Finance (Uuid Formats)

def Live (w : World) : Prop :=
  ∀ d, w.dataKey = some d → ∃ row st, w.cmks.find? d.cmkId = some row ∧ row.status = .active ∧
    w.kms.find? row.providerKeyId = some st ∧ st.revoked = false

/-- No row is of that key of the KMS. -/
def World.Untaken (w : World) (id : String) : Prop :=
  ∀ k row, w.cmks.find? k = some row → row.providerKeyId ≠ id

theorem live_start (kms : MockKms) : Live (.start kms) := by
  intro d hd
  cases hd

variable [Primitives]

/-- The data key is `dek`, under the key that its row names. -/
def World.Wraps (w : World) (dek : List UInt8) : Prop :=
  ∃ d row st raw, w.dataKey = some d ∧ w.cmks.find? d.cmkId = some row ∧
    w.kms.find? row.providerKeyId = some st ∧ Base64.decode d.wrappedDekB64 = some raw ∧
    openFrame WRAPPED_DEK_VERSION st.material.toList raw = .ok dek ∧ dek.length = 32

structure Sound (w : World) : Prop where
  current : ∀ k row, w.cmks.find? k = some row → row.status = .active → ∃ d, w.dataKey = some d ∧ d.cmkId = k
  readable : ∀ d, w.dataKey = some d → ∃ dek, w.Wraps dek

theorem World.Wraps.unique {w : World} {dek dek' : List UInt8} (h : w.Wraps dek) (h' : w.Wraps dek') :
    dek = dek' := by
  obtain ⟨d, row, st, raw, hd, hrow, hst, hraw, hopen, -⟩ := h
  obtain ⟨d', row', st', raw', hd', hrow', hst', hraw', hopen', -⟩ := h'
  rw [hd] at hd'
  cases hd'
  rw [hrow] at hrow'
  cases hrow'
  rw [hst] at hst'
  cases hst'
  rw [hraw] at hraw'
  cases hraw'
  rw [hopen] at hopen'
  cases hopen'
  rfl

theorem sound_start (kms : MockKms) : Sound (.start kms) where
  current k row h := by cases h
  readable d h := by cases h

variable [Formats]

def KeyOp.provisions : KeyOp → Bool
  | provision _ _ => true
  | _ => false

/-- What a request may do at once to what everybody sees. Where `sparing` is set, no call is to cut off the
key of an active row. -/
structure Effect (sparing : Bool) (op : KeyOp) (act : Act) (ls : List Lock) (s t : World) : Prop where
  kept : ∀ k row, s.cmks.find? k = some row → ∃ row', t.cmks.find? k = some row' ∧
    row'.providerKeyId = row.providerKeyId ∧ (row'.status = .active → row.status = .active)
  rows : ∀ k, .cmk k ∉ ls → t.cmks.find? k = s.cmks.find? k
  dataKey : .dataKey ∉ ls → t.dataKey = s.dataKey
  new : ∀ k row', t.cmks.find? k = some row' →
    (∃ row, s.cmks.find? k = some row ∧ row.providerKeyId = row'.providerKeyId) ∨
      op.keyId? = some row'.providerKeyId
  keys : ∀ id st, s.kms.find? id = some st → ∃ st', t.kms.find? id = some st' ∧ st'.material = st.material
  others : ∀ id, op.keyId? ≠ some id → s.Untaken id → t.kms.find? id = s.kms.find? id
  wraps : ∀ dek, s.Wraps dek → t.Wraps dek
  active : act = .call ∨ op.provisions = false → t.HasActive → s.HasActive
  sound : Sound s → Sound t
  live : Sound s → sparing = true → Live s → Live t

/-- What the world has to be for the data key to be wrapped and, where `sparing` is set, unwrapped. -/
structure Inv (sparing : Bool) (w : World) : Prop where
  sound : Sound w
  live : sparing = true → Live w

section
variable {sparing : Bool} {op : KeyOp} {act : Act} {ls : List Lock} {s t : World}

theorem Effect.inv (h : Effect sparing op act ls s t) (hs : Inv sparing s) : Inv sparing t :=
  ⟨h.sound hs.sound, fun hsp => h.live hs.sound hsp (hs.live hsp)⟩

theorem Effect.of_call {m : MockKms}
    (hkeys : ∀ id st, s.kms.find? id = some st → ∃ st', m.find? id = some st' ∧ st'.material = st.material)
    (hothers : ∀ id, op.keyId? ≠ some id → s.Untaken id → m.find? id = s.kms.find? id)
    (hlive : sparing = true → ∀ k row st, s.cmks.find? k = some row → row.status = .active →
      s.kms.find? row.providerKeyId = some st → st.revoked = false →
      ∃ st', m.find? row.providerKeyId = some st' ∧ st'.revoked = false) :
    Effect sparing op act ls s { s with kms := m } := by
  have hwraps : ∀ dek, s.Wraps dek → World.Wraps { s with kms := m } dek := by
    rintro dek ⟨d, row, st, raw, hd, hrow, hst, hraw, hopen, hlen⟩
    obtain ⟨st', hst', hmaterial⟩ := hkeys _ st hst
    exact ⟨d, row, st', raw, hd, hrow, hst', hraw, by rwa [hmaterial], hlen⟩
  exact {
    kept := fun k row h => ⟨row, h, rfl, fun ha => ha⟩
    rows := fun _ _ => rfl
    dataKey := fun _ => rfl
    new := fun k row' h => .inl ⟨row', h, rfl⟩
    keys := hkeys
    others := hothers
    wraps := hwraps
    active := fun _ h => h
    sound := fun h => ⟨h.current, fun d hd => (h.readable d hd).imp hwraps⟩
    live := fun _ hsp h d hd => by
      obtain ⟨row, st, hrow, hactive, hst, hrevoked⟩ := h d hd
      obtain ⟨st', hst', hrevoked'⟩ := hlive hsp _ row st hrow hactive hst hrevoked
      exact ⟨row, st', hrow, hactive, hst', hrevoked'⟩ }

theorem Effect.same : Effect sparing op act ls s s :=
  .of_call (m := s.kms) (fun _ st h => ⟨st, h, rfl⟩) (fun _ _ _ => rfl) fun _ _ _ st _ _ h hr => ⟨st, h, hr⟩

theorem Effect.created {id : String} {st : MockKeyState} (hown : op.keyId? = some id)
    (hunused : s.kms.find? id = none) : Effect sparing op act ls s { s with kms := s.kms.upsert id st } := by
  have hother : ∀ j x, s.kms.find? j = some x → (s.kms.upsert id st).find? j = some x := by
    intro j x hj
    have hne : j ≠ id := by
      rintro rfl
      rw [hunused] at hj
      cases hj
    rwa [Table.find?_upsert_ne _ _ hne]
  refine .of_call (fun j x hj => ⟨x, hother j x hj, rfl⟩) (fun j hj _ => ?_) fun _ k row x _ _ hx hr =>
    ⟨x, hother _ x hx, hr⟩
  have hne : j ≠ id := by
    rintro rfl
    exact hj hown
  exact Table.find?_upsert_ne _ _ hne

theorem Effect.cutOff {id : String} {k : Uuid} {row : CmkRow} (hrow : s.cmks.find? k = some row)
    (hid : row.providerKeyId = id)
    (hspares : sparing = true → ∀ k row st, s.cmks.find? k = some row → row.status = .active →
      s.kms.find? row.providerKeyId = some st → st.revoked = false → row.providerKeyId ≠ id) :
    Effect sparing op act ls s { s with kms := s.kms.modify id fun st => { st with revoked := true } } := by
  refine .of_call (fun j x hj => ?_) (fun j _ hj => ?_) fun hsp k' row' x hrow' ha hx hr => ⟨x, ?_, hr⟩
  · by_cases hji : j = id
    · subst hji
      exact ⟨{ x with revoked := true }, by rw [Table.find?_modify_self, hj]; rfl, rfl⟩
    · exact ⟨x, by rwa [Table.find?_modify_ne _ _ hji], rfl⟩
  · refine Table.find?_modify_ne _ _ ?_
    rintro rfl
    exact hj k row hrow hid
  · rwa [Table.find?_modify_ne _ _ (hspares hsp k' row' x hrow' ha hx hr)]

theorem Effect.provisioned {k : Uuid} {row : CmkRow} {d : DataKeyRow} {st : MockKeyState} {raw dek : List UInt8}
    (hop : op.provisions = true) (hown : op.keyId? = some row.providerKeyId) (hnone : s.dataKey = none)
    (hfree : s.cmks.find? k = none) (hkey : d.cmkId = k) (hactive : row.status = .active)
    (hst : s.kms.find? row.providerKeyId = some st) (hrevoked : st.revoked = false)
    (hraw : Base64.decode d.wrappedDekB64 = some raw)
    (hopen : openFrame WRAPPED_DEK_VERSION st.material.toList raw = .ok dek) (hlen : dek.length = 32)
    (hcmk : .cmk k ∈ ls) (hdata : .dataKey ∈ ls) :
    Effect sparing op .commit ls s ⟨s.cmks.insert k row, some d, s.kms⟩ := by
  have hnew : (s.cmks.insert k row).find? k = some row := Table.find?_insert_self hfree row
  have hwraps : World.Wraps ⟨s.cmks.insert k row, some d, s.kms⟩ dek :=
    ⟨d, row, st, raw, rfl, by rwa [hkey], hst, hraw, hopen, hlen⟩
  exact {
    kept := fun j r h => ⟨r, Table.find?_insert_of_some h row, rfl, fun ha => ha⟩
    rows := fun j hj => Table.find?_insert_ne _ _ (by rintro rfl; exact hj hcmk)
    dataKey := fun h => absurd hdata h
    new := fun j r h => by
      rcases Table.find?_insert_some h with h | ⟨-, rfl⟩
      · exact .inl ⟨r, h, rfl⟩
      · exact .inr hown
    keys := fun _ st h => ⟨st, h, rfl⟩
    others := fun _ _ _ => rfl
    wraps := by
      rintro dek ⟨d, _, _, _, hd, -⟩
      rw [hnone] at hd
      cases hd
    active := fun h => by
      rw [hop] at h
      simp at h
    sound := fun h => {
      current := fun j r hj ha => by
        rcases Table.find?_insert_some hj with hj | ⟨rfl, -⟩
        · obtain ⟨d, hd, -⟩ := h.current j r hj ha
          rw [hnone] at hd
          cases hd
        · exact ⟨d, rfl, hkey⟩
      readable := fun _ _ => ⟨dek, hwraps⟩ }
    live := fun _ _ _ d' hd' => by
      cases hd'
      exact ⟨row, st, by rwa [hkey], hactive, hst, hrevoked⟩ }

/-- The rows of these ids are marked rotating. -/
def mark (ks : List Uuid) (cmks : Table Uuid CmkRow) : Table Uuid CmkRow :=
  cmks.mapRows fun k r => if k ∈ ks then { r with status := .rotating } else r

omit [Primitives] [Formats] in
theorem find?_mark (ks : List Uuid) (cmks : Table Uuid CmkRow) (k : Uuid) :
    (mark ks cmks).find? k = (cmks.find? k).map fun r => if k ∈ ks then { r with status := .rotating } else r :=
  Table.find?_mapRows cmks _ k

theorem Effect.rotated {k : Uuid} {row : CmkRow} {marked : List Uuid} {d : DataKeyRow} {st : MockKeyState}
    {raw dek : List UInt8} (hown : op.keyId? = some row.providerKeyId) (hfree : s.cmks.find? k = none)
    (hkey : d.cmkId = k) (hactive : row.status = .active) (hhas : s.HasActive)
    (hmarks : ∀ j r, s.cmks.find? j = some r → r.status = .active → j ∈ marked) (hdek : s.Wraps dek)
    (hst : s.kms.find? row.providerKeyId = some st) (hrevoked : st.revoked = false)
    (hraw : Base64.decode d.wrappedDekB64 = some raw)
    (hopen : openFrame WRAPPED_DEK_VERSION st.material.toList raw = .ok dek) (hlen : dek.length = 32)
    (hcmk : .cmk k ∈ ls) (hmarked : ∀ j ∈ marked, .cmk j ∈ ls) (hdata : .dataKey ∈ ls) :
    Effect sparing op .commit ls s ⟨(mark marked s.cmks).insert k row, some d, s.kms⟩ := by
  have hmfree : (mark marked s.cmks).find? k = none := by simp [find?_mark, hfree]
  have hnew : ((mark marked s.cmks).insert k row).find? k = some row := Table.find?_insert_self hmfree row
  have hwraps : World.Wraps ⟨(mark marked s.cmks).insert k row, some d, s.kms⟩ dek :=
    ⟨d, row, st, raw, rfl, by rwa [hkey], hst, hraw, hopen, hlen⟩
  have hback : ∀ j r', ((mark marked s.cmks).insert k row).find? j = some r' → (j = k ∧ r' = row) ∨
      ∃ r, s.cmks.find? j = some r ∧ r' = if j ∈ marked then { r with status := .rotating } else r := by
    intro j r' hj
    rcases Table.find?_insert_some hj with hj | hj
    · rw [find?_mark] at hj
      obtain ⟨r, hr, he⟩ := Option.map_eq_some_iff.mp hj
      exact .inr ⟨r, hr, he.symm⟩
    · exact .inl hj
  exact {
    kept := fun j r h => by
      refine ⟨if j ∈ marked then { r with status := .rotating } else r,
        Table.find?_insert_of_some (by rw [find?_mark, h]; rfl) row, ?_, ?_⟩
      · split_ifs <;> rfl
      · split_ifs
        · intro ha
          cases ha
        · exact fun ha => ha
    rows := fun j hj => by
      have hjk : j ≠ k := by
        rintro rfl
        exact hj hcmk
      have hjm : j ∉ marked := fun hm => hj (hmarked j hm)
      rw [Table.find?_insert_ne _ _ hjk, find?_mark]
      simp [hjm]
    dataKey := fun h => absurd hdata h
    new := fun j r' hj => by
      rcases hback j r' hj with ⟨-, rfl⟩ | ⟨r, hr, rfl⟩
      · exact .inr hown
      · refine .inl ⟨r, hr, ?_⟩
        split_ifs <;> rfl
    keys := fun _ st h => ⟨st, h, rfl⟩
    others := fun _ _ _ => rfl
    wraps := fun dek' hdek' => by
      rwa [← hdek.unique hdek']
    active := fun _ _ => hhas
    sound := fun h => {
      current := fun j r' hj ha => by
        rcases hback j r' hj with ⟨rfl, -⟩ | ⟨r, hr, rfl⟩
        · exact ⟨d, rfl, hkey⟩
        · -- What was active is marked.
          split_ifs at ha with hm
          exact absurd (hmarks j r hr ha) hm
      readable := fun _ _ => ⟨dek, hwraps⟩ }
    live := fun _ _ _ d' hd' => by
      cases hd'
      exact ⟨row, st, by rwa [hkey], hactive, hst, hrevoked⟩ }

/-- A row is marked revoked. -/
theorem Effect.retired {k : Uuid} (hcmk : s.cmks.find? k ≠ none → .cmk k ∈ ls)
    (hdead : sparing = true → ∀ row, s.cmks.find? k = some row → row.status ≠ .active) :
    Effect sparing op .commit ls s { s with cmks := s.cmks.modify k fun r => { r with status := .revoked } } := by
  have hback : ∀ j r', (s.cmks.modify k fun r => { r with status := .revoked }).find? j = some r' →
      ∃ r, s.cmks.find? j = some r ∧ r'.providerKeyId = r.providerKeyId ∧
        (r'.status = .active → r.status = .active) := by
    intro j r' hj
    by_cases hjk : j = k
    · subst hjk
      rw [Table.find?_modify_self] at hj
      obtain ⟨r, hr, rfl⟩ := Option.map_eq_some_iff.mp hj
      exact ⟨r, hr, rfl, by intro ha; cases ha⟩
    · rw [Table.find?_modify_ne _ _ hjk] at hj
      exact ⟨r', hj, rfl, fun ha => ha⟩
  have hkept : ∀ j r, s.cmks.find? j = some r → ∃ r',
      (s.cmks.modify k fun r => { r with status := .revoked }).find? j = some r' ∧
        r'.providerKeyId = r.providerKeyId ∧ (r'.status = .active → r.status = .active) := by
    intro j r hj
    have hsome : ((s.cmks.modify k fun r => { r with status := .revoked }).find? j).isSome := by
      rw [Table.isSome_find?_modify, hj]
      rfl
    obtain ⟨r', hr'⟩ := Option.isSome_iff_exists.mp hsome
    obtain ⟨r₀, hr₀, hprovider, hactive⟩ := hback j r' hr'
    rw [hj] at hr₀
    cases hr₀
    exact ⟨r', hr', hprovider, hactive⟩
  have hwraps : ∀ dek, s.Wraps dek →
      World.Wraps { s with cmks := s.cmks.modify k fun r => { r with status := .revoked } } dek := by
    rintro dek ⟨d, row, st, raw, hd, hrow, hst, hrest⟩
    obtain ⟨row', hrow', hprovider, -⟩ := hkept _ row hrow
    exact ⟨d, row', st, raw, hd, hrow', by rwa [hprovider], hrest⟩
  exact {
    kept := hkept
    rows := fun j hj => by
      by_cases hjk : j = k
      · subst hjk
        have hnone : s.cmks.find? j = none := by
          by_contra hne
          exact hj (hcmk hne)
        simp [Table.find?_modify_self, hnone]
      · exact Table.find?_modify_ne _ _ hjk
    dataKey := fun _ => rfl
    new := fun j r' hj => by
      obtain ⟨r, hr, hprovider, -⟩ := hback j r' hj
      exact .inl ⟨r, hr, hprovider.symm⟩
    keys := fun _ st h => ⟨st, h, rfl⟩
    others := fun _ _ _ => rfl
    wraps := hwraps
    active := fun _ => by
      rintro ⟨j, r', hj, ha⟩
      obtain ⟨r, hr, -, hactive⟩ := hback j r' hj
      exact ⟨j, r, hr, hactive ha⟩
    sound := fun h => {
      current := fun j r' hj ha => by
        obtain ⟨r, hr, -, hactive⟩ := hback j r' hj
        exact h.current j r hr (hactive ha)
      readable := fun d hd => (h.readable d hd).imp hwraps }
    live := fun _ hsp h d hd => by
      obtain ⟨row, st, hrow, ha, hst, hrevoked⟩ := h d hd
      have hne : d.cmkId ≠ k := by
        rintro rfl
        exact hdead hsp row hrow ha
      exact ⟨row, st, by rwa [Table.find?_modify_ne _ _ hne], ha, hst, hrevoked⟩ }

end

end Noxara.CustomerKeys
