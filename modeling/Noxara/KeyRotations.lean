import Noxara.KeyEffects

/-! Provisioning, rotating and revoking side by side: whatever the others do in between, each commit and each
call of a request has one of the known effects. -/
namespace Noxara.CustomerKeys

open Crypto Transaction
open Finance (Uuid Formats)

variable [Primitives] [Formats]

section
variable {ι : Type}

def KeyOp.rotates : KeyOp → Bool
  | rotate _ => true
  | _ => false

/-- A rotation that moves the data key commits while it holds an active key. Where `sparing` is set, moreover,
no call cuts off the key of an active row. -/
def keyPremises (sparing : Bool) (ops : ι → KeyOp) : Premises ι World Lock where
  commit i x s := (ops i).rotates = true → .dataKey ∈ x.locks →
    ∃ k row, s.cmks.find? k = some row ∧ row.status = .active ∧ .cmk k ∈ x.locks
  call _ s t := sparing = true → ∀ k row st, s.cmks.find? k = some row → row.status = .active →
    s.kms.find? row.providerKeyId = some st → st.revoked = false →
    ∃ st', t.kms.find? row.providerKeyId = some st' ∧ st'.revoked = false

abbrev keyDuty (sparing : Bool) (ops : ι → KeyOp) (i : ι) : Duty World Lock :=
  .among (fun i => Effect sparing (ops i)) (Inv sparing) (keyPremises sparing ops) i

/-- The key of the KMS that a request has made for itself, or is going to make. -/
structure World.Own (w : World) (id : String) (o : Option MockKeyState) : Prop where
  found : w.kms.find? id = o
  untaken : w.Untaken id

variable {sparing : Bool} {ops : ι → KeyOp} {i : ι} {ls : List Lock} {s t : World}

section
variable (h : (keyDuty sparing ops i).rely ls s t)
include h

theorem rely_inv (hs : Inv sparing s) : Inv sparing t :=
  Duty.among_preserves (Inv sparing) (fun _ _ _ _ _ _ _ _ he hi => he.inv hi) h hs

theorem rely_wraps {dek : List UInt8} (hs : s.Wraps dek) : t.Wraps dek :=
  Duty.among_preserves (fun w => w.Wraps dek) (fun _ _ _ _ _ _ _ _ he hw => he.wraps dek hw) h hs

theorem rely_row {k : Uuid} {o : Option CmkRow} (hk : .cmk k ∈ ls) (hs : s.cmks.find? k = o) :
    t.cmks.find? k = o :=
  Duty.among_preserves (fun w => w.cmks.find? k = o)
    (fun _ _ _ _ _ _ hls _ he hf => (he.rows k fun hk' => hls _ hk' hk).trans hf) h hs

theorem rely_dataKey {o : Option DataKeyRow} (hk : .dataKey ∈ ls) (hs : s.dataKey = o) : t.dataKey = o :=
  Duty.among_preserves (fun w => w.dataKey = o)
    (fun _ _ _ _ _ _ hls _ he hf => (he.dataKey fun hk' => hls _ hk' hk).trans hf) h hs

theorem rely_own {kms : MockKms} (hfresh : FreshKeyIds ops kms) {id : String} {o : Option MockKeyState}
    (hid : (ops i).keyId? = some id) (hs : s.Own id o) : t.Own id o := by
  refine Duty.among_preserves (fun w => w.Own id o) (fun j act ls' u v hj _ _ he hu => ?_) h hs
  have hother : (ops j).keyId? ≠ some id := fun hjd => hj (hfresh.apart j i id hjd hid)
  refine ⟨(he.others id hother hu.untaken).trans hu.found, fun k row hrow => ?_⟩
  rcases he.new k row hrow with ⟨row₀, hrow₀, hprovider⟩ | hown
  · rw [← hprovider]
    exact hu.untaken k row₀ hrow₀
  · rintro rfl
    exact hother hown

/-- The bytes of a key stay as they are. -/
theorem rely_material {id : String} {m : Vector UInt8 32} (hs : ∃ st, s.kms.find? id = some st ∧ st.material = m) :
    ∃ st, t.kms.find? id = some st ∧ st.material = m := by
  refine Duty.among_preserves (fun w => ∃ st, w.kms.find? id = some st ∧ st.material = m)
    (fun j act ls' u v _ _ _ he hu => ?_) h hs
  obtain ⟨st, hst, hm⟩ := hu
  obtain ⟨st', hst', hm'⟩ := he.keys id st hst
  exact ⟨st', hst', hm'.trans hm⟩

theorem rely_kept {k : Uuid} {id : String} {p : Prop}
    (hs : ∃ row, s.cmks.find? k = some row ∧ row.providerKeyId = id ∧ (p → row.status ≠ .active)) :
    ∃ row, t.cmks.find? k = some row ∧ row.providerKeyId = id ∧ (p → row.status ≠ .active) := by
  refine Duty.among_preserves (fun w => ∃ row, w.cmks.find? k = some row ∧ row.providerKeyId = id ∧
    (p → row.status ≠ .active)) (fun j act ls' u v _ _ _ he hu => ?_) h hs
  obtain ⟨row, hrow, hprovider, hdead⟩ := hu
  obtain ⟨row', hrow', hprovider', hactive⟩ := he.kept k row hrow
  exact ⟨row', hrow', hprovider'.trans hprovider, fun hp ha => hdead hp (hactive ha)⟩

end

section
variable {α β : Type} {x : Open World Lock} {Q : β → Open World Lock → World → Prop}

theorem safe_askKms_bind {f : MockKms → Except CryptoError (α × MockKms)} {g : α → KeyReq β}
    (h : ∀ u a kms, (keyDuty sparing ops i).rely x.locks s u → f u.kms = .ok (a, kms) →
      (keyPremises sparing ops).call i u { u with kms } →
      Effect sparing (ops i) .call x.locks u { u with kms } ∧ (g a).Safe (keyDuty sparing ops i) Q x { u with kms }) :
    (askKms f >>= g).Safe (keyDuty sparing ops i) Q x s := by
  refine .ask_bind (fun u e _ _ => Effect.same) fun u a t hu hf hcall => ?_
  cases hk : f u.kms with
  | error e =>
    rw [hk] at hf
    cases hf
  | ok r =>
    rw [hk] at hf
    cases hf
    exact h u r.1 r.2 hu hk hcall

/-- A call that changes nothing. -/
theorem safe_askKms_read_bind {f : MockKms → Except CryptoError α} {g : α → KeyReq β}
    (h : ∀ u a, (keyDuty sparing ops i).rely x.locks s u → f u.kms = .ok a →
      (g a).Safe (keyDuty sparing ops i) Q x u) :
    (askKms (fun kms => (f kms).map fun a => (a, kms)) >>= g).Safe (keyDuty sparing ops i) Q x s := by
  refine safe_askKms_bind fun u a kms hu hf _ => ?_
  cases hk : f u.kms with
  | error e =>
    rw [hk] at hf
    cases hf
  | ok b =>
    rw [hk] at hf
    cases hf
    exact ⟨Effect.same, h u a hu hk⟩

/-- A new key, which nobody else knows. -/
theorem safe_createKey_bind {kms : MockKms} (hfresh : FreshKeyIds ops kms) {keyAlias : String} {r : Draws}
    {g : String → KeyReq β} (hid : (ops i).keyId? = some (mockKeyId keyAlias r))
    (hs : s.Own (mockKeyId keyAlias r) none)
    (h : ∀ u v, (keyDuty sparing ops i).rely x.locks s u → Effect sparing (ops i) .call x.locks u v →
      v.Own (mockKeyId keyAlias r) (some ⟨r.material, false⟩) →
      (g (mockKeyId keyAlias r)).Safe (keyDuty sparing ops i) Q x v) :
    (askKms (fun kms => .ok (createKey kms keyAlias r)) >>= g).Safe (keyDuty sparing ops i) Q x s := by
  refine safe_askKms_bind fun u a kms' hu hf _ => ?_
  cases hf
  have hown := rely_own hu hfresh hid hs
  have hcreated : Effect sparing (ops i) .call x.locks u
      { u with kms := u.kms.upsert (mockKeyId keyAlias r) ⟨r.material, false⟩ } := .created hid hown.found
  exact ⟨hcreated, h u _ hu hcreated ⟨Table.find?_upsert_self _ _ _, hown.untaken⟩⟩

end

omit [Formats] in
/-- A data key wrapped by a new key is read with that key. -/
theorem openFrame_wrapped {r : Draws} {dek : List UInt8} :
    Base64.decode (Base64.encode
        (frame WRAPPED_DEK_VERSION r.nonce (gcmEncrypt r.material.toList r.nonce.toList dek))) =
      some (frame WRAPPED_DEK_VERSION r.nonce (gcmEncrypt r.material.toList r.nonce.toList dek)) ∧
    openFrame WRAPPED_DEK_VERSION r.material.toList
      (frame WRAPPED_DEK_VERSION r.nonce (gcmEncrypt r.material.toList r.nonce.toList dek)) = .ok dek :=
  ⟨Base64.decode_encode _, openFrame_frame _ _ _ _⟩

theorem safe_provisionCmk {kms : MockKms} (hfresh : FreshKeyIds ops kms) {ctx : KeyCtx} {keyAlias : String}
    (hop : ops i = .provision ctx keyAlias) (hs : s.Own (mockKeyId (provisionAlias ctx keyAlias) ctx.draws) none) :
    (provisionCmk ctx keyAlias).Safe (keyDuty sparing ops i) (fun _ _ _ => True) .start s := by
  have hid : (ops i).keyId? = some (mockKeyId (provisionAlias ctx keyAlias) ctx.draws) := by
    rw [hop]
    rfl
  refine .ofExcept_bind fun _ _ => .query_bind fun u₀ h₀ => .require_bind fun _ => ?_
  refine safe_createKey_bind hfresh hid (rely_own h₀ hfresh hid hs) fun u₁ v₁ _ _ hown => ?_
  refine .bind (safe_askKms_read_bind fun u₂ wrapped h₂ hwrap => ?_)
  have hown₂ := rely_own h₂ hfresh hid hown
  obtain ⟨st, hst, _, rfl⟩ := wrap_ok.mp hwrap
  rw [hown₂.found] at hst
  cases hst
  intro u₃ h₃
  have hown₃ := rely_own h₃ hfresh hid hown₂
  unfold insertCmk insertDataKey
  refine .execute_bind fun u₄ h₄ hfree => .execute_bind fun u₅ h₅ hnone => .commitTx_bind fun u₆ h₆ _ => ?_
  have hown₆ := rely_own h₆ hfresh hid (rely_own h₅ hfresh hid (rely_own h₄ hfresh hid hown₃))
  have hfree₄ : u₄.cmks.find? ctx.cmkUuid = none := by
    split_ifs at hfree with hsome
    exact Option.not_isSome_iff_eq_none.mp hsome
  have hfree₆ := rely_row h₆ (k := ctx.cmkUuid) (by simp [Open.push])
    (rely_row h₅ (by simp [Open.push]) hfree₄)
  have hnone₅ : u₅.dataKey = none := by
    split_ifs at hnone with hsome
    exact Option.not_isSome_iff_eq_none.mp hsome
  have hnone₆ := rely_dataKey h₆ (by simp [Open.push]) hnone₅
  obtain ⟨hraw, hopen⟩ := @openFrame_wrapped _ ctx.draws ctx.draws.dek.toList
  refine ⟨?_, .done⟩
  exact @Effect.provisioned _ _ _ _ _ _ _ (ctx.newRow _) ⟨ctx.cmkUuid, _, 1⟩ _ _ _ (by rw [hop]; rfl) hid hnone₆
    hfree₆ rfl rfl hown₆.found rfl hraw hopen (by simp) (by simp [Open.push]) (by simp [Open.push])

/-- `old` is read to `dek`, the data key. -/
def World.Reads (w : World) (old : WrappedDek) (dek : List UInt8) : Prop :=
  ∃ raw m, Base64.decode old.wrappedB64 = some raw ∧
    openFrame WRAPPED_DEK_VERSION (m : Vector UInt8 32).toList raw = .ok dek ∧
    dek.length = 32 ∧ (∃ st, w.kms.find? old.cmkId = some st ∧ st.material = m) ∧ w.Wraps dek

theorem rely_reads {old : WrappedDek} {dek : List UInt8} (h : (keyDuty sparing ops i).rely ls s t)
    (hs : s.Reads old dek) : t.Reads old dek := by
  obtain ⟨raw, m, hraw, hopen, hlen, hmaterial, hwraps⟩ := hs
  exact ⟨raw, m, hraw, hopen, hlen, rely_material h hmaterial, rely_wraps h hwraps⟩

omit [Primitives] [Formats] in
theorem wrappedDek?_some {old : WrappedDek} (h : s.wrappedDek? = some old) :
    ∃ d row, s.dataKey = some d ∧ s.cmks.find? d.cmkId = some row ∧ row.status = .active ∧
      old = ⟨row.providerKeyId, d.wrappedDekB64⟩ := by
  unfold World.wrappedDek? at h
  obtain ⟨d, hd, h⟩ := Option.bind_eq_some_iff.mp h
  obtain ⟨row, hrow, h⟩ := Option.bind_eq_some_iff.mp h
  split_ifs at h with hactive
  cases h
  exact ⟨d, row, hd, hrow, hactive, rfl⟩

omit [Formats] in
/-- What is loaded is read to the data key. -/
theorem Sound.reads (hs : Sound s) {old : WrappedDek} (h : s.wrappedDek? = some old) :
    ∃ dek, s.Reads old dek := by
  obtain ⟨d, row, hd, hrow, -, rfl⟩ := wrappedDek?_some h
  obtain ⟨dek, hwraps⟩ := hs.readable d hd
  obtain ⟨d', row', st, raw, hd', hrow', hst, hraw, hopen, hlen⟩ := id hwraps
  rw [hd] at hd'
  cases hd'
  rw [hrow] at hrow'
  cases hrow'
  exact ⟨dek, raw, st.material, hraw, hopen, hlen, ⟨st, hst, rfl⟩, hwraps⟩

theorem safe_loadWrappedDek {kms : MockKms} (hfresh : FreshKeyIds ops kms) {id : String}
    (hid : (ops i).keyId? = some id) (hinv : Inv sparing s) (hs : s.Own id none) :
    loadWrappedDek.Safe (keyDuty sparing ops i)
      (fun old x u => x = .start ∧ Inv sparing u ∧ u.Own id none ∧ ∃ dek, u.Reads old dek) .start s := by
  unfold loadWrappedDek
  refine .query_bind fun u₀ h₀ => .commitTx_bind fun u₁ h₁ _ => ⟨Effect.same, ?_⟩
  change (Request.okOr (World.wrappedDek? u₀) _).Safe _ _ _ _
  cases hrow : u₀.wrappedDek? with
  | none => trivial
  | some old =>
    intro u₂ h₂
    obtain ⟨dek, hreads⟩ := (rely_inv h₀ hinv).sound.reads hrow
    exact ⟨rfl, rely_inv h₂ (rely_inv h₁ (rely_inv h₀ hinv)),
      rely_own h₂ hfresh hid (rely_own h₁ hfresh hid (rely_own h₀ hfresh hid hs)), dek,
      rely_reads h₂ (rely_reads h₁ hreads)⟩

/-- What a rotation has when it comes back from the KMS. -/
structure Rewrapped (r : Draws) (id : String) (dek : List UInt8) (rot : RotationResult) (u : World) : Prop where
  newCmkId : rot.newCmkId = id
  decodes : ∃ raw, Base64.decode rot.wrappedDek.wrappedB64 = some raw ∧
    openFrame WRAPPED_DEK_VERSION r.material.toList raw = .ok dek
  length : dek.length = 32
  own : u.Own id (some ⟨r.material, false⟩)
  wraps : u.Wraps dek

omit [Formats] in
theorem Rewrapped.of_world {r : Draws} {id : String} {dek : List UInt8} {rot : RotationResult} {u v : World}
    (h : Rewrapped r id dek rot u) (hown : v.Own id (some ⟨r.material, false⟩)) (hwraps : v.Wraps dek) :
    Rewrapped r id dek rot v :=
  ⟨h.newCmkId, h.decodes, h.length, hown, hwraps⟩

theorem rely_rewrapped {kms : MockKms} (hfresh : FreshKeyIds ops kms) {r : Draws} {id : String}
    (hid : (ops i).keyId? = some id) {dek : List UInt8} {rot : RotationResult}
    (h : (keyDuty sparing ops i).rely ls s t) (hs : Rewrapped r id dek rot s) : Rewrapped r id dek rot t :=
  hs.of_world (rely_own h hfresh hid hs.own) (rely_wraps h hs.wraps)

theorem safe_rotateOrgKey {kms : MockKms} (hfresh : FreshKeyIds ops kms) {old : WrappedDek} {keyAlias : String}
    {r : Draws} {x : Open World Lock} {dek : List UInt8} (hid : (ops i).keyId? = some (mockKeyId keyAlias r))
    (hinv : Inv sparing s) (hown : s.Own (mockKeyId keyAlias r) none) (hreads : s.Reads old dek) :
    (rotateOrgKey old keyAlias false r).Safe (keyDuty sparing ops i)
      (fun rot y u => y = x ∧ Inv sparing u ∧ Rewrapped r (mockKeyId keyAlias r) dek rot u) x s := by
  unfold rotateOrgKey rewrapDek
  refine safe_createKey_bind hfresh hid hown fun u₀ v₀ h₀ he hown₀ => ?_
  have hinv₀ := he.inv (rely_inv h₀ hinv)
  have hreads₀ : v₀.Reads old dek := by
    obtain ⟨raw, m, hraw, hopen, hlen, ⟨st, hst, hm⟩, hwraps⟩ := rely_reads h₀ hreads
    obtain ⟨st', hst', hm'⟩ := he.keys _ st hst
    exact ⟨raw, m, hraw, hopen, hlen, ⟨st', hst', hm'.trans hm⟩, he.wraps dek hwraps⟩
  refine .bind (.okOr_bind fun wrapped hwrapped => ?_)
  refine safe_askKms_read_bind fun u₁ dek' h₁ hunwrap => safe_askKms_read_bind fun u₂ blob h₂ hwrap => ?_
  -- What is unwrapped is the data key, whatever happened since it was loaded.
  have hdek : dek' = dek := by
    obtain ⟨raw, m, hraw, hopen, -, ⟨st, hst, hm⟩, -⟩ := rely_reads h₁ hreads₀
    obtain ⟨st', hst', -, hopen'⟩ := unwrap_ok.mp hunwrap
    rw [hst] at hst'
    cases hst'
    rw [hraw] at hwrapped
    cases hwrapped
    rw [hm, hopen] at hopen'
    cases hopen'
    rfl
  subst hdek
  have hown₂ := rely_own h₂ hfresh hid (rely_own h₁ hfresh hid hown₀)
  obtain ⟨st, hst, -, rfl⟩ := wrap_ok.mp hwrap
  rw [hown₂.found] at hst
  cases hst
  intro u₃ h₃ u₄ h₄
  obtain ⟨_, _, -, -, hlen, -, hwraps⟩ :=
    rely_reads h₄ (rely_reads h₃ (rely_reads h₂ (rely_reads h₁ hreads₀)))
  refine ⟨rfl, rely_inv h₄ (rely_inv h₃ (rely_inv h₂ (rely_inv h₁ hinv₀))), rfl,
    ⟨_, openFrame_wrapped⟩, hlen, ?_,
    hwraps⟩
  exact rely_own h₄ hfresh hid (rely_own h₃ hfresh hid hown₂)

/-- The rows that were found active are marked, as far as the transaction has got with them: whatever it holds is
marked, or was not active any more. -/
structure Marking (x : Open World Lock) (u : World) (marked : List Uuid) : Prop where
  pend : x.pend = fun v => { v with cmks := mark marked v.cmks }
  held : ∀ k ∈ marked, .cmk k ∈ x.locks
  marks : ∀ k row, .cmk k ∈ x.locks → u.cmks.find? k = some row → row.status = .active → k ∈ marked

omit [Primitives] [Formats] in
theorem mark_nil (cmks : Table Uuid CmkRow) : mark [] cmks = cmks := by
  simp [mark]

omit [Primitives] [Formats] in
theorem modify_mark (k : Uuid) (ks : List Uuid) (cmks : Table Uuid CmkRow) :
    (mark ks cmks).modify k (fun r => { r with status := .rotating }) = mark (k :: ks) cmks := by
  unfold mark Table.modify
  rw [Table.mapRows_mapRows]
  congr 1
  funext j r
  by_cases hj : j = k
  · subst hj
    by_cases hm : j ∈ ks
    · simp [hm]
    · simp [hm]
  · simp [hj]

theorem Marking.step {x : Open World Lock} {u v w : World} {marked : List Uuid} {k : Uuid}
    (h : Marking x u marked) (hu : (keyDuty sparing ops i).rely x.locks u v)
    (hv : (keyDuty sparing ops i).rely (.cmk k :: x.locks) v w) :
    ∃ marked', Marking (x.push (fun _ => [.cmk k]) (fun a b =>
      if (a.cmks.find? k).any fun r => decide (r.status = .active) then
        { b with cmks := b.cmks.modify k fun r => { r with status := .rotating } } else b) v) w marked' := by
  have hview : ∀ j row, v.cmks.find? j = some row → .cmk j ∈ x.locks → row.status = .active →
      j ∈ marked := by
    intro j row hrow hj ha
    cases hold : u.cmks.find? j with
    | none =>
      rw [rely_row hu hj hold] at hrow
      cases hrow
    | some r =>
      rw [rely_row hu hj hold] at hrow
      cases hrow
      exact h.marks j _ hj hold ha
  have hback : ∀ j row, w.cmks.find? j = some row → Lock.cmk j ∈ Lock.cmk k :: x.locks →
      v.cmks.find? j = some row := by
    intro j row hrow hj
    cases hold : v.cmks.find? j with
    | none =>
      rw [rely_row hv hj hold] at hrow
      cases hrow
    | some r =>
      rwa [rely_row hv hj hold] at hrow
  have hpend : (x.pend v).cmks.find? k =
      (v.cmks.find? k).map fun r => if k ∈ marked then { r with status := .rotating } else r := by
    rw [h.pend]
    exact find?_mark marked v.cmks k
  cases hstill : ((x.pend v).cmks.find? k).any fun r => decide (r.status = .active) with
  | true =>
    refine ⟨k :: marked, ?_, fun j hj => ?_, fun j row hj hrow ha => ?_⟩
    · funext b
      simp only [Open.push, Function.comp_apply, hstill, if_true]
      rw [h.pend]
      simp only [modify_mark]
    · rcases List.mem_cons.mp hj with rfl | hj
      · simp [Open.push]
      · exact List.mem_cons_of_mem _ (h.held j hj)
    · rcases List.mem_cons.mp hj with he | hx
      · cases he
        exact List.mem_cons_self
      · exact List.mem_cons_of_mem _ (hview j row (hback j row hrow hj) hx ha)
  | false =>
    refine ⟨marked, ?_, fun j hj => List.mem_cons_of_mem _ (h.held j hj), fun j row hj hrow ha => ?_⟩
    · funext b
      simp only [Open.push, Function.comp_apply, hstill, Bool.false_eq_true, if_false]
      rw [h.pend]
    · rcases List.mem_cons.mp hj with he | hx
      · cases he
        -- It was active, but the transaction did not see it so.
        by_contra hm
        rw [hpend, hback k row hrow hj] at hstill
        simp [hm, ha] at hstill
      · exact hview j row (hback j row hrow hj) hx ha

theorem safe_rotateCmk {kms : MockKms} (hfresh : FreshKeyIds ops kms) {ctx : KeyCtx} (hop : ops i = .rotate ctx)
    (hinv : Inv sparing s) (hs : s.Own (mockKeyId (rotateAlias ctx) ctx.draws) none) :
    (rotateCmk ctx).Safe (keyDuty sparing ops i) (fun _ _ _ => True) .start s := by
  have hid : (ops i).keyId? = some (mockKeyId (rotateAlias ctx) ctx.draws) := by
    rw [hop]
    rfl
  refine .ofExcept_bind fun _ _ => .bind ((safe_loadWrappedDek hfresh hid hinv hs).mono fun old x u hold => ?_)
  obtain ⟨rfl, hinv₀, hown₀, dek, hreads⟩ := hold
  refine .bind ((safe_rotateOrgKey hfresh hid hinv₀ hown₀ hreads).mono fun rot x u hrot => ?_)
  obtain ⟨rfl, hinv₁, hrew⟩ := hrot
  unfold markRotating insertCmk repointDataKey
  refine .updateRows_bind (N := fun _ y v => Inv sparing v ∧
      Rewrapped ctx.draws (mockKeyId (rotateAlias ctx) ctx.draws) dek rot v ∧ ∃ marked, Marking y v marked)
    (fun u₂ h₂ => ⟨rely_inv h₂ hinv₁, rely_rewrapped hfresh hid h₂ hrew, [], ?_⟩)
    (fun k ks y u₂ v₂ w₂ hN hu hv => ?_) fun y u₂ hN => ?_
  · refine ⟨?_, fun k hk => absurd hk List.not_mem_nil, fun k row hk => absurd hk List.not_mem_nil⟩
    funext v
    simp only [mark_nil]
    rfl
  · obtain ⟨hi, hr, marked, hm⟩ := hN
    exact ⟨rely_inv hv (rely_inv hu hi), rely_rewrapped hfresh hid hv (rely_rewrapped hfresh hid hu hr),
      hm.step hu hv⟩
  obtain ⟨hinv₂, hrew₂, marked, hm⟩ := hN
  obtain ⟨ylocks, ypend⟩ := y
  obtain rfl : ypend = _ := hm.pend
  refine .execute_bind fun u₃ h₃ hfree => .executeReturning_bind fun u₄ version h₄ hversion =>
    .commitTx_bind fun u₅ h₅ hcommit => ⟨?_, .done⟩
  -- The row that is added is new, and the data key has a row.
  have hfree₃ : u₃.cmks.find? ctx.cmkUuid = none := by
    split_ifs at hfree with hsome
    have hnone := Option.not_isSome_iff_eq_none.mp hsome
    change (mark marked u₃.cmks).find? ctx.cmkUuid = none at hnone
    rw [find?_mark] at hnone
    exact Option.map_eq_none_iff.mp hnone
  have hfree₅ := rely_row h₅ (k := ctx.cmkUuid) (by simp [Open.push])
    (rely_row h₄ (by simp [Open.push]) hfree₃)
  obtain ⟨d, hd₄⟩ : ∃ d, u₄.dataKey = some d := by
    cases hd : u₄.dataKey with
    | some d => exact ⟨d, rfl⟩
    | none =>
      simp only [Open.push, Function.comp_apply, hd] at hversion
      cases hversion
  have hdata : Lock.dataKey ∈ ((Open.push ⟨ylocks, fun v => { v with cmks := mark marked v.cmks }⟩
      (fun _ => [.cmk ctx.cmkUuid]) (fun _ s => { s with cmks := s.cmks.insert ctx.cmkUuid (ctx.newRow rot.newCmkId) })
      u₃).push (fun v => if v.dataKey.isSome then [.dataKey] else [])
      (fun _ s => { s with dataKey := s.dataKey.map fun d =>
        ⟨ctx.cmkUuid, rot.wrappedDek.wrappedB64, d.version + 1⟩ })
      u₄).locks := by
    simp [Open.push, hd₄]
  have hd₅ := rely_dataKey h₅ hdata hd₄
  have hinv₅ := rely_inv h₅ (rely_inv h₄ (rely_inv h₃ hinv₂))
  have hrew₅ := rely_rewrapped hfresh hid h₅
    (rely_rewrapped hfresh hid h₄ (rely_rewrapped hfresh hid h₃ hrew₂))
  obtain ⟨k, row, hrow, hactive, hk⟩ := hcommit (by rw [hop]; rfl) hdata
  have hheld : Lock.cmk k ∈ ylocks := by
    have hne : k ≠ ctx.cmkUuid := by
      rintro rfl
      rw [hfree₅] at hrow
      cases hrow
    simpa [Open.push, hd₄, hne] using hk
  -- The active row was under the lock since it was looked at, so it was marked.
  have hmark : k ∈ marked := by
    have hrow₂ : u₂.cmks.find? k = some row := by
      cases hold : u₂.cmks.find? k with
      | none =>
        have hnone := rely_row h₅ (by simp [Open.push, hd₄, hheld]) (rely_row h₄ (by simp [Open.push, hheld])
          (rely_row h₃ hheld hold))
        rw [hrow] at hnone
        cases hnone
      | some r =>
        have hsome := rely_row h₅ (by simp [Open.push, hd₄, hheld]) (rely_row h₄ (by simp [Open.push, hheld])
          (rely_row h₃ hheld hold))
        rw [hrow] at hsome
        exact hsome.symm
    exact hm.marks k row hheld hrow₂ hactive
  have hmarks : ∀ j r, u₅.cmks.find? j = some r → r.status = .active → j ∈ marked := by
    intro j r hj ha
    obtain ⟨d₁, hd₁, rfl⟩ := hinv₅.sound.current j r hj ha
    obtain ⟨d₂, hd₂, rfl⟩ := hinv₅.sound.current k row hrow hactive
    rw [hd₁] at hd₂
    cases hd₂
    exact hmark
  obtain ⟨raw, hraw, hopen⟩ := hrew₅.decodes
  have heffect := @Effect.rotated _ _ sparing (ops i) (_ :: .cmk ctx.cmkUuid :: ylocks) _ ctx.cmkUuid
    (ctx.newRow rot.newCmkId) _ ⟨ctx.cmkUuid, rot.wrappedDek.wrappedB64, d.version + 1⟩ _ _ _
    (by rw [hid, ← hrew₅.newCmkId]; rfl) hfree₅ rfl rfl ⟨k, row, hrow, hactive⟩ hmarks hrew₅.wraps
    (by rw [← hrew₅.own.found, ← hrew₅.newCmkId]; rfl) rfl hraw hopen hrew₅.length
    (by simp) (fun j hj => by simp [hm.held j hj]) List.mem_cons_self
  simp only [Open.push, hd₄, Option.isSome_some, if_true, Function.comp_apply, hd₅, Option.map_some]
  exact heffect

/-- What a revocation is about to revoke: a row and the key that it is of. -/
def World.Targets (w : World) (target : Option (Uuid × String)) : Prop :=
  ∀ k id, target = some (k, id) → ∃ row, w.cmks.find? k = some row ∧ row.providerKeyId = id ∧
    (False → row.status ≠ .active)

omit [Primitives] [Formats] in
theorem targets_latestKey (w : World) (status : CmkStatus) : w.Targets (w.latestKey status) := by
  intro k id h
  obtain ⟨⟨j, row⟩, hlatest, he⟩ := Option.map_eq_some_iff.mp h
  cases he
  have hmem := List.mem_of_mem_head? hlatest
  rw [(List.perm_insertionSort _ _).mem_iff] at hmem
  exact ⟨row, Table.find?_eq_some.mpr (List.mem_filter.mp hmem).1, rfl, False.elim⟩

theorem rely_targets {target : Option (Uuid × String)} (h : (keyDuty sparing ops i).rely ls s t)
    (hs : s.Targets target) : t.Targets target :=
  fun k id ht => rely_kept h (hs k id ht)

theorem safe_revokeTarget (providerKeyId : Option String) (hinv : Inv sparing s) :
    (revokeTarget providerKeyId).Safe (keyDuty sparing ops i)
      (fun target x u => x = .start ∧ Inv sparing u ∧ u.Targets target) .start s := by
  cases providerKeyId with
  | some pid =>
    intro u hu v hv
    refine ⟨rfl, rely_inv hv (rely_inv hu hinv), rely_targets hv fun k id h => ?_⟩
    obtain ⟨⟨j, row⟩, hfind, he⟩ := Option.map_eq_some_iff.mp h
    cases he
    exact ⟨row, Table.find?_eq_some.mpr (List.mem_of_find?_eq_some hfind), rfl, False.elim⟩
  | none =>
    refine .query_bind fun u hu => ?_
    have hinvu := rely_inv hu hinv
    split_ifs
    · exact fun v hv => ⟨rfl, rely_inv hv hinvu, rely_targets hv (targets_latestKey u .rotating)⟩
    · exact fun v hv w hw => ⟨rfl, rely_inv hw (rely_inv hv hinvu), rely_targets hw (targets_latestKey v .active)⟩

theorem safe_revokeCmk {ctx : KeyCtx} {providerKeyId : Option String} (hinv : Inv sparing s) :
    (revokeCmk ctx providerKeyId).Safe (keyDuty sparing ops i) (fun _ _ _ => True) .start s := by
  refine .ofExcept_bind fun _ _ => .bind ((safe_revokeTarget providerKeyId hinv).mono fun target x u htarget => ?_)
  obtain ⟨rfl, hinv₀, htargets⟩ := htarget
  refine .okOr_bind fun target htarget => ?_
  obtain ⟨k, id⟩ := target
  obtain hrow := htargets k id htarget
  refine safe_askKms_bind fun u₁ a kms h₁ hrevoke hcall => ?_
  obtain ⟨row, hrow₁, hid, -⟩ := rely_kept h₁ hrow
  have hinv₁ := rely_inv h₁ hinv₀
  obtain rfl : kms = u₁.kms.modify id fun st => { st with revoked := true } := by
    unfold revoke at hrevoke
    cases hfind : u₁.kms.find? id with
    | none =>
      simp only [hfind] at hrevoke
      cases hrevoke
    | some st =>
      simp only [hfind] at hrevoke
      cases hrevoke
      rfl
  -- A key that still unwraps for an active row is not the one that is revoked.
  have hspares : sparing = true → ∀ j r st, u₁.cmks.find? j = some r → r.status = .active →
      u₁.kms.find? r.providerKeyId = some st → st.revoked = false → r.providerKeyId ≠ id := by
    rintro hsp j r st hj ha hst hrevoked rfl
    obtain ⟨st', hst', hrevoked'⟩ := hcall hsp j r st hj ha hst hrevoked
    rw [Table.find?_modify_self, hst] at hst'
    cases hst'
    cases hrevoked'
  have hdead : ∃ row, u₁.cmks.find? k = some row ∧ row.providerKeyId = id ∧
      (sparing = true → row.status ≠ .active) := by
    refine ⟨row, hrow₁, hid, fun hsp ha => ?_⟩
    obtain ⟨d, hd, rfl⟩ := hinv₁.sound.current k row hrow₁ ha
    obtain ⟨row', st, hrow', ha', hst, hrevoked⟩ := hinv₁.live hsp d hd
    rw [hrow₁] at hrow'
    cases hrow'
    exact hspares hsp _ row st hrow₁ ha' hst hrevoked hid
  refine ⟨.cutOff hrow₁ hid hspares, ?_⟩
  unfold markRevoked
  refine .execute_bind fun u₂ h₂ _ => .commitTx_bind fun u₃ h₃ _ => ⟨?_, .done⟩
  obtain ⟨row₂, hrow₂, -, -⟩ := rely_kept h₂ hdead
  obtain ⟨row₃, hrow₃, -, hdead₃⟩ := rely_kept h₃ (rely_kept h₂ hdead)
  refine Effect.retired (fun _ => ?_) fun hsp r hr => ?_
  · have hsome : (((Open.start : Open World Lock).pend u₂).cmks.find? k).isSome = true := by
      change (u₂.cmks.find? k).isSome = true
      rw [hrow₂]
      rfl
    simp [Open.push, hsome]
  · rw [hrow₃] at hr
    cases hr
    exact hdead₃ hsp

theorem safe_body {kms : MockKms} (hfresh : FreshKeyIds ops kms) (i : ι) :
    (ops i).body.Safe (keyDuty sparing ops i) (fun _ _ _ => True) .start (.start kms) := by
  have hinv : Inv sparing (.start kms) := ⟨sound_start kms, fun _ => live_start kms⟩
  have hown : ∀ id, (ops i).keyId? = some id → World.Own (.start kms) id none := fun id hid =>
    ⟨hfresh.unused i id hid, fun k row hrow => by cases hrow⟩
  cases hop : ops i with
  | provision ctx keyAlias => exact safe_provisionCmk hfresh hop (hown _ (by rw [hop]; rfl))
  | rotate ctx => exact safe_rotateCmk hfresh hop hinv (hown _ (by rw [hop]; rfl))
  | revoke ctx providerKeyId => exact safe_revokeCmk hinv

end

end Noxara.CustomerKeys
