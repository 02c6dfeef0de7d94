import Noxara.KeyRotations

/-! The life of the keys of an organization: no two are active, a revoked one stays revoked, and the data can be
read while one is active. -/
namespace Noxara.CustomerKeys

open Crypto Transaction
open Finance (Formats AppError)

variable [Primitives] [Formats]

section
variable {ι : Type} [DecidableEq ι] {sparing : Bool} {ops : ι → KeyOp} {kms : MockKms}
  {c d : Traffic ι World Lock AppError CmkAnswer}

abbrev KeyRun (sparing : Bool) (ops : ι → KeyOp) (kms : MockKms) (c : Traffic ι World Lock AppError CmkAnswer) :
    Prop :=
  Traffic.Reached (keyPremises sparing ops) (fun i => (ops i).body) (.start kms) c

omit [DecidableEq ι] in
theorem key_fit : Traffic.Fit (keyPremises sparing ops) (keyDuty sparing ops) (Inv sparing) :=
  .among fun _ _ _ _ _ hinv he => he.inv hinv

theorem KeyRun.safe_and_inv (hfresh : FreshKeyIds ops kms) (h : KeyRun sparing ops kms c) :
    c.Safe (keyDuty sparing ops) ∧ Inv sparing c.db :=
  Traffic.Reached.safe_and_invariant h key_fit (fun i => safe_body hfresh i)
    ⟨sound_start kms, fun _ => live_start kms⟩

theorem KeyRun.effect (hfresh : FreshKeyIds ops kms) (h : KeyRun sparing ops kms c)
    (hs : Traffic.Step (keyPremises sparing ops) c d) : (d.db = c.db ∧ d.commits = c.commits) ∨
      ∃ i ls, Effect sparing (ops i) .call ls c.db d.db ∧ d.commits = c.commits ∨
        Effect sparing (ops i) .commit ls c.db d.db ∧ d.commits = c.commits ++ [i] := by
  rcases (h.safe_and_inv hfresh).1.step_keeps key_fit hs with hsame | ⟨i, ls, -, heffect⟩
  · exact .inl hsame
  · exact .inr ⟨i, ls, heffect⟩

/-- Sparing the active keys is more than what is asked of rotations. -/
theorem KeyRun.weaken (h : KeyRun true ops kms c) : KeyRun false ops kms c := by
  have hsteps : Traffic.Steps (keyPremises true ops) (.initial (fun i => (ops i).body) (.start kms)) c := h
  have hcommit : ∀ i x s, (keyPremises true ops).commit i x s → (keyPremises false ops).commit i x s :=
    fun _ _ _ hc => hc
  refine hsteps.mono hcommit fun i s t hcall hfalse => ?_
  cases hfalse

end

omit [Formats] in
theorem run_orgDataKey (w : World) : (orgDataKey.run id w).1 =
    match w.wrappedDek? with
    | none => .error ⟨.notFound, "org CMEK not configured"⟩
    | some old =>
      match OrgDataKey.fromWrapped w.kms old with
      | .ok k => .ok k
      | .error e => .error ⟨.forbidden, s!"decrypt failed: {e.asStr}"⟩ := by
  change (((Request.okOr (World.wrappedDek? w) (AppError.mk .notFound "org CMEK not configured")).bind fun wrapped =>
    Request.ask fun w => match OrgDataKey.fromWrapped w.kms wrapped with
      | .ok k => .ok (k, w)
      | .error e => .error (AppError.mk .forbidden s!"decrypt failed: {e.asStr}") : KeyReq OrgDataKey).run id w).1 = _
  cases w.wrappedDek? with
  | none => rfl
  | some old =>
    simp only [Request.okOr, Request.bind, Request.ask, Request.run]
    cases OrgDataKey.fromWrapped w.kms old with
    | ok k => rfl
    | error e => rfl

omit [Formats] in
theorem orgDataKey_ok {w : World} {k : OrgDataKey} (h : (orgDataKey.run id w).1 = .ok k) :
    w.HasActive ∧ w.Wraps k.dek := by
  rw [run_orgDataKey] at h
  cases hrow : w.wrappedDek? with
  | none =>
    simp only [hrow] at h
    cases h
  | some old =>
    simp only [hrow] at h
    cases hk : OrgDataKey.fromWrapped w.kms old with
    | error e =>
      simp only [hk] at h
      cases h
    | ok k' =>
      simp only [hk] at h
      cases h
      obtain ⟨d, row, hd, hfind, hactive, rfl⟩ := wrappedDek?_some hrow
      obtain ⟨raw, hraw, hunwrap, hlen, -⟩ := OrgDataKey.fromWrapped_ok.mp hk
      obtain ⟨st, hst, -, hopen⟩ := unwrap_ok.mp hunwrap
      exact ⟨⟨d.cmkId, row, hfind, hactive⟩, d, row, st, raw, hd, hfind, hst, hraw, hopen, hlen⟩

omit [Formats] in
theorem orgDataKey_of_live {w : World} {dek : List UInt8} (hlive : Live w) (hdek : w.Wraps dek) :
    ∃ k, (orgDataKey.run id w).1 = .ok k ∧ k.dek = dek := by
  obtain ⟨d, row, st, raw, hd, hrow, hst, hraw, hopen, hlen⟩ := hdek
  obtain ⟨row', st', hrow', hactive, hst', hrevoked⟩ := hlive d hd
  rw [hrow] at hrow'
  cases hrow'
  rw [hst] at hst'
  cases hst'
  have hload : w.wrappedDek? = some ⟨row.providerKeyId, d.wrappedDekB64⟩ := by
    simp [World.wrappedDek?, hd, hrow, hactive]
  have hkey : OrgDataKey.fromWrapped w.kms ⟨row.providerKeyId, d.wrappedDekB64⟩ =
      .ok ⟨dek, row.providerKeyId⟩ :=
    OrgDataKey.fromWrapped_ok.mpr ⟨raw, hraw, unwrap_ok.mpr ⟨st, hst, hrevoked, hopen⟩, hlen, rfl⟩
  refine ⟨⟨dek, row.providerKeyId⟩, ?_, rfl⟩
  rw [run_orgDataKey, hload]
  simp only [hkey]

omit [Primitives] [Formats] in
theorem run_askKms_bind {α β : Type} {f : MockKms → Except CryptoError (α × MockKms)} {g : α → KeyReq β}
    {h : World → World} {w : World} {a : α} {kms : MockKms} (hf : f w.kms = .ok (a, kms)) :
    (askKms f >>= g).run h w = (g a).run h { w with kms } :=
  Request.run_ask_bind (by rw [hf]) g

omit [Formats] in
theorem run_generateWrappedDek_bind {β : Type} {id : String} {r : Draws} {g : WrappedDek → KeyReq β}
    {h : World → World} {w : World} {blob : List UInt8} (hwrap : wrap w.kms id r.dek.toList r = .ok blob) :
    (generateWrappedDek id r >>= g).run h w = (g ⟨id, Base64.encode blob⟩).run h w := by
  have hsplit : (generateWrappedDek id r >>= g) =
      (askKms (fun kms => (wrap kms id r.dek.toList r).map fun b => (b, kms)) >>= fun wrapped =>
        g ⟨id, Base64.encode wrapped⟩) := Request.bind_bind _ _ _
  exact hsplit ▸ run_askKms_bind (by rw [hwrap]; rfl)

theorem provisionCmk_ok {w : World} {ctx : KeyCtx} (keyAlias : String) (haccess : ctx.access = .ok ())
    (hfree : w.cmks.find? ctx.cmkUuid = none) (hnone : w.dataKey = none) (hactive : ¬ w.HasActive) :
    ∃ a v, (provisionCmk ctx keyAlias).run id w = (.ok a, v) := by
  have hexisting : (w.cmks.values.any fun r => decide (r.status = .active)) = false := by
    rw [List.any_eq_false]
    intro r hr ha
    obtain ⟨⟨k, row⟩, hmem, rfl⟩ := List.mem_map.mp hr
    exact hactive ⟨k, row, Table.find?_eq_some.mpr hmem, by simpa using ha⟩
  have hwrap := @wrap_ok _ _ _ ctx.draws.dek.toList _ ctx.draws |>.mpr
    ⟨_, Table.find?_upsert_self w.kms (mockKeyId (provisionAlias ctx keyAlias) ctx.draws)
      ⟨ctx.draws.material, false⟩,
      rfl, rfl⟩
  unfold provisionCmk
  rw [Request.run_ofExcept_bind haccess, Request.run_query_bind]
  simp only [id_eq]
  rw [Request.run_require_bind hexisting, run_askKms_bind rfl, run_generateWrappedDek_bind hwrap]
  unfold insertCmk insertDataKey
  rw [Request.run_execute_bind (by simp [hfree]), Request.run_execute_bind]
  · exact ⟨_, _, rfl⟩
  · simp [hnone, Table.find?_insert_self hfree]

section
variable {ι : Type} [DecidableEq ι] {ops : ι → KeyOp} {kms : MockKms}
  {sparing : Bool} {c d : Traffic ι World Lock AppError CmkAnswer}

/-- No two keys are active. -/
def World.OneActive (w : World) : Prop :=
  ∀ k row k' row', w.cmks.find? k = some row → row.status = .active → w.cmks.find? k' = some row' →
    row'.status = .active → k = k'

omit [Formats] in
theorem Sound.oneActive {w : World} (h : Sound w) : w.OneActive := by
  intro k row k' row' hrow ha hrow' ha'
  obtain ⟨d, hd, rfl⟩ := h.current k row hrow ha
  obtain ⟨d', hd', rfl⟩ := h.current k' row' hrow' ha'
  rw [hd] at hd'
  cases hd'
  rfl

theorem KeyRun.stays_inactive (hfresh : FreshKeyIds ops kms) (h : KeyRun sparing ops kms c)
    (hsteps : Traffic.Steps (keyPremises sparing ops) c d) (hc : ¬ c.db.HasActive) :
    ∃ more, d.commits = c.commits ++ more ∧
      ((∀ i ∈ more, (ops i).provisions = false) → ¬ d.db.HasActive) := by
  induction hsteps with
  | refl => exact ⟨[], by simp, fun _ => hc⟩
  | @tail b d hprior hs ih =>
    obtain ⟨more, hmore, hb⟩ := ih
    have hrun : KeyRun sparing ops kms b := h.trans hprior
    rcases hrun.effect hfresh hs with ⟨hdb, hcommits⟩ | ⟨i, ls, ⟨he, hcommits⟩ | ⟨he, hcommits⟩⟩
    · exact ⟨more, by rw [hcommits, hmore], by rwa [hdb]⟩
    · exact ⟨more, by rw [hcommits, hmore], fun hall ha => hb hall (he.active (.inl rfl) ha)⟩
    · refine ⟨more ++ [i], by rw [hcommits, hmore, List.append_assoc], fun hall => ?_⟩
      have hi : (ops i).provisions = false := hall i (by simp)
      exact fun ha => hb (fun j hj => hall j (by simp [hj])) (he.active (.inr hi) ha)

theorem KeyRun.keeps_dek (hfresh : FreshKeyIds ops kms) (h : KeyRun sparing ops kms c)
    (hsteps : Traffic.Steps (keyPremises sparing ops) c d) {dek : List UInt8} (hc : c.db.Wraps dek) :
    d.db.Wraps dek := by
  induction hsteps with
  | refl => exact hc
  | @tail b d hprior hs ih =>
    have hrun : KeyRun sparing ops kms b := h.trans hprior
    rcases hrun.effect hfresh hs with ⟨hdb, -⟩ | ⟨i, ls, ⟨he, -⟩ | ⟨he, -⟩⟩
    · rwa [hdb]
    · exact he.wraps dek ih
    · exact he.wraps dek ih

/-- Where each rotation that moves the data key commits while it holds an active key, no two keys are active, and
without an active key there is none until one is provisioned. Where, moreover, no call cuts off the key of an active
row, what a data key has encrypted can be read exactly while a key is active, and an organization without an active
key can be given one. -/
theorem keys_stay_in_step (hfresh : FreshKeyIds ops kms) :
    (∀ c, KeyRun false ops kms c → c.db.OneActive ∧ ∀ d, Traffic.Steps (keyPremises false ops) c d →
      ¬ c.db.HasActive → (∀ more, d.commits = c.commits ++ more → ∀ i ∈ more, (ops i).provisions = false) →
      ¬ d.db.HasActive) ∧
    ∀ c, KeyRun true ops kms c → KeyRun false ops kms c ∧
      (∀ d k nonce plaintext, Traffic.Steps (keyPremises true ops) c d → (orgDataKey.run id c.db).1 = .ok k →
        ((∃ k', (orgDataKey.run id d.db).1 = .ok k' ∧ k'.decrypt (k.encrypt nonce plaintext) = .ok plaintext) ↔
          d.db.HasActive)) ∧
      (¬ c.db.HasActive → ∀ ctx keyAlias, ctx.access = .ok () → c.db.cmks.find? ctx.cmkUuid = none →
        ∃ a w, (provisionCmk ctx keyAlias).run id c.db = (.ok a, w)) := by
  refine ⟨fun c hc => ⟨(hc.safe_and_inv hfresh).2.sound.oneActive, fun d hsteps hnone hmore => ?_⟩,
    fun c hc => ⟨hc.weaken, fun d k nonce plaintext hsteps hk => ?_, fun hnone ctx keyAlias haccess hfree => ?_⟩⟩
  · obtain ⟨more, hcommits, hstays⟩ := hc.stays_inactive hfresh hsteps hnone
    exact hstays (hmore more hcommits)
  · have hrun : KeyRun true ops kms d := hc.trans hsteps
    constructor
    · rintro ⟨k', hk', -⟩
      exact (orgDataKey_ok hk').1
    · intro _
      have hlive := (hrun.safe_and_inv hfresh).2.live rfl
      obtain ⟨k', hk', hdek⟩ := orgDataKey_of_live hlive (hc.keeps_dek hfresh hsteps (orgDataKey_ok hk).2)
      exact ⟨k', hk', OrgDataKey.decrypt_encrypt hdek.symm nonce plaintext⟩
  · refine provisionCmk_ok keyAlias haccess hfree ?_ hnone
    cases hd : c.db.dataKey with
    | none => rfl
    | some d =>
      obtain ⟨row, st, hrow, hactive, -⟩ := (hc.safe_and_inv hfresh).2.live rfl d hd
      exact absurd ⟨d.cmkId, row, hrow, hactive⟩ hnone

end

/-- The ciphers as they are on the bytes of the n-th key, all of which are `n`. -/
@[reducible] def samplePrimitives : Primitives where
  keystream key _ i :=
    (match key.head? with
      | some 1 => [178, 121, 186, 154, 105, 247, 5, 243, 234, 165, 15, 157, 174, 60, 78, 169, 29, 52, 110, 4, 81, 255,
        91, 98, 141, 13, 140, 126, 168, 242, 165, 44]
      | some 2 => [104, 196, 110, 133, 146, 237, 123, 95, 180, 66, 52, 188, 114, 209, 17, 216, 158, 217, 122, 178,
        238, 226, 149, 122, 28, 200, 212, 120, 28, 180, 223, 41]
      | _ => [245, 54, 79, 200, 247, 135, 254, 216, 141, 197, 219, 113, 157, 62, 58, 1, 219, 164, 61, 46, 247,
        208, 245, 58, 48, 117, 15, 184, 164, 211, 98, 109] : List UInt8).getD i 0
  tag key _ _ :=
    match key.head? with
    | some 1 => #v[106, 86, 79, 249, 201, 116, 251, 129, 100, 182, 248, 90, 154, 140, 117, 83]
    | some 2 => #v[244, 71, 244, 19, 108, 2, 1, 246, 13, 92, 90, 182, 229, 171, 75, 35]
    | _ => #v[50, 14, 77, 176, 128, 102, 146, 157, 53, 30, 49, 117, 241, 201, 138, 20]
  sha256Hex s :=
    (if s = "org-cmk-00000000-0000-0000-0000-000000000001-0101010101010101" then
      "962f37eeb7b541df6dacaa13db2a8cf7a7b0b6efd062648f4a82a505a0e23132"
    else if s = "org-00000000-0000-0000-0000-000000000001-rotated-0202020202020202" then
      "ebe3401080ae1bd241f7bafb3883d98c93c527f53d39c96a9dc5303d4acf579f"
    else "73d29f34f8e1ac55cd2b351710f0f566dcbf955a5f0db6d223783b1b21e4c833").toList

/-- The n-th request, which makes the n-th key. -/
def KeyCtx.nth (n : Nat) : KeyCtx where
  orgId := 1
  access := .ok ()
  now := n
  cmkUuid := 10 + n
  draws := ⟨["", "0101010101010101", "0202020202020202", "0303030303030303"].getD n "",
    .replicate 32 (.ofNat n), .replicate 32 7, .replicate 12 (.ofNat n)⟩

/-- What is asked of a commit, checked row by row. -/
def commitMeets (op : KeyOp) (x : Open World Lock) (s : World) : Bool :=
  !op.rotates || decide (.dataKey ∉ x.locks) ||
    s.cmks.rows.any fun r => decide (r.2.status = .active) && decide (.cmk r.1 ∈ x.locks)

def callMeets (s t : World) : Bool :=
  s.cmks.rows.all fun r => decide (r.2.status ≠ .active) || (t.kms.find? r.2.providerKeyId).any fun st => !st.revoked

omit [Primitives] [Formats] in
theorem commit_of_meets {ι : Type} {sparing : Bool} {ops : ι → KeyOp} (i : ι) (x : Open World Lock) (s : World)
    (h : commitMeets (ops i) x s = true) : (keyPremises sparing ops).commit i x s := by
  intro hrotates hdata
  simp only [commitMeets, hrotates, hdata, Bool.not_true, not_true, decide_false, Bool.false_or, List.any_eq_true,
    Bool.and_eq_true,
    decide_eq_true_eq] at h
  obtain ⟨r, hr, hactive, hlock⟩ := h
  exact ⟨r.1, r.2, Table.find?_eq_some.mpr hr, hactive, hlock⟩

omit [Primitives] [Formats] in
theorem call_of_meets {ι : Type} {sparing : Bool} {ops : ι → KeyOp} (i : ι) (s t : World)
    (h : callMeets s t = true) : (keyPremises sparing ops).call i s t := by
  intro _ k row st hrow hactive _ _
  have hmem := List.all_eq_true.mp h (k, row) (Table.find?_eq_some.mp hrow)
  simp only [hactive, ne_eq, not_true, decide_false, Bool.false_or] at hmem
  obtain ⟨st', hst', hrevoked⟩ := (Option.any_eq_true _ _).mp hmem
  exact ⟨st', hst', by simpa using hrevoked⟩

omit [Primitives] [Formats] in
theorem keys_stay_in_step_rotated :
    letI := Finance.canonicalFormats
    letI := samplePrimitives
    ∃ c d, KeyRun true (sideBySide (.provision (.nth 1) "org-cmk") (.rotate (.nth 2))) .empty c ∧
      Traffic.Steps (keyPremises true (sideBySide (.provision (.nth 1) "org-cmk") (.rotate (.nth 2)))) c d ∧
      d.commits = [left, right, right] ∧ d.db.OneActive ∧ ∃ k, (orgDataKey.run id c.db).1 = .ok k ∧
        ∀ nonce plaintext, ∃ k', (orgDataKey.run id d.db).1 = .ok k' ∧
          k'.decrypt (k.encrypt nonce plaintext) = .ok plaintext := by
  let := Finance.canonicalFormats
  let := samplePrimitives
  let ops : Fin 2 → KeyOp := sideBySide (.provision (.nth 1) "org-cmk") (.rotate (.nth 2))
  have hapart : ∀ i j, (ops i).keyId? = (ops j).keyId? → i = j := by decide +kernel
  have hfresh : FreshKeyIds ops .empty := ⟨fun _ _ _ => rfl, fun i j id hi hj => hapart i j (hi.trans hj.symm)⟩
  obtain ⟨c, d, hc, hd, hkey, hend⟩ := Traffic.Reached.of_play (P := keyPremises true ops)
    (C := fun i => commitMeets (ops i)) (S := fun _ => callMeets) commit_of_meets call_of_meets
    (fun i => (ops i).body) (.start .empty) (List.replicate 7 left) (List.replicate 11 right)
    (fun c => c.db.dataKey.isSome)
    (fun d => decide (d.commits = [left, right, right]) &&
      d.db.cmks.rows.any fun r => decide (r.2.status = .active)) (by decide +kernel)
  obtain ⟨hcommits, hactive⟩ := Bool.and_eq_true_iff.mp hend
  obtain ⟨r, hr, hra⟩ := List.any_eq_true.mp hactive
  have hhas : d.db.HasActive := ⟨r.1, r.2, Table.find?_eq_some.mpr hr, by simpa using hra⟩
  obtain ⟨hfirst, hsecond⟩ := keys_stay_in_step hfresh
  obtain ⟨hweak, hreads, -⟩ := hsecond c hc
  have hone := (hfirst d (hsecond d (hc.trans hd)).1).1
  have hinv : Inv true c.db := (KeyRun.safe_and_inv hfresh hc).2
  obtain ⟨row, hrow⟩ := Option.isSome_iff_exists.mp hkey
  obtain ⟨dek, hdek⟩ := hinv.sound.readable row hrow
  obtain ⟨k, hk, -⟩ := orgDataKey_of_live (hinv.live rfl) hdek
  exact ⟨c, d, hc, hd, of_decide_eq_true hcommits, hone, k, hk, fun nonce plaintext =>
    (hreads d k nonce plaintext hd hk).mpr hhas⟩

omit [Primitives] [Formats] in
/-- Of two rotations that look for the active key at once, each adds one; and where the only key is revoked, none
can be provisioned any more. -/
theorem keys_fall_out_of_step :
    letI := Finance.canonicalFormats
    letI := samplePrimitives
    (∃ c : Traffic (Fin 3) World Lock AppError CmkAnswer,
      Traffic.Reached .none (fun i => (([.provision (.nth 1) "org-cmk", .rotate (.nth 2), .rotate (.nth 3)] :
        List KeyOp).get i).body) (.start .empty) c ∧ ¬ c.db.OneActive) ∧
    ∃ c : Traffic (Fin 2) World Lock AppError CmkAnswer,
      Traffic.Reached .none (fun i => (sideBySide (KeyOp.provision (.nth 1) "org-cmk") (.revoke (.nth 2) none) i).body)
        (.start .empty) c ∧ ¬ c.db.HasActive ∧
      ¬ ∃ a w, (provisionCmk (.nth 3) "org-cmk").run id c.db = (.ok a, w) := by
  let := Finance.canonicalFormats
  let := samplePrimitives
  constructor
  · obtain ⟨c, -, hc, -, hactive, -⟩ := Traffic.Reached.of_play (P := .none) (C := fun _ _ _ => true)
      (S := fun _ _ _ => true) (fun _ _ _ _ => trivial) (fun _ _ _ _ => trivial)
      (fun i : Fin 3 => (([.provision (.nth 1) "org-cmk", .rotate (.nth 2), .rotate (.nth 3)] :
        List KeyOp).get i).body) (.start .empty)
      (List.replicate 7 0 ++ List.replicate 6 1 ++ List.replicate 6 2 ++ List.replicate 4 1 ++ List.replicate 4 2) []
      (fun c => (c.db.cmks.find? 12).any (fun r : CmkRow => decide (r.status = CmkStatus.active)) &&
        (c.db.cmks.find? 13).any fun r : CmkRow => decide (r.status = CmkStatus.active)) (fun _ => true)
      (by decide +kernel)
    obtain ⟨hfirst, hsecond⟩ := Bool.and_eq_true_iff.mp hactive
    obtain ⟨r, hr, hra⟩ := (Option.any_eq_true _ _).mp hfirst
    obtain ⟨r', hr', hra'⟩ := (Option.any_eq_true _ _).mp hsecond
    refine ⟨c, hc, fun hone => ?_⟩
    have heq := hone 12 r 13 r' hr (by simpa using hra) hr' (by simpa using hra')
    cases heq
  · obtain ⟨c, -, hc, -, hend, -⟩ := Traffic.Reached.of_play (P := .none) (C := fun _ _ _ => true)
      (S := fun _ _ _ => true) (fun _ _ _ _ => trivial) (fun _ _ _ _ => trivial)
      (fun i => (sideBySide (KeyOp.provision (.nth 1) "org-cmk") (.revoke (.nth 2) none) i).body) (.start .empty)
      (List.replicate 7 left ++ List.replicate 6 right) []
      (fun c => (c.db.cmks.rows.all fun r => decide (r.2.status ≠ .active)) &&
        !((provisionCmk (.nth 3) "org-cmk").run id c.db).1.isOk) (fun _ => true) (by decide +kernel)
    obtain ⟨hall, hrefused⟩ := Bool.and_eq_true_iff.mp hend
    refine ⟨c, hc, ?_, ?_⟩
    · rintro ⟨k, r, hr, ha⟩
      have hr' := List.all_eq_true.mp hall (k, r) (Table.find?_eq_some.mp hr)
      simp [ha] at hr'
    · rintro ⟨a, w, hrun⟩
      rw [hrun] at hrefused
      cases hrefused

end Noxara.CustomerKeys
