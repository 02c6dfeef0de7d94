import Noxara.Sessions
import Noxara.TransactionCover

/-! Rotations and revocations of refresh tokens, each alone among others that move rows which it does not
hold. A rotation holds the token and then its session; a revocation takes the tokens of its snapshot and
then the sessions, and a token that it misses is dead with its session. -/
namespace Noxara.Workspace

open Transaction
open Finance (Uuid Timestamp)

inductive SessionOp
  | rotateRefresh (ctx : TokenCtx) (presented : String)
  | revokeSession (now : Timestamp) (userId sessionId : Uuid)
  | revokeAllSessions (now : Timestamp) (userId : Uuid)
  | revokeOrgUserSessions (now : Timestamp) (userId : Uuid)

inductive SessionAnswer
  | refreshed (outcome : Except String RefreshOutcome)
  | revokedSession (found : Bool)
  | revokedSessions (families : Nat)

def SessionOp.body [TokenHash] : SessionOp → SessionTx SessionAnswer
  | rotateRefresh ctx presented => do
    let outcome ← Workspace.rotateRefresh ctx presented
    return .refreshed outcome
  | revokeSession now userId sessionId => do
    let found ← Workspace.revokeSession now userId sessionId
    return .revokedSession found
  | revokeAllSessions now userId => do
    let families ← Workspace.revokeAllSessions now userId
    return .revokedSessions families
  | revokeOrgUserSessions now userId => do
    let families ← Workspace.revokeOrgUserSessions now userId
    return .revokedSessions families

/-- Neither rotated nor revoked, in a session that is not revoked. -/
def Spendable (s : Store) (id : Uuid) (t : RefreshTokenRow) : Prop :=
  s.refreshTokens.find? id = some t ∧ t.rotatedAt = none ∧ t.revokedAt = none ∧
    ∃ r, s.sessions.find? t.sessionId = some r ∧ r.revokedAt = none

structure RefreshTokenRow.Grows (t t' : RefreshTokenRow) : Prop where
  session : t'.sessionId = t.sessionId
  family : t'.familyId = t.familyId
  hash : t'.tokenHash = t.tokenHash
  rotated : t.rotatedAt ≠ none → t'.rotatedAt ≠ none
  revoked : t.revokedAt ≠ none → t'.revokedAt ≠ none

structure SessionRow.Grows (r r' : SessionRow) : Prop where
  user : r'.userId = r.userId
  family : r'.familyId = r.familyId
  revoked : r.revokedAt ≠ none → r'.revokedAt ≠ none

theorem RefreshTokenRow.Grows.refl (t : RefreshTokenRow) : t.Grows t := ⟨rfl, rfl, rfl, id, id⟩

theorem RefreshTokenRow.Grows.trans {t u v : RefreshTokenRow} (h : t.Grows u) (h' : u.Grows v) :
    t.Grows v where
  session := h'.session.trans h.session
  family := h'.family.trans h.family
  hash := h'.hash.trans h.hash
  rotated ht := h'.rotated (h.rotated ht)
  revoked ht := h'.revoked (h.revoked ht)

theorem SessionRow.Grows.refl (r : SessionRow) : r.Grows r := ⟨rfl, rfl, id⟩

theorem SessionRow.Grows.trans {r q p : SessionRow} (h : r.Grows q) (h' : q.Grows p) : r.Grows p where
  user := h'.user.trans h.user
  family := h'.family.trans h.family
  revoked hr := h'.revoked (h.revoked hr)

/-- From `s` to `t` rows only grow, sessions are the same, and what `may` does not name is as it was. -/
structure Moves (may : Lock → Prop) (s t : Store) : Prop where
  tokens : ∀ id r, s.refreshTokens.find? id = some r → ∃ r', t.refreshTokens.find? id = some r' ∧ r.Grows r'
  sessions : ∀ id r, s.sessions.find? id = some r → ∃ r', t.sessions.find? id = some r' ∧ r.Grows r'
  noSession : ∀ id, s.sessions.find? id = none → t.sessions.find? id = none
  sameToken : ∀ id, ¬may (.refreshToken id) → t.refreshTokens.find? id = s.refreshTokens.find? id
  sameSession : ∀ id, ¬may (.session id) → t.sessions.find? id = s.sessions.find? id
  noHash : ∀ h, ¬may (.refreshTokenHash h) →
    (∀ id r, s.refreshTokens.find? id = some r → r.tokenHash ≠ h) →
    ∀ id r, t.refreshTokens.find? id = some r → r.tokenHash ≠ h

section
variable {may may' : Lock → Prop} {s t u : Store}

theorem Moves.refl (may : Lock → Prop) (s : Store) : Moves may s s where
  tokens _ r h := ⟨r, h, .refl r⟩
  sessions _ r h := ⟨r, h, .refl r⟩
  noSession _ h := h
  sameToken _ _ := rfl
  sameSession _ _ := rfl
  noHash _ _ h := h

theorem Moves.trans (h : Moves may s t) (h' : Moves may t u) : Moves may s u where
  tokens id r hr := by
    obtain ⟨q, hq, hrq⟩ := h.tokens id r hr
    obtain ⟨p, hp, hqp⟩ := h'.tokens id q hq
    exact ⟨p, hp, hrq.trans hqp⟩
  sessions id r hr := by
    obtain ⟨q, hq, hrq⟩ := h.sessions id r hr
    obtain ⟨p, hp, hqp⟩ := h'.sessions id q hq
    exact ⟨p, hp, hrq.trans hqp⟩
  noSession id hid := h'.noSession id (h.noSession id hid)
  sameToken id hid := (h'.sameToken id hid).trans (h.sameToken id hid)
  sameSession id hid := (h'.sameSession id hid).trans (h.sameSession id hid)
  noHash k hk hs := h'.noHash k hk (h.noHash k hk hs)

theorem Moves.mono (hmay : ∀ k, may k → may' k) (h : Moves may s t) : Moves may' s t where
  tokens := h.tokens
  sessions := h.sessions
  noSession := h.noSession
  sameToken id hid := h.sameToken id fun hm => hid (hmay _ hm)
  sameSession id hid := h.sameSession id fun hm => hid (hmay _ hm)
  noHash k hk := h.noHash k fun hm => hk (hmay _ hm)

/-- A session was there before, and has grown since. -/
theorem Moves.session (h : Moves may s t) {id : Uuid} {r' : SessionRow}
    (hr' : t.sessions.find? id = some r') : ∃ r, s.sessions.find? id = some r ∧ r.Grows r' := by
  cases hs : s.sessions.find? id with
  | none => rw [h.noSession id hs] at hr'; cases hr'
  | some r =>
    obtain ⟨q, hq, hgrows⟩ := h.sessions id r hs
    cases hq.symm.trans hr'
    exact ⟨r, rfl, hgrows⟩

theorem moves_setSessions (id : Uuid) {f : SessionRow → SessionRow}
    (hf : ∀ r : SessionRow, r.Grows (f r)) :
    Moves (· ∈ [.session id]) s (s.setSessions (·.modify id f)) where
  tokens _ r h := ⟨r, h, .refl r⟩
  sessions k r h := by
    have hk := congrArg (Option.map fun q => if k = id then f q else q) h
    refine ⟨if k = id then f r else r, (Table.find?_mapRows s.sessions _ k).trans hk, ?_⟩
    split_ifs
    · exact hf r
    · exact .refl r
  noSession k h := by
    have hk := Table.find?_mapRows s.sessions (fun j r => if j = id then f r else r) k
    rw [h] at hk
    exact hk
  sameToken _ _ := rfl
  sameSession k hk := Table.find?_modify_ne s.sessions f (by rintro rfl; simp at hk)
  noHash _ _ h := h

theorem moves_setRefreshTokens (id : Uuid) {f : RefreshTokenRow → RefreshTokenRow}
    (hf : ∀ r : RefreshTokenRow, r.Grows (f r)) :
    Moves (· ∈ [.refreshToken id]) s (s.setRefreshTokens (·.modify id f)) where
  tokens k r h := by
    have hk := congrArg (Option.map fun q => if k = id then f q else q) h
    refine ⟨if k = id then f r else r, (Table.find?_mapRows s.refreshTokens _ k).trans hk, ?_⟩
    split_ifs
    · exact hf r
    · exact .refl r
  sessions _ r h := ⟨r, h, .refl r⟩
  noSession _ h := h
  sameToken k hk := Table.find?_modify_ne s.refreshTokens f (by rintro rfl; simp at hk)
  sameSession _ _ := rfl
  noHash h _ hs k r' hr' := by
    obtain ⟨r, hr, rfl⟩ := Option.map_eq_some_iff.mp ((Table.find?_mapRows s.refreshTokens _ k).symm.trans hr')
    have hne := hs k r hr
    split_ifs
    · rwa [(hf r).hash]
    · exact hne

theorem moves_insertToken (id : Uuid) (row : RefreshTokenRow) :
    Moves (· ∈ [.refreshToken id, .refreshTokenHash row.tokenHash]) s
      (s.setRefreshTokens (·.insert id row)) where
  tokens k r h := ⟨r, Table.find?_insert_of_some h row, .refl r⟩
  sessions _ r h := ⟨r, h, .refl r⟩
  noSession _ h := h
  sameToken k hk := Table.find?_insert_ne s.refreshTokens row (by rintro rfl; simp at hk)
  sameSession _ _ := rfl
  noHash h hh hs k r' hr' := by
    rcases Table.find?_insert_some hr' with hold | ⟨_, rfl⟩
    · exact hs k r' hold
    · rintro rfl
      simp at hh

end

def sessionTerms : Terms Store Lock where
  rely ls := Moves (· ∉ ls)
  when _ _ _ := True
  refl _ s := .refl _ s
  trans := .trans
  anti h hm := hm.mono fun k hk hin => hk (h k hin)

/-- The session is not open. -/
def Shut (s : Store) (id : Uuid) : Prop := ∀ r, s.sessions.find? id = some r → r.revokedAt ≠ none

/-- The write moves what is locked only, and of each session either closes it or leaves it open or not. -/
def Covers (ls : List Lock) (f : Store → Store) : Prop :=
  (∀ s, Moves (· ∈ ls) s (f s)) ∧ ∀ id, (∀ s, Shut (f s) id) ∨ ∀ s, Shut (f s) id ↔ Shut s id

theorem Moves.shut {may : Lock → Prop} {s t : Store} (h : Moves may s t) {id : Uuid} (hs : Shut s id) :
    Shut t id := by
  intro r' hr'
  obtain ⟨r, hr, hgrows⟩ := h.session hr'
  exact hgrows.revoked (hs r hr)

theorem covers_of_same {ls : List Lock} {f : Store → Store} (hf : ∀ s, Moves (· ∈ ls) s (f s))
    (hs : ∀ s id, Shut (f s) id ↔ Shut s id) : Covers ls f := ⟨hf, fun id => .inr fun s => hs s id⟩

theorem covers_id (ls : List Lock) : Covers ls id :=
  covers_of_same (fun s => .refl _ s) fun _ _ => .rfl

theorem Covers.comp {ls ls' : List Lock} {f g : Store → Store} (hg : Covers ls g) (hf : Covers ls' f) :
    Covers (ls ++ ls') (g ∘ f) := by
  refine ⟨fun s => ?_, fun id => ?_⟩
  · have hfs := (hf.1 s).mono fun k hk => List.mem_append_right ls hk
    have hgs := (hg.1 (f s)).mono fun k hk => List.mem_append_left ls' hk
    exact hfs.trans hgs
  · rcases hg.2 id with hclose | hsame
    · exact .inl fun s => hclose (f s)
    · rcases hf.2 id with hclose' | hsame'
      · exact .inl fun s => (hsame (f s)).mpr (hclose' s)
      · exact .inr fun s => (hsame (f s)).trans (hsame' s)

theorem covers_revokeToken (now : Timestamp) (id : Uuid) :
    Covers [.refreshToken id] (revokeToken now id) :=
  covers_of_same (fun _ => moves_setRefreshTokens id fun r => ⟨rfl, rfl, rfl, fun h => h, fun _ h => by cases h⟩)
    fun _ _ => .rfl

theorem covers_closeSession (now : Timestamp) (reason : String) (id : Uuid) :
    Covers [.session id] (closeSession now reason id) := by
  refine ⟨fun _ => moves_setSessions id fun r => ⟨rfl, rfl, fun _ h => by cases h⟩, fun k => ?_⟩
  by_cases hk : k = id
  · subst hk
    left
    intro s r' hr'
    have hself := Table.find?_modify_self s.sessions k
      fun r => { r with revokedAt := some now, revokeReason := some reason }
    obtain ⟨r, _, rfl⟩ := Option.map_eq_some_iff.mp (hself.symm.trans hr')
    exact fun h => by cases h
  · right
    intro s
    have hother := Table.find?_modify_ne s.sessions
      (fun r => { r with revokedAt := some now, revokeReason := some reason }) hk
    unfold Shut
    simp only [closeSession, Store.setSessions, hother]

/-- The writes so far are covered by the locks so far. -/
def CoveredTrail (x : Trail Store Lock) : Prop := Covers x.locks x.pend

theorem steady_covered : Prog.Steady sessionTerms Covers fun x _ => CoveredTrail x where
  rely _ h := h
  push hw h := hw.comp h

/-- Where the session is one of those that `P` names, it is not open. -/
def ShutIf (P : SessionRow → Prop) (id : Uuid) (s : Store) : Prop :=
  ∀ r, s.sessions.find? id = some r → P r → r.revokedAt ≠ none

section
variable {P : SessionRow → Prop} (hP : ∀ r r' : SessionRow, r.Grows r' → (P r' ↔ P r))
include hP

theorem Moves.shutIf {may : Lock → Prop} {s t : Store} (h : Moves may s t) {id : Uuid}
    (hs : ShutIf P id s) : ShutIf P id t := by
  intro r' hr' hp
  obtain ⟨r, hr, hgrows⟩ := h.session hr'
  exact hgrows.revoked (hs r hr ((hP r r' hgrows).mp hp))

theorem steady_shutIf (id : Uuid) :
    Prog.Steady sessionTerms Covers fun x s => CoveredTrail x ∧ ShutIf P id (x.pend s) where
  rely {x s s'} hs h := by
    refine ⟨h.1, fun r' hr' hp => ?_⟩
    rcases h.1.2 id with hclose | hsame
    · exact hclose s' r' hr'
    · -- the same session as it is committed, before and now, and in the view before
      obtain ⟨q', hq', hgrows⟩ := (h.1.1 s').session hr'
      obtain ⟨q, hq, hgrows'⟩ := Moves.session hs hq'
      obtain ⟨r, hr, hgrows''⟩ := (h.1.1 s).sessions id q hq
      have hpq : P q := (hP q q' hgrows').mp ((hP q' r' hgrows).mp hp)
      have hshut : Shut (x.pend s) id := by
        intro p hp'
        cases hr.symm.trans hp'
        exact h.2 r hr ((hP q r hgrows'').mpr hpq)
      have hcommitted : Shut s' id := Moves.shut hs ((hsame s).mp hshut)
      exact (hsame s').mpr hcommitted r' hr'
  push hw h := ⟨hw.comp h.1, (hw.1 _).shutIf hP h.2⟩

end

theorem steady_token (id : Uuid) (hash : String) (familyId : Uuid) :
    Prog.Steady sessionTerms Covers fun x s => CoveredTrail x ∧
      ∃ t, s.refreshTokens.find? id = some t ∧ t.tokenHash = hash ∧ t.familyId = familyId where
  rely hs h := by
    obtain ⟨hx, t, ht, hhash, hf⟩ := h
    obtain ⟨t', ht', hgrows⟩ := Moves.tokens hs id t ht
    exact ⟨hx, t', ht', hgrows.hash.trans hhash, hgrows.family.trans hf⟩
  push hw h := ⟨hw.comp h.1, h.2⟩

theorem covered_revokeFamily {ε : Type} (now : Timestamp) (familyId : Uuid) (reason : String) :
    (revokeFamily now familyId reason : Prog Store Lock ε Unit).Covered Covers := by
  unfold revokeFamily
  refine .bind (Prog.covered_updateRows covers_id fun id => covers_revokeToken now id) fun _ => ?_
  exact Prog.covered_updateRows covers_id fun id => covers_closeSession now reason id

theorem covered_revokeFamilies {ε : Type} (now : Timestamp) (userId : Uuid) (reason : String) :
    (revokeFamilies now userId reason : Prog Store Lock ε Nat).Covered Covers := by
  unfold revokeFamilies
  refine .bind (Prog.covered_query covers_id _) fun families => ?_
  exact .bind (Prog.covered_each (fun f => covered_revokeFamily now f reason) families) fun _ => trivial

def MakesNoToken (f : Store → Store) : Prop :=
  ∀ s id t', (f s).refreshTokens.find? id = some t' → ∃ t, s.refreshTokens.find? id = some t

theorem makesNoToken_id : MakesNoToken id := fun _ _ t' h => ⟨t', h⟩

theorem MakesNoToken.comp (f g : Store → Store) (hf : MakesNoToken f) (hg : MakesNoToken g) :
    MakesNoToken (f ∘ g) := by
  intro s id t' h
  obtain ⟨t, ht⟩ := hf (g s) id t' h
  exact hg s id t ht

theorem makesNoToken_revokeToken (now : Timestamp) (id : Uuid) : MakesNoToken (revokeToken now id) := by
  intro s k t' h
  obtain ⟨t, ht, _⟩ := Option.map_eq_some_iff.mp ((Table.find?_mapRows s.refreshTokens _ k).symm.trans h)
  exact ⟨t, ht⟩

theorem makesNoToken_closeSession (now : Timestamp) (reason : String) (id : Uuid) :
    MakesNoToken (closeSession now reason id) := fun _ _ t' h => ⟨t', h⟩

section
variable {ε : Type} {x : Trail Store Lock} {s : Store} (now : Timestamp)

theorem family_grows (familyId : Uuid) (r r' : SessionRow) (h : r.Grows r') :
    r'.familyId = familyId ↔ r.familyId = familyId := by
  rw [h.family]

theorem user_grows (userId : Uuid) (r r' : SessionRow) (h : r.Grows r') :
    r'.userId = userId ↔ r.userId = userId := by
  rw [h.user]

/-- A revocation of the family leaves none of its sessions open. -/
theorem safe_revokeFamily (familyId : Uuid) (reason : String) (hx : CoveredTrail x) :
    (revokeFamily now familyId reason : Prog Store Lock ε Unit).Safe sessionTerms
      (fun y _ u => ∀ id, CoveredTrail y ∧ ShutIf (·.familyId = familyId) id (y.pend u)) x s := by
  have hclose : ∀ id, (Prog.updateRow Lock.session (fun v id => id ∈ openSessions familyId v)
      (closeSession now reason) id : Prog Store Lock ε Unit).Covered Covers :=
    Prog.covered_updateRow covers_id fun id => covers_closeSession now reason id
  unfold revokeFamily
  refine .bind ?_
  refine (steady_covered.safe (N := fun x _ => CoveredTrail x)
    (Prog.covered_updateRows covers_id fun id => covers_revokeToken now id) hx).mono fun y _ u hy => ?_
  refine Prog.Safe.all fun id => Prog.Safe.query_bind fun v _ _ => ?_
  have hsteady := steady_shutIf (family_grows familyId) id
  by_cases hmem : id ∈ openSessions familyId (y.pend v)
  · refine Prog.safe_each hsteady steady_covered hclose hmem (fun z w hz v' _ _ => ?_) hy
    have hwrite := (hclose id (z.pend v')).1
    refine hsteady.safe (p := .pure ()) trivial ⟨steady_covered.push (s := v') hwrite hz, ?_⟩
    intro r hr hf hopen
    have hin := mem_openSessions.mpr ⟨r, hr, hf, hopen⟩
    by_cases hstill : id ∈ openSessions familyId (z.pend v')
    · simp only [Trail.push, Function.comp_apply, hstill, decide_true, if_true] at hin
      exact notOpen_closeSession now reason familyId id _ hin
    · simp only [Trail.push, Function.comp_apply, hstill, decide_false] at hin
      exact hstill hin
  · refine hsteady.safe (Prog.covered_each hclose _) ⟨hy, fun r hr hf hopen => ?_⟩
    exact hmem (mem_openSessions.mpr ⟨r, hr, hf, hopen⟩)

theorem safe_makesNoToken {α : Type} {p : Prog Store Lock ε α} (hp : p.Writes MakesNoToken)
    (hx : MakesNoToken x.pend) : p.Safe sessionTerms (fun y _ _ => MakesNoToken y.pend) x s := by
  refine Prog.Safe.of_writes (W := MakesNoToken) makesNoToken_id MakesNoToken.comp hp ?_
  intro y f _ _ hf hy _ _
  rw [hy]
  exact hf.comp f x.pend hx

theorem steady_family (id familyId : Uuid) : Prog.Steady sessionTerms Covers fun x s =>
    CoveredTrail x ∧ ∃ r, (x.pend s).sessions.find? id = some r ∧ r.familyId = familyId where
  rely {x s s'} hs h := by
    obtain ⟨hx, r, hr, hf⟩ := h
    obtain ⟨q, hq, hgrows⟩ := (hx.1 s).session hr
    obtain ⟨q', hq', hgrows'⟩ := Moves.sessions hs id q hq
    obtain ⟨r', hr', hgrows''⟩ := (hx.1 s').sessions id q' hq'
    refine ⟨hx, r', hr', ?_⟩
    rw [hgrows''.family, hgrows'.family, ← hgrows.family, hf]
  push hw h := by
    obtain ⟨hx, r, hr, hf⟩ := h
    obtain ⟨r', hr', hgrows⟩ := (hw.1 _).sessions id r hr
    exact ⟨hw.comp hx, r', hr', hgrows.family.trans hf⟩

theorem safe_revokeFamilies (userId : Uuid) (reason : String) (hx : CoveredTrail x) :
    (revokeFamilies now userId reason : Prog Store Lock ε Nat).Safe sessionTerms
      (fun y _ u => ∀ id, CoveredTrail y ∧ ShutIf (·.userId = userId) id (y.pend u)) x s := by
  have hcovered := fun f => covered_revokeFamily (ε := ε) now f reason
  unfold revokeFamilies
  refine Prog.Safe.all fun id => Prog.Safe.query_bind fun v _ _ => ?_
  have hsteady := steady_shutIf (user_grows userId) id
  refine .bind (Prog.Safe.mono ?_ fun y _ u hy => hsteady.safe (p := .pure _) trivial hy)
  by_cases hshut : ShutIf (·.userId = userId) id (x.pend v)
  · exact hsteady.safe (Prog.covered_each hcovered _) ⟨hx, hshut⟩
  · simp only [ShutIf, not_forall, not_not] at hshut
    obtain ⟨r, hr, huser, hopen⟩ := hshut
    have hmem : r.familyId ∈ familiesOf userId (x.pend v) := by
      rw [familiesOf, List.mem_eraseDups, List.mem_map]
      refine ⟨r, List.mem_filter.mpr ⟨List.mem_map_of_mem (Table.find?_eq_some.mp hr), ?_⟩, rfl⟩
      simpa using ⟨huser, hopen⟩
    have hfamily := steady_family id r.familyId
    refine Prog.safe_each hsteady hfamily hcovered hmem (fun z w hz => ?_) ⟨hx, r, hr, rfl⟩
    have hrevoke := safe_revokeFamily (ε := ε) (s := w) now r.familyId reason hz.1
    refine (hrevoke.and (hfamily.safe (hcovered r.familyId) hz)).mono fun y _ u hy => ?_
    obtain ⟨hclosed, hcov, q, hq, hqf⟩ := hy
    refine ⟨hcov, fun p hp _ => ?_⟩
    cases hq.symm.trans hp
    exact (hclosed id).2 q hq hqf

/-- A revocation of one session leaves it closed, if it is the user's. -/
theorem safe_revokeSession (userId sessionId : Uuid) (hx : CoveredTrail x) :
    (revokeSession now userId sessionId : Prog Store Lock ε Bool).Safe sessionTerms
      (fun y _ u => CoveredTrail y ∧ ShutIf (·.userId = userId) sessionId (y.pend u)) x s := by
  have hsteady := steady_shutIf (user_grows userId) sessionId
  unfold revokeSession
  refine Prog.Safe.query_bind fun v _ _ => ?_
  cases hrow : ((x.pend v).sessions.find? sessionId).filter fun r => r.userId = userId ∧ r.revokedAt = none with
  | none =>
    refine hsteady.safe (p := .pure _) trivial ⟨hx, fun r hr huser hopen => ?_⟩
    have hfound : (x.pend v).sessions.find? sessionId = some r := hr
    have huser' : r.userId = userId := huser
    simp [hfound, huser', hopen] at hrow
  | some r =>
    obtain ⟨hr, huser⟩ := Option.filter_eq_some_iff.mp hrow
    have hfamily := steady_family sessionId r.familyId
    dsimp only
    refine .bind (Prog.Safe.mono ?_ fun y _ u hy => hsteady.safe (p := .pure _) trivial hy)
    have hrevoke := safe_revokeFamily (ε := ε) (x := x.look v) (s := v) now r.familyId "user_revoke_session" hx
    refine (hrevoke.and (hfamily.safe (covered_revokeFamily now r.familyId _) ⟨hx, r, hr, rfl⟩)).mono
      fun y _ u hy => ?_
    obtain ⟨hclosed, hcov, q, hq, hqf⟩ := hy
    refine ⟨hcov, fun p hp _ => ?_⟩
    cases hq.symm.trans hp
    exact (hclosed sessionId).2 q hq hqf

end

section
variable [TokenHash]

def newToken (ctx : TokenCtx) (sessionId familyId : Uuid) : RefreshTokenRow :=
  ⟨sessionId, familyId, TokenHash.hashToken ctx.opaqueToken, ctx.now + refreshTokenTtlSecs, none, none, none⟩

omit [TokenHash] in
def rotated (ctx : TokenCtx) (t : RefreshTokenRow) : RefreshTokenRow :=
  { t with rotatedAt := some ctx.now, replacedBy := some ctx.tokenId }

/-- The token with the hash, spendable in `s`, is rotated in `s'` and replaced by a new one. -/
def Exchanged (ctx : TokenCtx) (hash : String) (tokens : IssuedTokens) (s s' : Store) : Prop :=
  ∃ id t, Spendable s id t ∧ t.tokenHash = hash ∧ tokens.familyId = t.familyId ∧
    s.refreshTokens.find? ctx.tokenId = none ∧
    (∀ id' t', s.refreshTokens.find? id' = some t' → t'.tokenHash ≠ TokenHash.hashToken ctx.opaqueToken) ∧
    s'.refreshTokens = (s.refreshTokens.insert ctx.tokenId (newToken ctx t.sessionId t.familyId)).modify id
      (rotated ctx)

/-- What a rotation did from the committed store to the one it commits. -/
def Rotated (ctx : TokenCtx) (hash : String) (x : Trail Store Lock) (s : Store) :
    Except String RefreshOutcome → Prop
  | .ok (.issued tokens) => Exchanged ctx hash tokens s (x.pend s)
  | .ok (.reuseDetected f) =>
    MakesNoToken x.pend ∧ ∀ id, CoveredTrail x ∧ ShutIf (·.familyId = f) id (x.pend s)
  | .error _ => MakesNoToken x.pend ∧ ∃ id t, s.refreshTokens.find? id = some t ∧ t.tokenHash = hash ∧
      ∀ sid, CoveredTrail x ∧ ShutIf (·.familyId = t.familyId) sid (x.pend s)

theorem covered_insertRefreshToken (ctx : TokenCtx) (sessionId familyId : Uuid) :
    (insertRefreshToken ctx sessionId familyId).Covered Covers :=
  Prog.covered_execute covers_id fun _ _ =>
    covers_of_same (fun _ => moves_insertToken ctx.tokenId (newToken ctx sessionId familyId)) fun _ _ => .rfl

theorem covered_rotateRefresh (ctx : TokenCtx) (presented : String) :
    (Workspace.rotateRefresh ctx presented).Covered Covers := by
  have hrotate : ∀ id, Covers [.refreshToken id] fun s => s.setRefreshTokens (·.modify id (rotated ctx)) :=
    fun id => covers_of_same (fun _ => moves_setRefreshTokens id fun r =>
      ⟨rfl, rfl, rfl, (fun _ h => by cases h), fun h => h⟩) fun _ _ => .rfl
  have hseen : ∀ id, Covers [.session id] fun s =>
      s.setSessions (·.modify id fun r => { r with lastSeenAt := ctx.now }) := by
    intro id
    refine covers_of_same (fun _ => moves_setSessions id fun r => ⟨rfl, rfl, fun h => h⟩) fun s k => ?_
    have hk := Table.find?_mapRows s.sessions
      (fun j r => if j = id then { r with lastSeenAt := ctx.now } else r) k
    change (∀ r, _ = some r → _) ↔ _
    rw [Store.setSessions, Table.modify, hk]
    cases hs : s.sessions.find? k with
    | none => simp [Shut, hs]
    | some r =>
      by_cases hkid : k = id
      · subst hkid
        simp [Shut, hs]
      · simp [Shut, hs, hkid]
  unfold Workspace.rotateRefresh
  refine .bind (Prog.covered_queryForUpdate covers_id _ _) fun row => ?_
  refine .bind (Prog.covered_okOr _ _) fun found => .bind Prog.covered_require fun _ => ?_
  split_ifs
  · exact .bind (covered_revokeFamily ctx.now _ _) fun _ => trivial
  · unfold redeemToken
    refine .bind (Prog.covered_queryForUpdate covers_id _ _) fun row => ?_
    refine .bind (Prog.covered_okOr _ _) fun session => .bind Prog.covered_require fun _ => ?_
    unfold exchangeToken
    refine .bind (Prog.covered_query covers_id _) fun row => .bind (Prog.covered_okOr _ _) fun found' => ?_
    dsimp only
    split_ifs
    · exact .bind (covered_revokeFamily ctx.now _ _) fun _ => trivial
    · refine .bind (covered_insertRefreshToken ctx _ _) fun _ => ?_
      refine .bind (Prog.covered_execute covers_id fun _ _ => hrotate _) fun _ => ?_
      exact .bind (Prog.covered_execute covers_id fun _ _ => hseen _) fun _ => trivial

/-- A rotation that turns into a revocation. -/
theorem safe_revokeInstead {x : Trail Store Lock} {s : Store} {ctx : TokenCtx} {hash reason : String}
    {id familyId : Uuid} {t : RefreshTokenRow} {outcome : Except String RefreshOutcome}
    (hx : CoveredTrail x) (hid : MakesNoToken x.pend) (ht : s.refreshTokens.find? id = some t)
    (hhash : t.tokenHash = hash) (hfamily : t.familyId = familyId)
    (ho : outcome = .ok (.reuseDetected familyId) ∨ ∃ e, outcome = .error e) :
    (do revokeFamily ctx.now familyId reason; return outcome :
      SessionTx (Except String RefreshOutcome)).Safe sessionTerms
      (fun y a u => Rotated ctx hash y u a) x s := by
  have hwrites : (revokeFamily ctx.now familyId reason : SessionTx Unit).Writes MakesNoToken :=
    writes_revokeFamily makesNoToken_id makesNoToken_revokeToken makesNoToken_closeSession _ _ _
  have hall := ((safe_revokeFamily (ε := String) (s := s) ctx.now familyId reason hx).and
    (safe_makesNoToken hwrites hid)).and
    ((steady_token id hash familyId).safe (covered_revokeFamily ctx.now familyId reason)
      ⟨hx, t, ht, hhash, hfamily⟩)
  refine .bind (hall.mono fun y _ u hy => Prog.Safe.pure fun u' hu' => ?_)
  obtain ⟨⟨hshut, hno⟩, htoken⟩ := hy
  have hshut' := fun sid => (steady_shutIf (family_grows familyId) sid).rely hu' (hshut sid)
  obtain ⟨-, t', ht', hhash', hfamily'⟩ := (steady_token id hash familyId).rely hu' htoken
  rcases ho with rfl | ⟨e, rfl⟩
  · exact ⟨hno, hshut'⟩
  · refine ⟨hno, id, t', ht', hhash', ?_⟩
    rw [hfamily']
    exact hshut'

theorem safe_exchangeToken {x : Trail Store Lock} {s : Store} {ctx : TokenCtx} {hash : String}
    {tokenId : Uuid} {t : RefreshTokenRow} {session : SessionRow} (hx : CoveredTrail x) (hpend : x.pend = id)
    (htoken : Lock.refreshToken tokenId ∈ x.locks) (hsession : Lock.session t.sessionId ∈ x.locks)
    (hs : Spendable s tokenId t) (hhash : t.tokenHash = hash) :
    (exchangeToken ctx tokenId t session).Safe sessionTerms (fun y a u => Rotated ctx hash y u a) x s := by
  have hkept : ∀ {ls : List Lock} {u v : Store}, (∀ k ∈ x.locks, k ∈ ls) → Moves (· ∉ ls) u v →
      Spendable u tokenId t → Spendable v tokenId t := by
    rintro ls u v hls hm ⟨ht, hrot, hrev, r, hr, hopen⟩
    refine ⟨?_, hrot, hrev, r, ?_, hopen⟩
    · rw [hm.sameToken tokenId (not_not.mpr (hls _ htoken)), ht]
    · rw [hm.sameSession t.sessionId (not_not.mpr (hls _ hsession)), hr]
  unfold exchangeToken
  refine Prog.Safe.query_bind fun u₁ h₁ _ => Prog.Safe.okOr_bind fun found _ => ?_
  have hs₁ := hkept (fun _ hk => hk) h₁ hs
  obtain ⟨m, user⟩ := found
  dsimp only
  split_ifs
  · refine safe_revokeInstead (x := x.look u₁) hx ?_ hs₁.1 hhash rfl (.inr ⟨_, rfl⟩)
    change MakesNoToken x.pend
    rw [hpend]
    exact makesNoToken_id
  · unfold insertRefreshToken
    refine Prog.Safe.execute_bind fun u₂ h₂ _ hcheck => ?_
    have hs₂ := hkept (fun _ hk => hk) h₂ hs₁
    -- neither the id nor the hash of the new token is taken
    have hfree : u₂.refreshTokens.find? ctx.tokenId = none ∧ ∀ id' t', u₂.refreshTokens.find? id' = some t' →
        t'.tokenHash ≠ TokenHash.hashToken ctx.opaqueToken := by
      have hview : (x.look u₁).pend u₂ = u₂ := by
        change x.pend u₂ = u₂
        rw [hpend]
        rfl
      rw [hview] at hcheck
      split_ifs at hcheck with hkey hhash'
      refine ⟨Table.find?_eq_none.mpr hkey, fun id' t' ht' heq => hhash' ?_⟩
      rw [Store.tokenByHash, List.find?_isSome]
      exact ⟨(id', t'), Table.find?_eq_some.mp ht', by simpa using heq⟩
    refine Prog.Safe.execute_bind fun u₃ h₃ _ _ => Prog.Safe.execute_bind fun u₄ h₄ _ _ => ?_
    refine Prog.Safe.pure fun u₅ h₅ => ?_
    have h₂₄ : Moves (· ∉ [.refreshToken ctx.tokenId, .refreshTokenHash (TokenHash.hashToken ctx.opaqueToken)] ++
        x.locks) u₂ u₅ := by
      refine Moves.trans (h₃.mono fun k hk hin => hk hin) (Moves.trans (h₄.mono fun k hk hin => hk ?_)
        (h₅.mono fun k hk hin => hk ?_))
      · exact List.mem_append_right _ hin
      · exact List.mem_append_right _ (List.mem_append_right _ hin)
    have hs₅ := hkept (fun _ hk => List.mem_append_right _ hk) h₂₄ hs₂
    refine ⟨tokenId, t, hs₅, hhash, rfl, ?_, ?_, ?_⟩
    · rw [h₂₄.sameToken ctx.tokenId (by simp), hfree.1]
    · exact h₂₄.noHash _ (by simp) hfree.2
    · simp only [Trail.push, Trail.look, hpend]
      rfl

theorem safe_rotateRefresh (ctx : TokenCtx) (presented : String) (s : Store) :
    (Workspace.rotateRefresh ctx presented).Safe sessionTerms
      (fun y a u => Rotated ctx (TokenHash.hashToken presented) y u a) .start s := by
  unfold Workspace.rotateRefresh
  refine Prog.Safe.queryForUpdate_bind fun u _ _ => Prog.Safe.okOr_bind fun found hfound => ?_
  obtain ⟨tokenId, t⟩ := found
  have hrow : u.tokenByHash (TokenHash.hashToken presented) = some (tokenId, t) := hfound
  have ht : u.refreshTokens.find? tokenId = some t := Table.find?_eq_some.mpr (List.mem_of_find?_eq_some hrow)
  have hhash : t.tokenHash = TokenHash.hashToken presented := by simpa using List.find?_some hrow
  refine Prog.Safe.require_bind fun hopen => ?_
  -- the token is held from here on
  generalize hy : Trail.push .start (fun v => ((v.tokenByHash (TokenHash.hashToken presented)).map fun r =>
    Lock.refreshToken r.1).toList) (fun _ t => t) u = y
  have hlock : Lock.refreshToken tokenId ∈ y.locks := by
    rw [← hy]
    simp [Trail.push, Trail.start, hrow]
  have hpend : y.pend = id := by
    rw [← hy]
    rfl
  have hx : CoveredTrail y := by
    rw [CoveredTrail, hpend]
    exact covers_id _
  split_ifs with hrotated
  · refine safe_revokeInstead hx ?_ ht hhash rfl (.inl rfl)
    rw [hpend]
    exact makesNoToken_id
  · unfold redeemToken
    refine Prog.Safe.queryForUpdate_bind fun v hv _ => Prog.Safe.okOr_bind fun session hsession => ?_
    refine Prog.Safe.require_bind fun hrevoked => ?_
    have htoken : v.refreshTokens.find? tokenId = some t := by
      rw [Moves.sameToken hv tokenId (not_not.mpr hlock), ht]
    rw [hpend] at hsession
    refine safe_exchangeToken (steady_covered.push (s := v) (covers_id _) hx) ?_ ?_ ?_ ?_ hhash
    · simp only [Trail.push, hpend]
      rfl
    · exact List.mem_append_right _ hlock
    · exact List.mem_append_left _ (List.mem_singleton.mpr rfl)
    · exact ⟨htoken, not_not.mp hrotated, hopen.1, session, hsession, hrevoked⟩

/-- What a transaction did from the committed store to the one it commits. -/
def Did (x : Trail Store Lock) (s : Store) : SessionOp → SessionAnswer → Prop
  | .rotateRefresh ctx presented, .refreshed outcome =>
    Rotated ctx (TokenHash.hashToken presented) x s outcome
  | .rotateRefresh _ _, _ => False
  | .revokeSession _ userId sessionId, _ =>
    MakesNoToken x.pend ∧ ShutIf (·.userId = userId) sessionId (x.pend s)
  | .revokeAllSessions _ userId, _ | .revokeOrgUserSessions _ userId, _ =>
    MakesNoToken x.pend ∧ ∀ id, ShutIf (·.userId = userId) id (x.pend s)

def SessionPromise (op : SessionOp) (x : Trail Store Lock) (a : SessionAnswer) (s : Store) : Prop :=
  CoveredTrail x ∧ Did x s op a

theorem safe_session (op : SessionOp) (s : Store) :
    op.body.Safe sessionTerms (SessionPromise op) .start s := by
  have hstart : CoveredTrail .start := covers_id _
  cases op with
  | rotateRefresh ctx presented =>
    refine .map ?_
    exact (steady_covered.safe (covered_rotateRefresh ctx presented) hstart).and
      (safe_rotateRefresh ctx presented s)
  | revokeSession now userId sessionId =>
    refine .map ?_
    have hwrites : (Workspace.revokeSession now userId sessionId : SessionTx Bool).Writes MakesNoToken := by
      unfold Workspace.revokeSession
      refine .bind (Prog.writes_query makesNoToken_id _) fun row => ?_
      cases row with
      | none => trivial
      | some r =>
        exact .bind (writes_revokeFamily makesNoToken_id makesNoToken_revokeToken makesNoToken_closeSession
          _ _ _) fun _ => trivial
    refine ((safe_revokeSession now userId sessionId hstart).and
      (safe_makesNoToken hwrites makesNoToken_id)).mono fun y a u hy => ?_
    exact ⟨hy.1.1, hy.2, hy.1.2⟩
  | revokeAllSessions now userId | revokeOrgUserSessions now userId =>
    refine .map ?_
    refine (((steady_covered.safe (covered_revokeFamilies now userId _) hstart).and
      (safe_revokeFamilies now userId _ hstart)).and (safe_makesNoToken (writes_revokeFamilies makesNoToken_id
        makesNoToken_revokeToken makesNoToken_closeSession now userId _) makesNoToken_id)).mono fun y a u hy => ?_
    exact ⟨hy.1.1, hy.2, fun id => (hy.1.2 id).2⟩

end

end Noxara.Workspace
