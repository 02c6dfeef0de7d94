import Noxara.RefreshRotations

/-! Families of refresh tokens under rotations and revocations side by side: what was answered so far, and
what the committed store shows of it. -/
namespace Noxara.Workspace

open Transaction
open Finance (Uuid Timestamp)

def Usable (now : Timestamp) (s : Store) (id : Uuid) (t : RefreshTokenRow) : Prop :=
  Spendable s id t ∧ ¬t.expiresAt < now

/-- Every family is one session with its tokens, of which one is spendable at most. -/
structure FamiliesSound (s : Store) : Prop where
  session : ∀ id t, s.refreshTokens.find? id = some t →
    ∃ r, s.sessions.find? t.sessionId = some r ∧ r.familyId = t.familyId
  oneSession : ∀ id id' r r', s.sessions.find? id = some r → s.sessions.find? id' = some r' →
    r.familyId = r'.familyId → id = id'
  hashes : ∀ id id' t t', s.refreshTokens.find? id = some t → s.refreshTokens.find? id' = some t' →
    t.tokenHash = t'.tokenHash → id = id'
  oneSpendable : ∀ id id' t t', Spendable s id t → Spendable s id' t' → t.familyId = t'.familyId → id = id'

def FamilyShut (familyId : Uuid) (s : Store) : Prop :=
  ∀ id r, s.sessions.find? id = some r → r.familyId = familyId → r.revokedAt ≠ none

/-- The answer says that the family was revoked: for reuse, for the membership of its user, or at the
request of the user or an administrator. -/
def Ends [TokenHash] (s : Store) (familyId : Uuid) : SessionOp → SessionAnswer → Prop
  | .rotateRefresh _ _, .refreshed (.ok (.reuseDetected f)) => f = familyId
  | .rotateRefresh _ presented, .refreshed (.error _) =>
    ∃ id t, s.refreshTokens.find? id = some t ∧ t.tokenHash = TokenHash.hashToken presented ∧
      t.familyId = familyId
  | .revokeSession _ userId sessionId, _ =>
    ∃ r, s.sessions.find? sessionId = some r ∧ r.userId = userId ∧ r.familyId = familyId
  | .revokeAllSessions _ userId, _ | .revokeOrgUserSessions _ userId, _ =>
    ∃ id r, s.sessions.find? id = some r ∧ r.userId = userId ∧ r.familyId = familyId
  | _, _ => False

/-- The token with this hash was exchanged for new ones. -/
def Issues [TokenHash] (hash : String) (tokens : IssuedTokens) : SessionOp → SessionAnswer → Prop
  | .rotateRefresh _ presented, .refreshed (.ok (.issued t)) =>
    TokenHash.hashToken presented = hash ∧ t = tokens
  | _, _ => False

section
variable {may : Lock → Prop} {s t : Store}

theorem FamiliesSound.of_noToken (h : FamiliesSound s) (hm : Moves may s t)
    (hno : ∀ id t', t.refreshTokens.find? id = some t' → ∃ t₀, s.refreshTokens.find? id = some t₀) :
    FamiliesSound t := by
  have hback : ∀ id t', t.refreshTokens.find? id = some t' →
      ∃ t₀, s.refreshTokens.find? id = some t₀ ∧ t₀.Grows t' := by
    intro id t' ht'
    obtain ⟨t₀, ht₀⟩ := hno id t' ht'
    obtain ⟨t₁, ht₁, hgrows⟩ := hm.tokens id t₀ ht₀
    cases ht₁.symm.trans ht'
    exact ⟨t₀, ht₀, hgrows⟩
  have hspend : ∀ id t', Spendable t id t' → ∃ t₀, Spendable s id t₀ ∧ t₀.Grows t' := by
    rintro id t' ⟨ht', hrot, hrev, r', hr', hopen⟩
    obtain ⟨t₀, ht₀, hgrows⟩ := hback id t' ht'
    obtain ⟨r, hr, hgrows'⟩ := hm.session hr'
    rw [hgrows.session] at hr
    refine ⟨t₀, ⟨ht₀, ?_, ?_, r, hr, ?_⟩, hgrows⟩
    · exact by_contra fun hn => hgrows.rotated hn hrot
    · exact by_contra fun hn => hgrows.revoked hn hrev
    · exact by_contra fun hn => hgrows'.revoked hn hopen
  constructor
  · intro id t' ht'
    obtain ⟨t₀, ht₀, hgrows⟩ := hback id t' ht'
    obtain ⟨r, hr, hf⟩ := h.session id t₀ ht₀
    obtain ⟨r', hr', hgrows'⟩ := hm.sessions _ r hr
    exact ⟨r', by rw [hgrows.session, hr'], by rw [hgrows'.family, hf, hgrows.family]⟩
  · intro id id' r r' hr hr' hf
    obtain ⟨q, hq, hgrows⟩ := hm.session hr
    obtain ⟨q', hq', hgrows'⟩ := hm.session hr'
    exact h.oneSession id id' q q' hq hq' (by rw [← hgrows.family, ← hgrows'.family, hf])
  · intro id id' t₁ t₂ ht₁ ht₂ hhash
    obtain ⟨q, hq, hgrows⟩ := hback id t₁ ht₁
    obtain ⟨q', hq', hgrows'⟩ := hback id' t₂ ht₂
    exact h.hashes id id' q q' hq hq' (by rw [← hgrows.hash, ← hgrows'.hash, hhash])
  · intro id id' t₁ t₂ ht₁ ht₂ hf
    obtain ⟨q, hq, hgrows⟩ := hspend id t₁ ht₁
    obtain ⟨q', hq', hgrows'⟩ := hspend id' t₂ ht₂
    exact h.oneSpendable id id' q q' hq hq' (by rw [← hgrows.family, ← hgrows'.family, hf])

theorem find?_exchanged {new id : Uuid} {row : RefreshTokenRow} {f : RefreshTokenRow → RefreshTokenRow}
    {T : Table Uuid RefreshTokenRow} {t₀ : RefreshTokenRow} (hnew : T.find? new = none)
    (hid : T.find? id = some t₀) {k : Uuid} {t' : RefreshTokenRow}
    (h : ((T.insert new row).modify id f).find? k = some t') :
    (k = new ∧ t' = row) ∨ (k = id ∧ t' = f t₀) ∨ (k ≠ new ∧ k ≠ id ∧ T.find? k = some t') := by
  have hne : id ≠ new := by
    rintro rfl
    rw [hnew] at hid
    cases hid
  by_cases hk : k = id
  · subst hk
    rw [Table.find?_modify_self, Table.find?_insert_ne T row hne, hid] at h
    exact .inr (.inl ⟨rfl, (Option.some.inj h).symm⟩)
  · rw [Table.find?_modify_ne _ f hk] at h
    by_cases hkn : k = new
    · subst hkn
      rw [Table.find?_insert_self hnew] at h
      exact .inl ⟨rfl, (Option.some.inj h).symm⟩
    · rw [Table.find?_insert_ne T row hkn] at h
      exact .inr (.inr ⟨hkn, hk, h⟩)

theorem FamiliesSound.exchanged [TokenHash] {ctx : TokenCtx} {hash : String} {tokens : IssuedTokens}
    (h : FamiliesSound s) (hm : Moves may s t) (he : Exchanged ctx hash tokens s t) : FamiliesSound t := by
  obtain ⟨id, t₀, hs₀, -, -, hfree, hhashes, htokens⟩ := he
  have hcases := fun {k t'} (hk : t.refreshTokens.find? k = some t') =>
    @find?_exchanged _ _ _ _ _ _ hfree hs₀.1 k t' (by rwa [htokens] at hk)
  -- a spendable token afterwards is the new one, or was spendable in another family
  have hspend : ∀ k t', Spendable t k t' → (k = ctx.tokenId ∧ t'.familyId = t₀.familyId) ∨
      (Spendable s k t' ∧ t'.familyId ≠ t₀.familyId) := by
    rintro k t' ⟨hk, hrot, hrev, r', hr', hopen⟩
    rcases hcases hk with ⟨rfl, rfl⟩ | ⟨rfl, rfl⟩ | ⟨-, hkid, hold⟩
    · exact .inl ⟨rfl, rfl⟩
    · cases hrot
    · obtain ⟨r, hr, hgrows⟩ := hm.session hr'
      have hspend' : Spendable s k t' :=
        ⟨hold, hrot, hrev, r, hr, by_contra fun hn => hgrows.revoked hn hopen⟩
      exact .inr ⟨hspend', fun hf => hkid (h.oneSpendable k id t' t₀ hspend' hs₀ hf)⟩
  constructor
  · intro k t' hk
    have hsession : ∃ r, s.sessions.find? t'.sessionId = some r ∧ r.familyId = t'.familyId := by
      rcases hcases hk with ⟨-, rfl⟩ | ⟨-, rfl⟩ | ⟨-, -, hold⟩
      · exact h.session id t₀ hs₀.1
      · exact h.session id t₀ hs₀.1
      · exact h.session k t' hold
    obtain ⟨r, hr, hf⟩ := hsession
    obtain ⟨r', hr', hgrows⟩ := hm.sessions _ r hr
    exact ⟨r', hr', hgrows.family.trans hf⟩
  · intro k k' r r' hr hr' hf
    obtain ⟨q, hq, hgrows⟩ := hm.session hr
    obtain ⟨q', hq', hgrows'⟩ := hm.session hr'
    exact h.oneSession k k' q q' hq hq' (by rw [← hgrows.family, ← hgrows'.family, hf])
  · -- the new hash is no other's
    have hold : ∀ k t', t.refreshTokens.find? k = some t' → (k = ctx.tokenId ∧
        t'.tokenHash = TokenHash.hashToken ctx.opaqueToken) ∨
        ∃ q, s.refreshTokens.find? k = some q ∧ q.tokenHash = t'.tokenHash := by
      intro k t' hk
      rcases hcases hk with ⟨rfl, rfl⟩ | ⟨rfl, rfl⟩ | ⟨-, -, hold⟩
      · exact .inl ⟨rfl, rfl⟩
      · exact .inr ⟨t₀, hs₀.1, rfl⟩
      · exact .inr ⟨t', hold, rfl⟩
    intro k k' t₁ t₂ hk hk' hhash
    rcases hold k t₁ hk with ⟨rfl, hnew⟩ | ⟨q, hq, hqh⟩ <;>
      rcases hold k' t₂ hk' with ⟨rfl, hnew'⟩ | ⟨q', hq', hqh'⟩
    · rfl
    · exact absurd (hqh'.trans (hhash.symm.trans hnew)) (hhashes k' q' hq')
    · exact absurd (hqh.trans (hhash.trans hnew')) (hhashes k q hq)
    · exact h.hashes k k' q q' hq hq' (by rw [hqh, hqh', hhash])
  · intro k k' t₁ t₂ hk hk' hf
    rcases hspend k t₁ hk with ⟨rfl, hf₁⟩ | ⟨hs₁, hne₁⟩ <;>
      rcases hspend k' t₂ hk' with ⟨rfl, hf₂⟩ | ⟨hs₂, hne₂⟩
    · rfl
    · exact absurd (hf.symm.trans hf₁) hne₂
    · exact absurd (hf.trans hf₂) hne₁
    · exact h.oneSpendable k k' t₁ t₂ hs₁ hs₂ hf

end

section
variable [TokenHash] {may : Lock → Prop} {s t : Store} {F : Uuid} {op : SessionOp} {a : SessionAnswer}

omit [TokenHash] in
theorem Moves.familyShut (h : Moves may s t) (hs : FamilyShut F s) : FamilyShut F t := by
  intro id r' hr' hf
  obtain ⟨r, hr, hgrows⟩ := h.session hr'
  exact hgrows.revoked (hs id r hr (hgrows.family.symm.trans hf))

omit [TokenHash] in
theorem FamiliesSound.familyShut (h : FamiliesSound s) {id : Uuid} {r : SessionRow}
    (hr : s.sessions.find? id = some r) (hclosed : r.revokedAt ≠ none) : FamilyShut r.familyId s := by
  intro id' r' hr' hf
  obtain rfl := h.oneSession id' id r' r hr' hr hf
  cases hr.symm.trans hr'
  exact hclosed

def Presented (s : Store) : SessionOp → SessionAnswer → Prop
  | .rotateRefresh _ presented, .refreshed (.error _) =>
    ∃ id t, s.refreshTokens.find? id = some t ∧ t.tokenHash = TokenHash.hashToken presented
  | _, _ => True

theorem Moves.presented (h : Moves may s t) (hp : Presented s op a) : Presented t op a := by
  unfold Presented at hp ⊢
  split at hp
  · obtain ⟨id, t₀, ht₀, hhash⟩ := hp
    obtain ⟨t₁, ht₁, hgrows⟩ := h.tokens id t₀ ht₀
    exact ⟨id, t₁, ht₁, hgrows.hash.trans hhash⟩
  · trivial

theorem Moves.ends (h : Moves may s t) (ht : FamiliesSound t) (hp : Presented s op a)
    (he : Ends t F op a) : Ends s F op a := by
  unfold Ends at he ⊢
  split at he
  · exact he
  · obtain ⟨id, t', ht', hhash, hf⟩ := he
    obtain ⟨id₀, t₀, ht₀, hhash₀⟩ := hp
    obtain ⟨t₁, ht₁, hgrows⟩ := h.tokens id₀ t₀ ht₀
    obtain rfl := ht.hashes id id₀ t' t₁ ht' ht₁ (by rw [hgrows.hash, hhash, hhash₀])
    cases ht'.symm.trans ht₁
    exact ⟨id, t₀, ht₀, hhash₀, hgrows.family.symm.trans hf⟩
  · obtain ⟨r', hr', huser, hf⟩ := he
    obtain ⟨r, hr, hgrows⟩ := h.session hr'
    exact ⟨r, hr, hgrows.user.symm.trans huser, hgrows.family.symm.trans hf⟩
  · obtain ⟨id, r', hr', huser, hf⟩ := he
    obtain ⟨r, hr, hgrows⟩ := h.session hr'
    exact ⟨id, r, hr, hgrows.user.symm.trans huser, hgrows.family.symm.trans hf⟩
  · obtain ⟨id, r', hr', huser, hf⟩ := he
    obtain ⟨r, hr, hgrows⟩ := h.session hr'
    exact ⟨id, r, hr, hgrows.user.symm.trans huser, hgrows.family.symm.trans hf⟩
  · exact he

section
variable {x : Trail Store Lock}

theorem SessionPromise.presented (h : SessionPromise op x a s) : Presented s op a := by
  unfold Presented
  split
  · obtain ⟨-, -, id, t₀, ht₀, hhash, -⟩ := h
    exact ⟨id, t₀, ht₀, hhash⟩
  · trivial

theorem SessionPromise.sound (h : SessionPromise op x a s) (hs : FamiliesSound s) :
    FamiliesSound (x.pend s) := by
  obtain ⟨hx, hdid⟩ := h
  have hno : MakesNoToken x.pend → FamiliesSound (x.pend s) := fun hno =>
    hs.of_noToken (hx.1 s) fun id t' ht' => hno s id t' ht'
  unfold Did at hdid
  split at hdid
  · unfold Rotated at hdid
    split at hdid
    · exact hs.exchanged (hx.1 s) hdid
    · exact hno hdid.1
    · exact hno hdid.1
  · exact hdid.elim
  · exact hno hdid.1
  · exact hno hdid.1
  · exact hno hdid.1

theorem SessionPromise.shuts (h : SessionPromise op x a s) (hs : FamiliesSound s)
    (he : Ends (x.pend s) F op a) : FamilyShut F (x.pend s) := by
  have hsound := h.sound hs
  have hthere := h.presented
  obtain ⟨hx, hdid⟩ := h
  have he' := (hx.1 s).ends hsound hthere he
  unfold Ends at he'
  split at he'
  · subst he'
    exact fun id r hr hf => (hdid.2 id).2 r hr hf
  · obtain ⟨id, t', ht', hhash, rfl⟩ := he'
    obtain ⟨-, id₀, t₀, ht₀, hhash₀, hshut⟩ := hdid
    obtain rfl := hs.hashes id id₀ t' t₀ ht' ht₀ (hhash.trans hhash₀.symm)
    cases ht'.symm.trans ht₀
    exact fun sid r hr hf => (hshut sid).2 r hr hf
  · obtain ⟨r, hr, huser, rfl⟩ := he
    exact hsound.familyShut hr (hdid.2 r hr huser)
  · obtain ⟨id, r, hr, huser, rfl⟩ := he
    exact hsound.familyShut hr (hdid.2 id r hr huser)
  · obtain ⟨id, r, hr, huser, rfl⟩ := he
    exact hsound.familyShut hr (hdid.2 id r hr huser)
  · exact he'.elim

theorem SessionPromise.issued {hash : String} {tokens : IssuedTokens} (h : SessionPromise op x a s)
    (hi : Issues hash tokens op a) : ∃ id t₀ t₁, Spendable s id t₀ ∧ t₀.tokenHash = hash ∧
      tokens.familyId = t₀.familyId ∧ (x.pend s).refreshTokens.find? id = some t₁ ∧
      t₁.tokenHash = hash ∧ t₁.rotatedAt ≠ none := by
  obtain ⟨-, hdid⟩ := h
  unfold Issues at hi
  split at hi
  · next ctx presented _ =>
    obtain ⟨rfl, rfl⟩ := hi
    obtain ⟨id, t₀, hs₀, hhash, hf, hfree, -, htokens⟩ := hdid
    refine ⟨id, t₀, rotated ctx t₀, hs₀, hhash, hf, ?_, hhash, fun hrot => by cases hrot⟩
    rw [htokens, Table.find?_modify_self, Table.find?_insert_of_some hs₀.1]
    rfl
  · exact hi.elim

end

variable {ι : Type} [DecidableEq ι] {ops : ι → SessionOp} {db : Store}
  {c d : Config ι Store Lock String SessionAnswer}

def IssuedBy (ops : ι → SessionOp) (hash : String) (tokens : IssuedTokens) (e : ι × Except String SessionAnswer) :
    Prop := ∃ a, e.2 = .ok a ∧ Issues hash tokens (ops e.1) a

def EndedBy (ops : ι → SessionOp) (s : Store) (familyId : Uuid) (e : ι × Except String SessionAnswer) : Prop :=
  ∃ a, e.2 = .ok a ∧ Ends s familyId (ops e.1) a

/-- The committed store agrees with what was answered so far. -/
structure FamilyHistory (ops : ι → SessionOp) (c : Config ι Store Lock String SessionAnswer) : Prop where
  sound : FamiliesSound c.db
  spent : ∀ e ∈ c.log, ∀ hash tokens, IssuedBy ops hash tokens e →
    ∃ id t, c.db.refreshTokens.find? id = some t ∧ t.tokenHash = hash ∧ t.rotatedAt ≠ none
  presented : ∀ e ∈ c.log, ∀ a, e.2 = .ok a → Presented c.db (ops e.1) a
  ended : ∀ e ∈ c.log, ∀ F, EndedBy ops c.db F e → FamilyShut F c.db
  once : c.log.Pairwise fun e e' => ∀ hash tokens tokens',
    IssuedBy ops hash tokens e → ¬IssuedBy ops hash tokens' e'
  dead : c.log.Pairwise fun e e' => ∀ F hash tokens,
    EndedBy ops c.db F e → IssuedBy ops hash tokens e' → tokens.familyId ≠ F

omit [DecidableEq ι] in
theorem FamilyHistory.exit (h : FamilyHistory ops c) {d : Config ι Store Lock String SessionAnswer}
    {i : ι} {x : String} (hdb : d.db = c.db) (hlog : d.log = c.log ++ [(i, .error x)]) :
    FamilyHistory ops d := by
  have hmem : ∀ e ∈ d.log, ∀ a, e.2 = .ok a → e ∈ c.log := by
    intro e he a ha
    rw [hlog] at he
    rcases List.mem_append.mp he with he | he
    · exact he
    · cases List.mem_singleton.mp he
      cases ha
  constructor
  · rw [hdb]
    exact h.sound
  · rintro e he hash tokens ⟨a, ha, hi⟩
    rw [hdb]
    exact h.spent e (hmem e he a ha) hash tokens ⟨a, ha, hi⟩
  · intro e he a ha
    rw [hdb]
    exact h.presented e (hmem e he a ha) a ha
  · rintro e he F ⟨a, ha, hi⟩
    rw [hdb] at hi ⊢
    exact h.ended e (hmem e he a ha) F ⟨a, ha, hi⟩
  · rw [hlog, List.pairwise_append]
    refine ⟨h.once, List.pairwise_singleton _ _, fun e _ e' he' hash tokens tokens' _ hi => ?_⟩
    cases List.mem_singleton.mp he'
    obtain ⟨a, ha, -⟩ := hi
    cases ha
  · rw [hlog, hdb, List.pairwise_append]
    refine ⟨h.dead, List.pairwise_singleton _ _, fun e _ e' he' F hash tokens _ hi => ?_⟩
    cases List.mem_singleton.mp he'
    obtain ⟨a, ha, -⟩ := hi
    cases ha

omit [DecidableEq ι] in
theorem FamilyHistory.commit (h : FamilyHistory ops c) {d : Config ι Store Lock String SessionAnswer}
    {i : ι} {x : Trail Store Lock} {a : SessionAnswer} (hp : SessionPromise (ops i) x a c.db)
    (hdb : d.db = x.pend c.db) (hlog : d.log = c.log ++ [(i, .ok a)]) : FamilyHistory ops d := by
  have hm : Moves (· ∈ x.locks) c.db d.db := hdb ▸ hp.1.1 c.db
  have hsound : FamiliesSound d.db := hdb ▸ hp.sound h.sound
  have hback : ∀ e ∈ c.log, ∀ F, EndedBy ops d.db F e → EndedBy ops c.db F e := by
    rintro e he F ⟨b, hb, hends⟩
    exact ⟨b, hb, hm.ends hsound (h.presented e he b hb) hends⟩
  constructor
  · exact hsound
  · intro e he hash tokens hi
    rw [hlog] at he
    rcases List.mem_append.mp he with he | he
    · obtain ⟨id, t, ht, hhash, hrot⟩ := h.spent e he hash tokens hi
      obtain ⟨t', ht', hgrows⟩ := hm.tokens id t ht
      exact ⟨id, t', ht', hgrows.hash.trans hhash, hgrows.rotated hrot⟩
    · obtain rfl := List.mem_singleton.mp he
      obtain ⟨b, hb, hi⟩ := hi
      cases hb
      obtain ⟨id, -, t₁, -, -, -, ht₁, hhash, hrot⟩ := hp.issued hi
      exact ⟨id, t₁, by rw [hdb, ht₁], hhash, hrot⟩
  · intro e he b hb
    rw [hlog] at he
    rcases List.mem_append.mp he with he | he
    · exact hm.presented (h.presented e he b hb)
    · obtain rfl := List.mem_singleton.mp he
      cases hb
      exact hm.presented hp.presented
  · intro e he F hends
    rw [hlog] at he
    rcases List.mem_append.mp he with he | he
    · exact hm.familyShut (h.ended e he F (hback e he F hends))
    · obtain rfl := List.mem_singleton.mp he
      obtain ⟨b, hb, hends⟩ := hends
      cases hb
      rw [hdb] at hends ⊢
      exact hp.shuts h.sound hends
  · rw [hlog, List.pairwise_append]
    refine ⟨h.once, List.pairwise_singleton _ _, fun e he e' he' hash tokens tokens' hi hi' => ?_⟩
    obtain rfl := List.mem_singleton.mp he'
    obtain ⟨b, hb, hi'⟩ := hi'
    cases hb
    -- the token of the earlier exchange is rotated, that of the later one is not
    obtain ⟨id, t, ht, hhash, hrot⟩ := h.spent e he hash tokens hi
    obtain ⟨id', t₀, -, hs₀, hhash', -⟩ := hp.issued hi'
    obtain rfl := h.sound.hashes id id' t t₀ ht hs₀.1 (hhash.trans hhash'.symm)
    cases ht.symm.trans hs₀.1
    exact hrot hs₀.2.1
  · rw [hlog, List.pairwise_append]
    refine ⟨?_, List.pairwise_singleton _ _, fun e he e' he' F hash tokens hends hi hf => ?_⟩
    · refine h.dead.imp_of_mem fun {e e'} he _ hdead F hash tokens hends hi => ?_
      exact hdead F hash tokens (hback e he F hends) hi
    · obtain rfl := List.mem_singleton.mp he'
      obtain ⟨b, hb, hi⟩ := hi
      cases hb
      -- the session of the token is open, those of the family are not
      obtain ⟨id, t₀, -, hs₀, -, hf₀, -⟩ := hp.issued hi
      obtain ⟨ht₀, -, -, r, hr, hopen⟩ := hs₀
      obtain ⟨r', hr', hrf⟩ := h.sound.session id t₀ ht₀
      cases hr.symm.trans hr'
      exact h.ended e he F (hback e he F hends) t₀.sessionId r hr (hrf.trans (hf₀.symm.trans hf)) hopen

theorem familyHistory (h : Reachable (fun i => (ops i).body) db c) (h0 : FamiliesSound db) :
    FamilyHistory ops c := by
  induction h with
  | initial =>
    exact ⟨h0, fun e he => absurd he List.not_mem_nil, fun e he => absurd he List.not_mem_nil,
      fun e he => absurd he List.not_mem_nil, .nil, .nil⟩
  | @step c d prior next ih =>
    have hsafe := prior.unconditional.safe (T := fun _ => sessionTerms) (Q := fun i => SessionPromise (ops i))
      (fun i => safe_session (ops i) db) (fun _ _ _ _ _ _ _ => trivial)
      fun i j x a ls s _ hp hls => (hp.1.1 s).mono hls
    cases next with
    | exec => exact ⟨ih.sound, ih.spent, ih.presented, ih.ended, ih.once, ih.dead⟩
    | @commit i t a hrun hprog =>
      obtain ⟨x, -, hpend, -, hp⟩ := hsafe.promise hrun hprog
      exact ih.commit hp (by rw [hpend]; rfl) rfl
    | exit hrun hprog => exact ih.exit rfl rfl
    | crash => exact ⟨ih.sound, ih.spent, ih.presented, ih.ended, ih.once, ih.dead⟩

/-- Rotations and revocations side by side: a token is exchanged once at most, a family has one usable
token at most, and after a family is ended no token of it is exchanged. -/
theorem refresh_families (h : Reachable (fun i => (ops i).body) db c) (h0 : FamiliesSound db) :
    (c.log.Pairwise fun e e' => ∀ hash tokens tokens',
      IssuedBy ops hash tokens e → ¬IssuedBy ops hash tokens' e') ∧
    (∀ now id id' t t', Usable now c.db id t → Usable now c.db id' t' → t.familyId = t'.familyId → id = id') ∧
    (c.log.Pairwise fun e e' => ∀ F hash tokens,
      EndedBy ops c.db F e → IssuedBy ops hash tokens e' → tokens.familyId ≠ F) := by
  have hhistory := familyHistory h h0
  refine ⟨hhistory.once, fun now id id' t t' ht ht' hf => ?_, hhistory.dead⟩
  exact hhistory.sound.oneSpendable id id' t t' ht.1 ht'.1 hf

end

theorem familiesSound_of_no_session {s : Store} (hs : ∀ id, s.sessions.find? id = none)
    (ht : ∀ id, s.refreshTokens.find? id = none) : FamiliesSound s := by
  constructor
  · intro id t h
    rw [ht id] at h
    cases h
  · intro id id' r r' h
    rw [hs id] at h
    cases h
  · intro id id' t t' h
    rw [ht id] at h
    cases h
  · rintro id id' t t' ⟨h, -⟩
    rw [ht id] at h
    cases h

theorem FamiliesSound.createSession [TokenHash] {ctx : TokenCtx} {sessionId familyId userId membershipId : Uuid}
    {userPublic role : String} {policyVersion : Int} {tokens : IssuedTokens} {s t : Store}
    (h : FamiliesSound s) (hnew : ∀ id r, s.sessions.find? id = some r → r.familyId ≠ familyId)
    (hrun : (createSessionWithTokens ctx sessionId familyId userId userPublic membershipId role
      policyVersion).run s = .ok (tokens, t)) : FamiliesSound t := by
  simp only [createSessionWithTokens, insertRefreshToken, Prog.run_execute_bind_ok] at hrun
  obtain ⟨hsession, htoken, hrun⟩ := hrun
  cases hrun
  split_ifs at hsession with hs
  split_ifs at htoken with hid hhash
  have hs' := Table.find?_eq_none.mpr hs
  have hid' : s.refreshTokens.find? ctx.tokenId = none := Table.find?_eq_none.mpr hid
  have hhash' : ∀ id t₀, s.refreshTokens.find? id = some t₀ →
      t₀.tokenHash ≠ TokenHash.hashToken ctx.opaqueToken := by
    intro id t₀ ht₀ heq
    refine hhash ?_
    rw [Store.tokenByHash, List.find?_isSome]
    exact ⟨(id, t₀), Table.find?_eq_some.mp ht₀, by simpa using heq⟩
  have holdTokens : ∀ id t₀, s.refreshTokens.find? id = some t₀ → t₀.familyId ≠ familyId := by
    intro id t₀ ht₀ hf
    obtain ⟨r, hr, hrf⟩ := h.session id t₀ ht₀
    exact hnew _ r hr (hrf.trans hf)
  have holdSession : ∀ id r, s.sessions.find? id = some r → id ≠ sessionId := by
    rintro id r hr rfl
    rw [hs'] at hr
    cases hr
  constructor
  · intro id t₀ ht₀
    rcases Table.find?_insert_some ht₀ with hold | ⟨-, rfl⟩
    · obtain ⟨r, hr, hf⟩ := h.session id t₀ hold
      exact ⟨r, Table.find?_insert_of_some hr _, hf⟩
    · exact ⟨_, Table.find?_insert_self hs' _, rfl⟩
  · intro id id' r r' hr hr' hf
    rcases Table.find?_insert_some hr with hold | ⟨rfl, rfl⟩ <;>
      rcases Table.find?_insert_some hr' with hold' | ⟨rfl, rfl⟩
    · exact h.oneSession id id' r r' hold hold' hf
    · exact absurd hf (hnew id r hold)
    · exact absurd hf.symm (hnew id' r' hold')
    · rfl
  · intro id id' t₁ t₂ ht₁ ht₂ heq
    rcases Table.find?_insert_some ht₁ with hold | ⟨rfl, rfl⟩ <;>
      rcases Table.find?_insert_some ht₂ with hold' | ⟨rfl, rfl⟩
    · exact h.hashes id id' t₁ t₂ hold hold' heq
    · exact absurd heq (hhash' id t₁ hold)
    · exact absurd heq.symm (hhash' id' t₂ hold')
    · rfl
  · rintro id id' t₁ t₂ ⟨ht₁, hrot, hrev, r, hr, hopen⟩ ⟨ht₂, hrot', hrev', r', hr', hopen'⟩ hf
    rcases Table.find?_insert_some ht₁ with hold | ⟨rfl, rfl⟩ <;>
      rcases Table.find?_insert_some ht₂ with hold' | ⟨rfl, rfl⟩
    · -- both were spendable before
      have hback : ∀ k t₀ q, s.refreshTokens.find? k = some t₀ →
          (s.sessions.insert sessionId ⟨familyId, userId, membershipId, ctx.now, none, none⟩).find?
            t₀.sessionId = some q → s.sessions.find? t₀.sessionId = some q := by
        intro k t₀ q hk hq
        obtain ⟨p, hp, -⟩ := h.session k t₀ hk
        rwa [Table.find?_insert_ne _ _ (holdSession _ p hp)] at hq
      exact h.oneSpendable id id' t₁ t₂ ⟨hold, hrot, hrev, r, hback id t₁ r hold hr, hopen⟩
        ⟨hold', hrot', hrev', r', hback id' t₂ r' hold' hr', hopen'⟩ hf
    · exact absurd hf (holdTokens id t₁ hold)
    · exact absurd hf.symm (holdTokens id' t₂ hold')
    · rfl

def signedIn [TokenHash] : Store :=
  let base : Store := { Store.empty with
    users := Table.empty.insert 1 ⟨"usr_1", "a@b.c", "A"⟩
    memberships := Table.empty.insert 1 ⟨101, "mbr_1", .member, none, none, none, 1, .active, none, none⟩ }
  match (createSessionWithTokens ⟨0, "first", 11, 12⟩ 21 22 1 "usr_1" 101 "member" 1).run base with
  | .ok (_, s) => s
  | .error _ => base

theorem signedIn_sound [TokenHash] : FamiliesSound signedIn := by
  unfold signedIn
  dsimp only
  split
  · next h =>
    exact (familiesSound_of_no_session (fun _ => rfl) fun _ => rfl).createSession
      (fun id r h => by cases h) h
  · exact familiesSound_of_no_session (fun _ => rfl) fun _ => rfl

/-- The first token is presented twice: the second time the family is ended. -/
theorem refresh_families_reused :
    letI := canonicalTokenHash
    ∃ c, Reachable (fun i => (sideBySide (SessionOp.rotateRefresh ⟨1, "second", 13, 14⟩ "first")
        (.rotateRefresh ⟨2, "third", 15, 16⟩ "first") i).body) signedIn c ∧ c.log.length = 2 ∧
      FamilyShut 22 c.db ∧ c.log.Pairwise fun e e' => ∀ hash tokens tokens',
        IssuedBy (sideBySide (.rotateRefresh ⟨1, "second", 13, 14⟩ "first")
          (.rotateRefresh ⟨2, "third", 15, 16⟩ "first")) hash tokens e →
        ¬IssuedBy (sideBySide (.rotateRefresh ⟨1, "second", 13, 14⟩ "first")
          (.rotateRefresh ⟨2, "third", 15, 16⟩ "first")) hash tokens' e' := by
  let := canonicalTokenHash
  obtain ⟨c, hc, hcheck⟩ := Reachable.of_play
    (fun i => (sideBySide (SessionOp.rotateRefresh ⟨1, "second", 13, 14⟩ "first")
      (.rotateRefresh ⟨2, "third", 15, 16⟩ "first") i).body) signedIn
    (Move.through left 6 ++ Move.through right 6)
    (fun c => c.log.length == 2 && c.db.sessions.rows.all fun r => r.2.revokedAt.isSome) (by decide +kernel)
  obtain ⟨hlog, hall⟩ := Bool.and_eq_true_iff.mp hcheck
  refine ⟨c, hc, by simpa using hlog, fun id r hr _ => ?_, (refresh_families hc signedIn_sound).1⟩
  have hsome := List.all_eq_true.mp hall _ (Table.find?_eq_some.mp hr)
  exact fun hnone => by simp [hnone] at hsome

end Noxara.Workspace
