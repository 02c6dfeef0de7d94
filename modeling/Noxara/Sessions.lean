import Noxara.TransactionRows
import Noxara.WorkspaceStore

/-! Sessions and the rotation of their refresh tokens. A refresh token is exchanged once; presenting it again revokes
its whole family. A revocation closes sessions and opens none, and of a family or a user that is revoked none stays
open. -/
namespace Noxara.Workspace

open Authz Transaction
open Finance (Uuid Timestamp)

/-- The digest under which tokens are stored. -/
class TokenHash where
  hashToken : String → String

/-- SHA-256, in hexadecimal, of some tokens. -/
def tokenDigests : List (String × String) := [
  ("first", "a7937b64b8caa58f03721bb6bacf5c78cb235febe0e70b1b84cd99541461a08e"),
  ("second", "16367aacb67a4a017c8da8ab95682ccb390863780f7114dda0a0e0c55644c7c4"),
  ("third", "b1e99324505bd32da0e1f85dcf5e19a09db0481e8a15f62c41eb320304a8e927"),
  ("inv", "89270a50341bb8e83734ee062603c63c219320ed4a40fb9fb8c2792358548e8a"),
  ("secret", "2bb80d537b1da3e38bd30361aa855686bde0eacd7162fef6a25fe97bf527a25b"),
  ("mac_1", "b52cbe952842be97b7e82e7ed7be66baf88da3138886577bf5b1fb2414c26560"),
  ("mrt_1", "1e840b5a252625861bfa89385696f306f55022f52eae113b9956a1d967ff8400"),
  ("mat_10", "305f0ec7ca6b68210d371384cc220e49d56834124f85ddc11efa7942aca88567"),
  ("mrt_11", "6c6f9155463317c11628be09dce035c433b5c606554b915c5fb2da9d43dca637"),
  ("mat_20", "6c15a7850ec7489afae8ef65c4f1cde6114ad55e6bf3861bea14315bba09bf82"),
  ("mrt_21", "9c6451ed9ebdf7d33e2a1c4f214165b4a8a0b25ed8c1b58ed26b1dec8a88105e")]

/-- The digest as it is on these tokens. -/
@[reducible] def canonicalTokenHash : TokenHash where
  hashToken token := (tokenDigests.lookup token).getD ""

def accessTokenTtlSecs : Int := 900

def refreshTokenTtlSecs : Int := 60 * 60 * 24 * 30

structure AccessClaims where
  sub : String
  userId : Uuid
  membershipId : Uuid
  roles : List String
  policyVersion : Int
  sid : Uuid
  familyId : Uuid
  jti : Uuid
  deriving DecidableEq

structure IssuedTokens where
  accessToken : AccessClaims
  refreshToken : String
  expiresIn : Int
  sessionId : Uuid
  familyId : Uuid
  deriving DecidableEq

inductive RefreshOutcome
  | issued (tokens : IssuedTokens)
  /-- Reuse of a rotated token: the entire family is revoked. -/
  | reuseDetected (familyId : Uuid)
  deriving DecidableEq

/-- The clock, and what is made up for new tokens. -/
structure TokenCtx where
  now : Timestamp
  opaqueToken : String
  tokenId : Uuid
  jti : Uuid

/-- The exit of a query that has to find a row and finds none. -/
def rowNotFound : String :=
  "no rows returned by a query that expected to return at least one row"

def uniqueViolation (constraint : String) : String :=
  s!"error returned from database: duplicate key value violates unique constraint \"{constraint}\""

abbrev SessionTx (α : Type) := Prog Store Lock String α

def Store.setSessions (s : Store) (f : Table Uuid SessionRow → Table Uuid SessionRow) : Store :=
  { s with sessions := f s.sessions }

def Store.setRefreshTokens (s : Store) (f : Table Uuid RefreshTokenRow → Table Uuid RefreshTokenRow) :
    Store := { s with refreshTokens := f s.refreshTokens }

def openTokens (familyId : Uuid) (s : Store) : List Uuid :=
  (s.refreshTokens.rows.filter fun r => r.2.familyId = familyId ∧ r.2.revokedAt = none).map Prod.fst

def openSessions (familyId : Uuid) (s : Store) : List Uuid :=
  (s.sessions.rows.filter fun r => r.2.familyId = familyId ∧ r.2.revokedAt = none).map Prod.fst

def revokeToken (now : Timestamp) (id : Uuid) (s : Store) : Store :=
  s.setRefreshTokens (·.modify id fun t => { t with revokedAt := some now })

def closeSession (now : Timestamp) (reason : String) (id : Uuid) (s : Store) : Store :=
  s.setSessions (·.modify id fun r => { r with revokedAt := some now, revokeReason := some reason })

section
variable {ε : Type}

def revokeFamily (now : Timestamp) (familyId : Uuid) (reason : String) : Prog Store Lock ε Unit := do
  .updateRows (openTokens familyId) .refreshToken (fun v id => id ∈ openTokens familyId v)
    (revokeToken now)
  .updateRows (openSessions familyId) .session (fun v id => id ∈ openSessions familyId v)
    (closeSession now reason)

def revokeSession (now : Timestamp) (userId sessionId : Uuid) : Prog Store Lock ε Bool := do
  let row ← .query fun s => (s.sessions.find? sessionId).filter fun r =>
    r.userId = userId ∧ r.revokedAt = none
  match row with
  | none => return false
  | some r =>
    revokeFamily now r.familyId "user_revoke_session"
    return true

def familiesOf (userId : Uuid) (s : Store) : List Uuid :=
  ((s.sessions.values.filter fun r => r.userId = userId ∧ r.revokedAt = none).map (·.familyId)).eraseDups

def revokeFamilies (now : Timestamp) (userId : Uuid) (reason : String) : Prog Store Lock ε Nat := do
  let families ← .query (familiesOf userId)
  .each (fun familyId => revokeFamily now familyId reason) families
  return families.length

def revokeAllSessions (now : Timestamp) (userId : Uuid) : Prog Store Lock ε Nat :=
  revokeFamilies now userId "user_revoke_all"

def revokeOrgUserSessions (now : Timestamp) (userId : Uuid) : Prog Store Lock ε Nat :=
  revokeFamilies now userId "membership_revoked"

end

section
variable [TokenHash]

def Store.tokenByHash (s : Store) (hash : String) : Option (Uuid × RefreshTokenRow) :=
  s.refreshTokens.rows.find? fun r => r.2.tokenHash = hash

def insertRefreshToken (ctx : TokenCtx) (sessionId familyId : Uuid) : SessionTx Unit :=
  let hash := TokenHash.hashToken ctx.opaqueToken
  .execute (fun _ => [.refreshToken ctx.tokenId, .refreshTokenHash hash])
    (fun v =>
      if ctx.tokenId ∈ v.refreshTokens.keys then .error (uniqueViolation "refresh_token_pkey")
      else if (v.tokenByHash hash).isSome then .error (uniqueViolation "refresh_token_token_hash_key")
      else .ok ())
    fun _ s => s.setRefreshTokens (·.insert ctx.tokenId
      ⟨sessionId, familyId, hash, ctx.now + refreshTokenTtlSecs, none, none, none⟩)

def issuedTokens (ctx : TokenCtx) (session : SessionRow) (sessionId familyId : Uuid) (sub role : String)
    (policyVersion : Int) : IssuedTokens where
  accessToken :=
    ⟨sub, session.userId, session.membershipId, [role], policyVersion, sessionId, familyId, ctx.jti⟩
  refreshToken := ctx.opaqueToken
  expiresIn := accessTokenTtlSecs
  sessionId
  familyId

def createSessionWithTokens (ctx : TokenCtx) (sessionId familyId userId : Uuid) (userPublic : String)
    (membershipId : Uuid) (role : String) (policyVersion : Int) : SessionTx IssuedTokens := do
  let session : SessionRow := ⟨familyId, userId, membershipId, ctx.now, none, none⟩
  .execute (fun _ => [])
    (fun v => if sessionId ∈ v.sessions.keys then .error (uniqueViolation "auth_session_pkey") else .ok ())
    fun _ s => s.setSessions (·.insert sessionId session)
  insertRefreshToken ctx sessionId familyId
  return issuedTokens ctx session sessionId familyId userPublic role policyVersion

/-- Exchange the token `tokenId` in its session, which is locked and not revoked. -/
def exchangeToken (ctx : TokenCtx) (tokenId : Uuid) (t : RefreshTokenRow) (session : SessionRow) :
    SessionTx (Except String RefreshOutcome) := do
  let found ← .query fun s =>
    (s.membershipById session.membershipId).bind fun m => (s.users.find? m.1).map fun u => (m.2, u)
  let (m, user) ← .okOr found rowNotFound
  if m.revokedAt ≠ none ∨ m.status = .revoked ∨ m.status = .suspended then
    revokeFamily ctx.now t.familyId "membership_revoked"
    -- the revocation is committed with the refusal
    return .error "membership revoked"
  else
    insertRefreshToken ctx t.sessionId t.familyId
    .execute (fun _ => [.refreshToken tokenId]) (fun _ => .ok ()) fun _ s =>
      s.setRefreshTokens (·.modify tokenId fun t =>
        { t with rotatedAt := some ctx.now, replacedBy := some ctx.tokenId })
    .execute (fun _ => [.session t.sessionId]) (fun _ => .ok ()) fun _ s =>
      s.setSessions (·.modify t.sessionId fun r => { r with lastSeenAt := ctx.now })
    return .ok (.issued (issuedTokens ctx session t.sessionId t.familyId user.publicId m.role.asStr
      m.policyVersion))

/-- A token that is neither revoked nor expired. -/
def redeemToken (ctx : TokenCtx) (tokenId : Uuid) (t : RefreshTokenRow) :
    SessionTx (Except String RefreshOutcome) := do
  let found ← .queryForUpdate (fun _ => [.session t.sessionId]) (·.sessions.find? t.sessionId)
  let session ← .okOr found rowNotFound
  .require (session.revokedAt = none) "session revoked"
  exchangeToken ctx tokenId t session

def rotateRefresh (ctx : TokenCtx) (presented : String) : SessionTx (Except String RefreshOutcome) := do
  let hash := TokenHash.hashToken presented
  let row ← .queryForUpdate (fun v => ((v.tokenByHash hash).map fun r => Lock.refreshToken r.1).toList)
    (·.tokenByHash hash)
  let (tokenId, t) ← .okOr row "invalid refresh token"
  .require (t.revokedAt = none ∧ ¬t.expiresAt < ctx.now) "refresh token revoked or expired"
  if t.rotatedAt ≠ none then
    -- the presented token was already rotated
    revokeFamily ctx.now t.familyId "refresh_reuse_detected"
    return .ok (.reuseDetected t.familyId)
  else redeemToken ctx tokenId t

end

section
variable {ε : Type} {W : (Store → Store) → Prop} (hid : W id)
  (htoken : ∀ now id, W (revokeToken now id)) (hsession : ∀ now reason id, W (closeSession now reason id))
include hid htoken hsession

theorem writes_revokeFamily (now : Timestamp) (familyId : Uuid) (reason : String) :
    (revokeFamily now familyId reason : Prog Store Lock ε Unit).Writes W := by
  unfold revokeFamily
  exact .bind (Prog.writes_updateRows hid fun id => htoken now id) fun _ =>
    Prog.writes_updateRows hid fun id => hsession now reason id

theorem writes_revokeFamilies (now : Timestamp) (userId : Uuid) (reason : String) :
    (revokeFamilies now userId reason : Prog Store Lock ε Nat).Writes W := by
  unfold revokeFamilies
  refine .bind (Prog.writes_query hid _) fun families => ?_
  refine .bind (Prog.writes_each (fun f => ?_) families) fun _ => trivial
  exact writes_revokeFamily hid htoken hsession now f reason

end

theorem mem_openSessions {familyId id : Uuid} {s : Store} : id ∈ openSessions familyId s ↔
    ∃ r, s.sessions.find? id = some r ∧ r.familyId = familyId ∧ r.revokedAt = none := by
  rw [openSessions, Table.mem_map_fst_filter (p := fun r : SessionRow => r.familyId = familyId ∧ r.revokedAt = none)]
  simp only [decide_eq_true_eq]

/-- From `s` to `t` no session is opened, nor given to another user or family. -/
def Closes (s t : Store) : Prop :=
  ∀ id r', t.sessions.find? id = some r' → ∃ r, s.sessions.find? id = some r ∧ r'.userId = r.userId ∧
    r'.familyId = r.familyId ∧ (r'.revokedAt = none → r.revokedAt = none)

theorem Closes.refl (s : Store) : Closes s s := fun _ r' hr => ⟨r', hr, rfl, rfl, fun h => h⟩

theorem Closes.trans {s t u : Store} (hst : Closes s t) (htu : Closes t u) : Closes s u := by
  intro id r'' hr''
  obtain ⟨r', hr', huser', hfamily', hopen'⟩ := htu id r'' hr''
  obtain ⟨r, hr, huser, hfamily, hopen⟩ := hst id r' hr'
  exact ⟨r, hr, huser'.trans huser, hfamily'.trans hfamily, fun h => hopen (hopen' h)⟩

theorem closes_closeSession (now : Timestamp) (reason : String) (id : Uuid) (s : Store) :
    Closes s (closeSession now reason id s) := by
  intro k r' hr'
  by_cases hk : k = id
  · subst hk
    have hself := Table.find?_modify_self s.sessions k
      fun r => { r with revokedAt := some now, revokeReason := some reason }
    obtain ⟨r, hr, rfl⟩ := Option.map_eq_some_iff.mp (hself.symm.trans hr')
    exact ⟨r, hr, rfl, rfl, fun h => by cases h⟩
  · have hother := Table.find?_modify_ne s.sessions
      (fun r => { r with revokedAt := some now, revokeReason := some reason }) hk
    exact ⟨r', hother.symm.trans hr', rfl, rfl, fun h => h⟩

theorem Closes.notOpen {s t : Store} (h : Closes s t) {familyId id : Uuid}
    (hs : id ∉ openSessions familyId s) : id ∉ openSessions familyId t := by
  rw [mem_openSessions] at hs ⊢
  rintro ⟨r', hr', hfamily', hopen'⟩
  obtain ⟨r, hr, _, hfamily, hopen⟩ := h id r' hr'
  exact hs ⟨r, hr, hfamily.symm.trans hfamily', hopen hopen'⟩

theorem revoked_closeSession {now : Timestamp} {reason : String} {id : Uuid} {s : Store} {r : SessionRow}
    (h : (closeSession now reason id s).sessions.find? id = some r) : r.revokedAt ≠ none := by
  have hself := Table.find?_modify_self s.sessions id
    fun r => { r with revokedAt := some now, revokeReason := some reason }
  obtain ⟨r, _, rfl⟩ := Option.map_eq_some_iff.mp (hself.symm.trans h)
  exact Option.some_ne_none now

theorem notOpen_closeSession (now : Timestamp) (reason : String) (familyId id : Uuid) (s : Store) :
    id ∉ openSessions familyId (closeSession now reason id s) := by
  rw [mem_openSessions]
  rintro ⟨r, hr, _, hopen⟩
  exact revoked_closeSession hr hopen

section
variable {ε : Type} {now : Timestamp} {s t : Store}

theorem Closes.of_writes {α : Type} {p : Prog Store Lock ε α} (hp : p.Writes fun f => ∀ s, Closes s (f s))
    {a : α} (h : p.run s = .ok (a, t)) : Closes s t := by
  obtain ⟨f, hf, rfl⟩ := hp.run_ok Closes.refl (fun f g hf hg s => (hg s).trans (hf (g s))) h
  exact hf s

theorem revokeFamily_ok {familyId : Uuid} {reason : String} {a : Unit}
    (h : (revokeFamily now familyId reason : Prog Store Lock ε Unit).run s = .ok (a, t)) :
    Closes s t ∧ openSessions familyId t = [] := by
  constructor
  · exact .of_writes (writes_revokeFamily Closes.refl (fun _ _ s => Closes.refl s)
      (fun now reason id s => closes_closeSession now reason id s) now familyId reason) h
  · unfold revokeFamily at h
    obtain ⟨_, u, _, hu⟩ := Prog.run_bind_ok.mp h
    exact Prog.updateRows_none (fun i s => notOpen_closeSession now reason familyId i s)
      (fun i j s hi => (closes_closeSession now reason j s).notOpen hi) hu

theorem revokeFamilies_ok {userId : Uuid} {reason : String} {n : Nat}
    (h : (revokeFamilies now userId reason : Prog Store Lock ε Nat).run s = .ok (n, t)) :
    Closes s t ∧ ∀ id r, t.sessions.find? id = some r → r.userId = userId → r.revokedAt ≠ none := by
  unfold revokeFamilies at h
  rw [Prog.run_query_bind] at h
  obtain ⟨_, u, hu, ht⟩ := Prog.run_bind_ok.mp h
  cases ht
  -- family by family, from the first on
  have heach : ∀ (fs : List Uuid) (v : Store),
      (Prog.each (fun f => revokeFamily now f reason) fs : Prog Store Lock ε Unit).run v = .ok ((), t) →
      Closes v t ∧ ∀ f ∈ fs, openSessions f t = [] := by
    intro fs
    induction fs with
    | nil =>
      intro v hv
      cases hv
      exact ⟨.refl _, fun f hf => absurd hf List.not_mem_nil⟩
    | cons f fs ih =>
      intro v hv
      obtain ⟨_, w, hw, hrest⟩ := Prog.run_bind_ok.mp hv
      obtain ⟨hvw, hnone⟩ := revokeFamily_ok hw
      obtain ⟨hwt, hall⟩ := ih w hrest
      refine ⟨hvw.trans hwt, fun g hg => ?_⟩
      rcases List.mem_cons.mp hg with rfl | hg
      · rw [List.eq_nil_iff_forall_not_mem] at hnone ⊢
        exact fun id => hwt.notOpen (hnone id)
      · exact hall g hg
  obtain ⟨hcloses, hall⟩ := heach _ s hu
  refine ⟨hcloses, fun id r hr huser hopen => ?_⟩
  obtain ⟨r₀, hr₀, huser₀, hfamily, hopen₀⟩ := hcloses id r hr
  have hmem : r.familyId ∈ familiesOf userId s := by
    rw [familiesOf, List.mem_eraseDups, List.mem_map]
    refine ⟨r₀, List.mem_filter.mpr ⟨List.mem_map_of_mem (Table.find?_eq_some.mp hr₀), ?_⟩, hfamily.symm⟩
    simpa using ⟨huser₀.symm.trans huser, hopen₀ hopen⟩
  have hin : id ∈ openSessions r.familyId t := mem_openSessions.mpr ⟨r, hr, rfl, hopen⟩
  rw [hall _ hmem] at hin
  cases hin

end

end Noxara.Workspace
