import Noxara.MarketplaceInstalls
import Noxara.TransactionCover

/-! What the requests of the marketplace do to installs, tokens and codes. Tokens and codes are added and used
up, never deleted, and every row is written under its lock. -/
namespace Noxara.Marketplace

open Authz Transaction
open Finance (Uuid Timestamp Formats)
open Workspace (TokenHash)

/-- A token changes only by being revoked. -/
structure TokenKept (r r' : AppTokenRow) : Prop where
  installId : r'.installId = r.installId
  tokenHash : r'.tokenHash = r.tokenHash
  scopes : r'.scopes = r.scopes
  revoked : r.revokedAt.isSome = true → r'.revokedAt.isSome = true

/-- A code changes only by being used. -/
structure CodeKept (r r' : AuthCodeRow) : Prop where
  codeHash : r'.codeHash = r.codeHash
  used : r.usedAt.isSome = true → r'.usedAt.isSome = true

theorem TokenKept.refl (r : AppTokenRow) : TokenKept r r := ⟨rfl, rfl, rfl, fun h => h⟩

theorem TokenKept.trans {a b c : AppTokenRow} (h : TokenKept a b) (h' : TokenKept b c) : TokenKept a c :=
  ⟨h'.installId.trans h.installId, h'.tokenHash.trans h.tokenHash, h'.scopes.trans h.scopes,
    fun ha => h'.revoked (h.revoked ha)⟩

theorem TokenKept.revoke (now : Timestamp) (r : AppTokenRow) : TokenKept r (r.revoke now) :=
  ⟨rfl, rfl, rfl, fun _ => rfl⟩

theorem CodeKept.refl (r : AuthCodeRow) : CodeKept r r := ⟨rfl, fun h => h⟩

theorem CodeKept.trans {a b c : AuthCodeRow} (h : CodeKept a b) (h' : CodeKept b c) : CodeKept a c :=
  ⟨h'.codeHash.trans h.codeHash, fun ha => h'.used (h.used ha)⟩

structure Grows (s t : Db) : Prop where
  tokens : Table.Extends TokenKept s.tokens t.tokens
  codes : Table.Extends CodeKept s.codes t.codes
  installs : ∀ id, (s.installs.find? id).isSome = true → (t.installs.find? id).isSome = true

theorem Grows.refl (s : Db) : Grows s s := ⟨.refl TokenKept.refl _, .refl CodeKept.refl _, fun _ h => h⟩

theorem Grows.trans {s t u : Db} (h : Grows s t) (h' : Grows t u) : Grows s u :=
  ⟨h.tokens.trans TokenKept.trans h'.tokens, h.codes.trans CodeKept.trans h'.codes,
    fun id hid => h'.installs id (h.installs id hid)⟩

section
variable {s t : Db} {hash : String} {k : Uuid}

theorem Grows.tokenByHash (h : Grows s t) {r : AppTokenRow} (hr : s.tokenByHash hash = some (k, r)) :
    ∃ r', t.tokenByHash hash = some (k, r') ∧ TokenKept r r' :=
  h.tokens.first (fun r => r.tokenHash = hash) (fun _ _ hkept => by rw [hkept.tokenHash]) hr

theorem Grows.codeByHash (h : Grows s t) {r : AuthCodeRow} (hr : s.codeByHash hash = some (k, r)) :
    ∃ r', t.codeByHash hash = some (k, r') ∧ CodeKept r r' :=
  h.codes.first (fun r => r.codeHash = hash) (fun _ _ hkept => by rw [hkept.codeHash]) hr

end

/-- Rows only grow, new installs are locked, and so are the tokens that change. -/
structure Careful (ls : List RowKey) (f : Db → Db) : Prop where
  grows : ∀ t, Grows t (f t)
  install : ∀ t id, .install id ∉ ls → t.installs.find? id = none → (f t).installs.find? id = none
  token : ∀ t k, .token k ∉ ls → (f t).tokens.find? k = t.tokens.find? k

theorem Careful.id (ls : List RowKey) : Careful ls id := ⟨Grows.refl, fun _ _ _ h => h, fun _ _ _ => rfl⟩

theorem Careful.comp {ls ls' : List RowKey} {f g : Db → Db} (hf : Careful ls f) (hg : Careful ls' g) :
    Careful (ls ++ ls') (f ∘ g) where
  grows t := (hg.grows t).trans (hf.grows (g t))
  install t id hid hnone := by
    rw [List.mem_append, not_or] at hid
    exact hf.install (g t) id hid.1 (hg.install t id hid.2 hnone)
  token t k hk := by
    rw [List.mem_append, not_or] at hk
    exact (hf.token (g t) k hk.1).trans (hg.token t k hk.2)

/-- A write to other tables. -/
theorem Careful.of_keeps {ls : List RowKey} {f : Db → Db}
    (h : ∀ t, (f t).tokens = t.tokens ∧ (f t).codes = t.codes ∧ (f t).installs = t.installs) : Careful ls f where
  grows t := by
    obtain ⟨htokens, hcodes, hinstalls⟩ := h t
    constructor
    · rw [htokens]
      exact .refl TokenKept.refl _
    · rw [hcodes]
      exact .refl CodeKept.refl _
    · rw [hinstalls]
      exact fun _ hid => hid
  install t id _ hnone := by rwa [(h t).2.2]
  token t k _ := by rw [(h t).1]

theorem careful_insertToken (id : Uuid) (row : AppTokenRow) :
    Careful [.token id] fun db => { db with tokens := db.tokens.insert id row } where
  grows t := ⟨.insert TokenKept.refl _ _ _, .refl CodeKept.refl _, fun _ h => h⟩
  install _ _ _ h := h
  token t k hk := by
    refine Table.find?_insert_ne _ _ fun hid => hk ?_
    rw [hid]
    exact List.mem_singleton_self _

theorem careful_revokeToken (now : Timestamp) (id : Uuid) : Careful [.token id] (Db.revokeToken now id) where
  grows t := ⟨.modify TokenKept.refl _ _ (TokenKept.revoke now), .refl CodeKept.refl _, fun _ h => h⟩
  install _ _ _ h := h
  token t k hk := by
    refine Table.find?_modify_ne _ _ fun hid => hk ?_
    rw [hid]
    exact List.mem_singleton_self _

theorem careful_insertInstall (id listingId : Uuid) (row : InstallRow) :
    Careful [.install id, .activeInstall listingId] fun db => { db with installs := db.installs.insert id row } where
  grows t := by
    refine ⟨.refl TokenKept.refl _, .refl CodeKept.refl _, fun j hj => ?_⟩
    obtain ⟨r, hr⟩ := Option.isSome_iff_exists.mp hj
    change ((t.installs.insert id row).find? j).isSome = true
    rw [Table.find?_insert_of_some hr]
    rfl
  install t j hj hnone := by
    refine (Table.find?_insert_ne _ _ fun hid => hj ?_).trans hnone
    rw [hid]
    exact List.mem_cons_self ..
  token _ _ _ := rfl

theorem careful_modifyInstall (ls : List RowKey) (id : Uuid) (f : InstallRow → InstallRow) :
    Careful ls fun db => { db with installs := db.installs.modify id f } where
  grows t := by
    refine ⟨.refl TokenKept.refl _, .refl CodeKept.refl _, fun j hj => ?_⟩
    exact (Table.isSome_find?_modify _ _ _ _).trans hj
  install t j _ hnone := by
    have hsome := Table.isSome_find?_modify t.installs j id f
    rw [hnone] at hsome
    simpa using hsome
  token _ _ _ := rfl

theorem careful_insertCode (ls : List RowKey) (id : Uuid) (row : AuthCodeRow) :
    Careful ls fun db => { db with codes := db.codes.insert id row } where
  grows _ := ⟨.refl TokenKept.refl _, .insert CodeKept.refl _ _ _, fun _ h => h⟩
  install _ _ _ h := h
  token _ _ _ := rfl

theorem careful_markUsed (ls : List RowKey) (now : Timestamp) (id installId : Uuid) :
    Careful ls fun db => { db with codes := db.codes.modify id (·.use now installId) } where
  grows _ := ⟨.refl TokenKept.refl _, .modify CodeKept.refl _ _ fun _ => ⟨rfl, fun _ => rfl⟩, fun _ h => h⟩
  install _ _ _ h := h
  token _ _ _ := rfl

/-- The write of a statement that only reads. -/
def Idle (f : Db → Db) : Prop := f = id

theorem idle_id : Idle id := rfl

section
variable {α : Type} {p : Tx α} {C : List RowKey → (Db → Db) → Prop}

theorem covered_of_idle (hp : p.Writes Idle) (hid : ∀ ls, C ls id) : p.Covered C := by
  refine .of_writes (fun ls f hf => ?_) hp
  rw [hf]
  exact hid ls

/-- A body that only reads leaves the transaction without a write. -/
theorem safe_of_idle (hp : p.Writes Idle) (T : Terms Db RowKey) {x : Trail Db RowKey} {s : Db} (hx : x.pend = id) :
    p.Safe T (fun y _ _ => y.pend = id) x s := by
  refine .of_writes (W := Idle) rfl (fun f g hf hg => ?_) hp fun y f a u hf hy _ _ => ?_
  · rw [hf, hg]
    rfl
  · rw [hy, hf, hx]
    rfl

end

theorem idle_fetchInstall (id : Uuid) : (fetchInstall id).Writes Idle :=
  .bind (Prog.writes_query idle_id _) fun _ => Prog.writes_okOr _ _

theorem idle_fetchByUuid (id : Uuid) : (fetchByUuid id).Writes Idle :=
  .bind (Prog.writes_query idle_id _) fun _ => Prog.writes_okOr _ _

theorem idle_fetchPublished (id : Uuid) : (fetchPublished id).Writes Idle :=
  .bind (idle_fetchByUuid id) fun _ => .bind Prog.writes_require fun _ => trivial

theorem idle_fetchPublishedByConnector (key : String) : (fetchPublishedByConnector key).Writes Idle :=
  .bind (Prog.writes_query idle_id _) fun _ => Prog.writes_okOr _ _

theorem idle_fetchActiveByConnector (key : String) : (fetchActiveByConnector key).Writes Idle :=
  .bind (Prog.writes_query idle_id _) fun _ => Prog.writes_okOr _ _

theorem idle_authorize [TimeFormats] (user : Uuid) (permission : PermissionId) :
    (authorize user permission).Writes Idle :=
  .bind (Prog.writes_query idle_id _) fun _ => .bind (Prog.writes_ofExcept _) fun _ =>
    .bind (Prog.writes_ofExcept _) fun _ => trivial

theorem idle_authenticateClient [TokenHash] (clientId clientSecret : String) :
    (authenticateClient clientId clientSecret).Writes Idle :=
  .bind (Prog.writes_query idle_id _) fun _ => .bind (Prog.writes_okOr _ _) fun _ =>
    .bind Prog.writes_require fun _ => .bind Prog.writes_require fun _ => trivial

theorem idle_resolveToken [TokenHash] (now : Timestamp) (plaintext : String) (kind : TokenKind) :
    (resolveToken now plaintext kind).Writes Idle :=
  .bind (Prog.writes_query idle_id _) fun _ => .bind (Prog.writes_okOr _ _) fun _ =>
    .bind Prog.writes_require fun _ => .bind Prog.writes_require fun _ => .bind Prog.writes_require fun _ =>
    .bind (Prog.writes_query idle_id _) fun _ => .bind (Prog.writes_okOr _ _) fun _ =>
    .bind Prog.writes_require fun _ => trivial

theorem idle_checkCode [Sha256] (now : Timestamp) (body : OauthTokenRequest) (client : OauthClientRow)
    (code : AuthCodeRow) : (checkCode now body client code).Writes Idle :=
  .bind Prog.writes_require fun _ => .bind Prog.writes_require fun _ => .bind Prog.writes_require fun _ =>
    .bind Prog.writes_require fun _ => Prog.writes_require

theorem careful_of_idle {α : Type} {p : Tx α} (hp : p.Writes Idle) : p.Covered Careful :=
  covered_of_idle hp Careful.id

theorem careful_emitEvent (event : Event) : (emitEvent event).Covered Careful :=
  Prog.covered_execute Careful.id fun _ _ => .of_keeps fun _ => ⟨rfl, rfl, rfl⟩

theorem careful_revokeTokens (now : Timestamp) (ids : List Uuid) : (revokeTokens now ids).Covered Careful := by
  induction ids with
  | nil => trivial
  | cons id ids ih =>
    refine .bind (Prog.covered_executeReturning Careful.id fun v _ _ => ?_) fun _ => .bind ih fun _ => trivial
    cases hlive : v.isLive id with
    | true => simpa [hlive] using careful_revokeToken now id
    | false =>
      simp only [Bool.false_eq_true, if_false]
      exact Careful.id _

theorem careful_revokeInstallTokens (now : Timestamp) (id : Uuid) : (revokeInstallTokens now id).Covered Careful :=
  .bind (Prog.covered_query Careful.id _) fun ids => careful_revokeTokens now ids

theorem careful_revokeInstall (ctx : RequestCtx) (id user : Uuid) : (revokeInstall ctx id user).Covered Careful := by
  refine .bind (careful_of_idle (idle_fetchInstall id)) fun existing => ?_
  split_ifs
  · trivial
  · exact .bind (Prog.covered_execute Careful.id fun _ _ => careful_modifyInstall _ _ _) fun _ =>
      .bind (careful_revokeInstallTokens _ _) fun _ => .bind (careful_of_idle (idle_fetchInstall _)) fun _ =>
      .bind (careful_emitEvent _) fun _ => trivial

section
variable [TokenHash] [Formats]

theorem careful_issueTokens (ctx : RequestCtx) (id : Uuid) (scopes : List String) :
    (issueTokens ctx id scopes).Covered Careful :=
  .bind (Prog.covered_execute Careful.id fun _ _ => careful_insertToken _ _) fun _ =>
    .bind (Prog.covered_execute Careful.id fun _ _ => careful_insertToken _ _) fun _ => trivial

theorem careful_createInstall (ctx : RequestCtx) (user listingId : Uuid) (listing : ListingRow)
    (consented : List String) : (createInstall ctx user listingId listing consented).Covered Careful :=
  .bind (Prog.covered_ofExcept _) fun _ => .bind Prog.covered_require fun _ =>
    .bind (Prog.covered_execute Careful.id fun _ _ => careful_insertInstall _ _ _) fun _ =>
    .bind (careful_issueTokens _ _ _) fun _ => .bind (careful_of_idle (idle_fetchInstall _)) fun _ =>
    .bind (careful_emitEvent _) fun _ => .bind (careful_emitEvent _) fun _ => trivial

theorem careful_reconsent (ctx : RequestCtx) (id : Uuid) (consented : List String) :
    (reconsent ctx id consented).Covered Careful :=
  .bind (careful_of_idle (idle_fetchInstall _)) fun _ => .bind Prog.covered_require fun _ =>
    .bind (Prog.covered_execute Careful.id fun _ _ => careful_modifyInstall _ _ _) fun _ =>
    .bind (careful_revokeInstallTokens _ _) fun _ => .bind (careful_issueTokens _ _ _) fun _ =>
    .bind (careful_of_idle (idle_fetchInstall _)) fun _ => .bind (careful_emitEvent _) fun _ => trivial

omit [Formats] in
theorem careful_createAuthorizationCode (ctx : RequestCtx) (createdBy listingId : Uuid) (listing : ListingRow)
    (consented : List String) (redirectUri challenge method : String) :
    (createAuthorizationCode ctx createdBy listingId listing consented redirectUri challenge method).Covered Careful :=
  .bind Prog.covered_require fun _ => .bind Prog.covered_require fun _ =>
    .bind (Prog.covered_execute Careful.id fun _ _ => careful_insertCode _ _ _) fun _ => trivial

theorem careful_exchangeRefreshToken (ctx : RequestCtx) (body : OauthTokenRequest) :
    (exchangeRefreshToken ctx body).Covered Careful :=
  .bind (Prog.covered_okOr _ _) fun _ => .bind (careful_of_idle (idle_authenticateClient _ _)) fun _ =>
    .bind (careful_of_idle (idle_resolveToken _ _ _)) fun _ => .bind Prog.covered_require fun _ =>
    .bind (Prog.covered_execute Careful.id fun _ _ => careful_revokeToken _ _) fun _ =>
    .bind (careful_issueTokens _ _ _) fun _ => .bind (careful_of_idle (idle_fetchInstall _)) fun _ =>
    .bind (careful_emitEvent _) fun _ => trivial

theorem careful_exchangeAuthorizationCode [Sha256] (ctx : RequestCtx) (body : OauthTokenRequest) :
    (exchangeAuthorizationCode ctx body).Covered Careful :=
  .bind (Prog.covered_okOr _ _) fun _ => .bind (careful_of_idle (idle_authenticateClient _ _)) fun _ =>
    .bind (Prog.covered_query Careful.id _) fun _ => .bind (Prog.covered_okOr _ _) fun _ =>
    .bind (careful_of_idle (idle_checkCode _ _ _ _)) fun _ =>
    .bind (careful_of_idle (idle_fetchPublished _)) fun _ => .bind (careful_createInstall _ _ _ _ _) fun _ =>
    .bind (Prog.covered_execute Careful.id fun _ _ => careful_markUsed _ _ _ _) fun _ => trivial

theorem careful_handle [Sha256] [TimeFormats] (ctx : RequestCtx) (req : Request) :
    (req.handle ctx).Covered Careful := by
  cases req with
  | createInstall user body =>
    exact .bind (careful_of_idle (idle_authorize _ _)) fun _ => .bind (Prog.covered_ofExcept _) fun _ =>
      .bind (careful_of_idle (idle_fetchPublished _)) fun _ => .bind (Prog.covered_ofExcept _) fun _ =>
      .bind (careful_createInstall _ _ _ _ _) fun _ => trivial
  | connect user key scopes =>
    exact .bind (careful_of_idle (idle_authorize _ _)) fun _ =>
      .bind (careful_of_idle (idle_fetchPublishedByConnector _)) fun _ =>
      .bind Prog.covered_require fun _ => .bind (Prog.covered_ofExcept _) fun _ =>
      .bind (careful_createInstall _ _ _ _ _) fun _ => trivial
  | reconsent user publicId scopes =>
    exact .bind (careful_of_idle (idle_authorize _ _)) fun _ => .bind (Prog.covered_ofExcept _) fun _ =>
      .bind (careful_of_idle (idle_fetchInstall _)) fun _ => .bind (careful_of_idle (idle_fetchByUuid _)) fun _ =>
      .bind (Prog.covered_ofExcept _) fun _ => .bind (careful_reconsent _ _ _) fun _ => trivial
  | uninstall user publicId =>
    exact .bind (careful_of_idle (idle_authorize _ _)) fun _ => .bind (Prog.covered_ofExcept _) fun _ =>
      .bind (careful_revokeInstall _ _ _) fun _ => trivial
  | disconnect user key =>
    exact .bind (careful_of_idle (idle_authorize _ _)) fun _ =>
      .bind (careful_of_idle (idle_fetchActiveByConnector _)) fun _ =>
      .bind (careful_revokeInstall _ _ _) fun _ => trivial
  | authorize user body =>
    exact .bind (careful_of_idle (idle_authorize _ _)) fun _ => .bind (Prog.covered_ofExcept _) fun _ =>
      .bind (careful_of_idle (idle_fetchPublished _)) fun _ => .bind (Prog.covered_ofExcept _) fun _ =>
      .bind (careful_createAuthorizationCode _ _ _ _ _ _ _ _) fun _ => trivial
  | token body =>
    refine .bind ?_ fun _ => trivial
    unfold exchange
    split_ifs
    · exact careful_exchangeAuthorizationCode ctx body
    · exact careful_exchangeRefreshToken ctx body
    · trivial

end

end Noxara.Marketplace
