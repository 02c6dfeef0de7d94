import Noxara.Base64
import Noxara.MarketplaceStore

/-! Installs of marketplace listings and the tokens of their apps. A listing is installed directly, by its
connector key, or by exchanging an authorization code; tokens carry the scopes that were consented to when they
were issued. -/
namespace Noxara.Marketplace

open Authz Transaction
open Finance (Uuid Timestamp Formats PublicId AppError notFound validation conflict)
open Workspace (TokenHash unauthorized forbidden)

structure TokenPair where
  accessToken : String
  refreshToken : String
  tokenType : String
  expiresIn : Int
  scope : List String

structure InstallDto where
  id : String
  listingId : String
  listingSlug : String
  listingName : String
  listingKind : ListingKind
  connectorKey : Option String
  consentedScopes : List String
  status : InstallStatus
  outboundEnabled : Bool
  inboundEnabled : Bool
  lastError : Option String
  installedAt : Timestamp
  revokedAt : Option Timestamp

def InstallRow.toDto (row : InstallRow) : InstallDto where
  id := row.publicId
  listingId := row.listingPublicId
  listingSlug := row.listingSlug
  listingName := row.listingName
  listingKind := row.listingKind
  connectorKey := row.connectorKey
  consentedScopes := row.consentedScopes
  status := row.status
  outboundEnabled := row.outboundEnabled
  inboundEnabled := row.inboundEnabled
  lastError := row.lastError
  installedAt := row.installedAt
  revokedAt := row.revokedAt

structure CreateInstallRequest where
  listingId : String
  consentedScopes : List String

structure AuthorizeRequest where
  listingId : String
  redirectUri : String
  consentedScopes : List String
  codeChallenge : String
  codeChallengeMethod : Option String
  state : Option String

structure OauthTokenRequest where
  grantType : String
  clientId : String
  clientSecret : String
  code : Option String
  codeVerifier : Option String
  redirectUri : Option String
  refreshToken : Option String

structure AuthorizeResponse where
  code : String
  redirectUri : String
  expiresAt : Timestamp
  state : Option String

structure AuthorizePermissionResponse where
  allowed : Bool
  installId : String
  orgId : Uuid
  permission : String
  scopes : List String

inductive Answer
  | installed (install : InstallDto) (tokens : TokenPair)
  | uninstalled (install : InstallDto)
  | code (response : AuthorizeResponse)
  | issued (installId : String) (tokens : TokenPair)

/-- The requests of a member come with the member. -/
inductive Request
  | createInstall (userId : Uuid) (body : CreateInstallRequest)
  | connect (userId : Uuid) (connectorKey : String) (consentedScopes : Option (List String))
  | reconsent (userId : Uuid) (publicId : String) (consentedScopes : List String)
  | uninstall (userId : Uuid) (publicId : String)
  | disconnect (userId : Uuid) (connectorKey : String)
  | authorize (userId : Uuid) (body : AuthorizeRequest)
  | token (body : OauthTokenRequest)

def accessTokenTtlSecs : Int := 3600

def refreshTokenTtlSecs : Int := 60 * 60 * 24 * 30

def authCodeTtlSecs : Int := 300

def adminMarketplaceInstall : PermissionId := "admin.marketplace.install"

def adminMarketplaceUninstall : PermissionId := "admin.marketplace.uninstall"

/-- `Sha256::digest`, which the standard library does not have. -/
class Sha256 where
  digest : String → List UInt8

/-- A verifier, of 43 characters. -/
def sampleVerifier : String := "dBjftJeZ4CVP-mB92K27uhbUJU1p1r_wW1gFWFOEjXk"

/-- The digest as it is on this verifier. -/
@[reducible] def canonicalSha256 : Sha256 where
  digest s := if s = sampleVerifier then [
    19, 211, 30, 150, 26, 26, 216, 236, 47, 22, 177, 12, 76, 152, 46, 8, 118, 168, 120, 173, 109, 241, 68,
    86, 110, 225, 137, 74, 203, 112, 249, 195] else []

def tokenPrefix (token : String) : String := String.ofList (token.toList.take 12)

section
variable [TokenHash] [Formats]

def insertToken (id : Uuid) (row : AppTokenRow) : Tx Unit :=
  Prog.execute (fun _ => [.token id])
    (fun db =>
      if (db.tokens.find? id).isSome then .error (uniqueViolation "marketplace_app_token_pkey")
      else if (db.installs.find? row.installId).isNone then
        .error (internal "error returned from database: insert or update on table \"marketplace_app_token\" violates foreign key constraint \"marketplace_app_token_install_id_fkey\"")
      else .ok ())
    fun _ db => { db with tokens := db.tokens.insert id row }

/-- The row of a new token, which is drawn under `id`. -/
def tokenRow (id installId : Uuid) (tokenKind : TokenKind) (plaintext : String) (scopes : List String)
    (expiresAt : Timestamp) : AppTokenRow where
  installId
  publicId := (PublicId.mk .marketplaceAppToken id).asStr
  tokenKind
  tokenHash := TokenHash.hashToken plaintext
  tokenPrefix := tokenPrefix plaintext
  scopes
  expiresAt := some expiresAt

/-- An access and a refresh token; the plaintext is returned once. -/
def issueTokens (ctx : RequestCtx) (installId : Uuid) (scopes : List String) : Tx TokenPair := do
  let access := "mat_" ++ ctx.opaqueToken 0
  let refresh := "mrt_" ++ ctx.opaqueToken 1
  insertToken (ctx.fresh 1)
    (tokenRow (ctx.fresh 1) installId .access access scopes (ctx.now + accessTokenTtlSecs))
  insertToken (ctx.fresh 2)
    (tokenRow (ctx.fresh 2) installId .refresh refresh scopes (ctx.now + refreshTokenTtlSecs))
  pure ⟨access, refresh, "Bearer", accessTokenTtlSecs, scopes⟩

end

def AppTokenRow.revoke (now : Timestamp) (row : AppTokenRow) : AppTokenRow := { row with revokedAt := some now }

def Db.revokeToken (now : Timestamp) (id : Uuid) (db : Db) : Db :=
  { db with tokens := db.tokens.modify id (·.revoke now) }

def Db.isLive (db : Db) (id : Uuid) : Bool := (db.tokens.find? id).any fun t => t.revokedAt.isNone

def Db.liveTokens (db : Db) (installId : Uuid) : List Uuid :=
  (db.tokens.rows.filter fun t => t.2.installId = installId ∧ t.2.revokedAt.isNone).map Prod.fst

/-- Lock the tokens one after another and revoke those that are live still; how many they were. -/
def revokeTokens (now : Timestamp) : List Uuid → Tx Nat
  | [] => pure 0
  | id :: ids => do
    let changed ← Prog.executeReturning (fun _ => [.token id]) (fun db => .ok (db.isLive id))
      fun v db => if v.isLive id then db.revokeToken now id else db
    let rest ← revokeTokens now ids
    pure ((if changed then 1 else 0) + rest)

/-- `UPDATE .. WHERE install_id = $2 AND revoked_at IS NULL`, access and refresh tokens alike. -/
def revokeInstallTokens (now : Timestamp) (installId : Uuid) : Tx Nat := do
  let ids ← Prog.query fun db => db.liveTokens installId
  revokeTokens now ids

/-- `UPDATE .. WHERE id = $2`, whether or not the token is live. -/
def revokeTokenById (now : Timestamp) (id : Uuid) : Tx Unit :=
  Prog.execute (fun _ => [.token id]) (fun _ => .ok ()) fun _ db => db.revokeToken now id

structure ResolvedToken where
  tokenId : Uuid
  installId : Uuid
  installPublicId : String
  orgId : Uuid
  listingId : Uuid
  consentedScopes : List String
  scopes : List String

def Db.tokenByHash (db : Db) (hash : String) : Option (Uuid × AppTokenRow) :=
  db.tokens.rows.find? fun t => t.2.tokenHash = hash

/-- A token that has neither been revoked nor expired, of an install that is active. -/
def resolveToken [TokenHash] (now : Timestamp) (plaintext : String) (expectedKind : TokenKind) :
    Tx ResolvedToken := do
  let hash := TokenHash.hashToken plaintext
  let token ← Prog.okOr (← Prog.query fun db => db.tokenByHash hash) (unauthorized "token not recognised")
  Prog.require (token.2.tokenKind = expectedKind) (unauthorized "token kind mismatch")
  Prog.require (token.2.revokedAt = none) (unauthorized "token revoked")
  Prog.require (∀ exp ∈ token.2.expiresAt, now < exp) (unauthorized "token expired")
  let found ← Prog.query fun db => (db.installs.find? token.2.installId).map fun i => (db.orgId, i)
  let install ← Prog.okOr found (unauthorized "install not found for token")
  Prog.require (install.2.status = .active) (unauthorized "install is not active")
  pure ⟨token.1, token.2.installId, install.2.publicId, install.1, install.2.listingId,
    install.2.consentedScopes, token.2.scopes⟩

def fetchInstall (installId : Uuid) : Tx InstallRow := do
  Prog.okOr (← Prog.query fun db => db.installs.find? installId) (notFound "install")

def Db.activeByConnector (db : Db) (connectorKey : String) : Option (Uuid × InstallRow) :=
  db.installs.rows.find? fun i => i.2.connectorKey = some connectorKey ∧ i.2.status = .active

def fetchActiveByConnector (connectorKey : String) : Tx (Uuid × InstallRow) := do
  Prog.okOr (← Prog.query fun db => db.activeByConnector connectorKey) (notFound "integration install")

def Db.activeInstall (db : Db) (listingId : Uuid) : Option (Uuid × InstallRow) :=
  db.installs.rows.find? fun i => i.2.listingId = listingId ∧ i.2.status = .active

/-- `INSERT .. ON CONFLICT DO NOTHING`, on the primary key and on the active install of the listing;
`conflicted` where nothing is inserted. -/
def insertInstall (id : Uuid) (row : InstallRow) (conflicted : AppError) : Tx Unit :=
  Prog.execute (fun _ => [.install id, .activeInstall row.listingId])
    (fun db =>
      if (db.installs.find? id).isSome ∨ (db.activeInstall row.listingId).isSome then .error conflicted
      else .ok ())
    fun _ db => { db with installs := db.installs.insert id row }

section
variable [TokenHash] [Formats]

def installRow (ctx : RequestCtx) (installedBy listingId : Uuid) (listing : ListingRow) (consented : List String) :
    InstallRow where
  publicId := (PublicId.mk .marketplaceInstall (ctx.fresh 0)).asStr
  listingId
  listingPublicId := listing.publicId
  listingSlug := listing.slug
  listingName := listing.name
  listingKind := listing.listingKind
  connectorKey := listing.connectorKey
  consentedScopes := consented
  installedBy
  installedAt := ctx.now

/-- Every requested scope is checked again: a code exchange replays stored consent. -/
def recheckScopes (listing : ListingRow) : List String → Except AppError Unit
  | [] => .ok ()
  | scope :: consented =>
    if scope ∉ listing.requestedScopes then
      .error (validation s!"scope {scope} is not requested by listing {listing.publicId}")
    else recheckScopes listing consented

/-- The one way to an install, with its first tokens. -/
def createInstall (ctx : RequestCtx) (installedBy listingId : Uuid) (listing : ListingRow)
    (consented : List String) : Tx (Uuid × InstallRow × TokenPair) := do
  Prog.ofExcept (recheckScopes listing consented)
  Prog.require (consented ≠ []) (validation "consent must include at least one scope")
  let id := ctx.fresh 0
  insertInstall id (installRow ctx installedBy listingId listing consented)
    (conflict s!"{listing.publicId} is already installed")
  let tokens ← issueTokens ctx id consented
  let install ← fetchInstall id
  emitEvent (.installCreated install.publicId listing.publicId listing.listingKind listing.connectorKey consented)
  emitEvent (.oauthTokenIssued install.publicId listing.publicId consented "install")
  pure (id, install, tokens)

end

def InstallRow.revoke (now : Timestamp) (revokedBy : Uuid) (row : InstallRow) : InstallRow :=
  { row with
    status := .revoked
    revokedAt := some now
    revokedBy := some revokedBy
    outboundEnabled := false
    inboundEnabled := false }

def InstallRow.setConsent (consented : List String) (row : InstallRow) : InstallRow :=
  { row with consentedScopes := consented }

/-- The update frees the listing for another install, which waits for it. -/
def markRevoked (now : Timestamp) (revokedBy installId listingId : Uuid) : Tx Unit :=
  Prog.execute (fun _ => [.install installId, .activeInstall listingId]) (fun _ => .ok ())
    fun _ db => { db with installs := db.installs.modify installId (·.revoke now revokedBy) }

def setConsent (installId : Uuid) (consented : List String) : Tx Unit :=
  Prog.execute (fun _ => [.install installId]) (fun _ => .ok ())
    fun _ db => { db with installs := db.installs.modify installId (·.setConsent consented) }

def revokeLive (ctx : RequestCtx) (installId revokedBy : Uuid) (existing : InstallRow) : Tx InstallRow := do
  markRevoked ctx.now revokedBy installId existing.listingId
  let revokedTokens ← revokeInstallTokens ctx.now installId
  let install ← fetchInstall installId
  emitEvent (.installRevoked install.publicId install.listingPublicId install.connectorKey revokedTokens)
  pure install

/-- Uninstalling is idempotent. -/
def revokeInstall (ctx : RequestCtx) (installId revokedBy : Uuid) : Tx InstallRow := do
  let existing ← fetchInstall installId
  if existing.status = .revoked then pure existing else revokeLive ctx installId revokedBy existing

section
variable [TokenHash] [Formats]

/-- Replace the consent and rotate the tokens to match it. -/
def reconsent (ctx : RequestCtx) (installId : Uuid) (consented : List String) : Tx (InstallRow × TokenPair) := do
  let existing ← fetchInstall installId
  Prog.require (existing.status = .active) (conflict "cannot re-consent a revoked install — install again")
  setConsent installId consented
  -- live tokens carry the scopes of before
  let _ ← revokeInstallTokens ctx.now installId
  let tokens ← issueTokens ctx installId consented
  let install ← fetchInstall installId
  emitEvent (.oauthTokenIssued install.publicId install.listingPublicId consented "reconsent")
  pure (install, tokens)

end

/-- `URL_SAFE_NO_PAD`. -/
def encodeUrlSafe (bytes : List UInt8) : String :=
  String.ofList (((Base64.encode bytes).filter (· ≠ '=')).map fun c =>
    if c = '+' then '-' else if c = '/' then '_' else c)

section
variable [Sha256]

def verifyPkce (challenge method : String) (verifier : Option String) : Bool :=
  -- no challenge was recorded
  if challenge = "" then true
  else
    match verifier with
    | none => false
    | some v =>
      if method = "plain" then challenge = v else encodeUrlSafe (Sha256.digest v) = challenge

end

section
variable [TokenHash]

def authenticateClient (clientId clientSecret : String) : Tx OauthClientRow := do
  let found ← Prog.query fun db => db.clients.rows.find? fun c => c.2.clientId = clientId
  let client ← Prog.okOr found (unauthorized "invalid client credentials")
  Prog.require (client.2.revokedAt = none) (unauthorized "client revoked")
  Prog.require (client.2.clientSecretHash = TokenHash.hashToken clientSecret)
    (unauthorized "invalid client credentials")
  pure client.2

def Db.codeByHash (db : Db) (hash : String) : Option (Uuid × AuthCodeRow) :=
  db.codes.rows.find? fun c => c.2.codeHash = hash

def insertCode (id : Uuid) (row : AuthCodeRow) : Tx Unit :=
  Prog.execute (fun _ => [.code id, .codeHash row.codeHash])
    (fun db =>
      if (db.codes.find? id).isSome then .error (uniqueViolation "marketplace_oauth_code_pkey")
      else if (db.codeByHash row.codeHash).isSome then
        .error (uniqueViolation "marketplace_oauth_code_code_hash_key")
      else .ok ())
    fun _ db => { db with codes := db.codes.insert id row }

/-- A single-use code that carries the granted consent. -/
def createAuthorizationCode (ctx : RequestCtx) (createdBy listingId : Uuid) (listing : ListingRow)
    (consented : List String) (redirectUri codeChallenge codeChallengeMethod : String) :
    Tx (String × Timestamp) := do
  Prog.require (listing.redirectUris = [] ∨ redirectUri ∈ listing.redirectUris)
    (validation "redirect_uri is not registered for this listing")
  Prog.require (codeChallengeMethod = "S256" ∨ codeChallengeMethod = "plain")
    (validation "code_challenge_method must be S256 or plain")
  let code := "mac_" ++ ctx.opaqueToken 0
  let expiresAt := ctx.now + authCodeTtlSecs
  insertCode (ctx.fresh 0)
    { listingId
      codeHash := TokenHash.hashToken code
      codeChallenge
      codeChallengeMethod
      redirectUri
      consentedScopes := consented
      expiresAt
      createdBy }
  pure (code, expiresAt)

def AuthCodeRow.use (now : Timestamp) (installId : Uuid) (row : AuthCodeRow) : AuthCodeRow :=
  { row with
    usedAt := some now
    installId := some installId }

/-- `UPDATE .. SET used_at = now() WHERE id = $2`, whether or not the code was used before. -/
def markUsed (now : Timestamp) (id installId : Uuid) : Tx Unit :=
  Prog.execute (fun _ => [.code id]) (fun _ => .ok ())
    fun _ db => { db with codes := db.codes.modify id (·.use now installId) }

variable [Sha256] [Formats]

def checkCode (now : Timestamp) (body : OauthTokenRequest) (client : OauthClientRow) (code : AuthCodeRow) :
    Tx Unit := do
  Prog.require (code.usedAt = none) (unauthorized "authorization code already used")
  Prog.require (now < code.expiresAt) (unauthorized "authorization code expired")
  Prog.require (code.listingId = client.listingId)
    (unauthorized "authorization code was issued for a different client")
  Prog.require (∀ uri ∈ body.redirectUri, uri = code.redirectUri) (unauthorized "redirect_uri mismatch")
  Prog.require (verifyPkce code.codeChallenge code.codeChallengeMethod body.codeVerifier)
    (unauthorized "PKCE verification failed")

def exchangeAuthorizationCode (ctx : RequestCtx) (body : OauthTokenRequest) : Tx (InstallRow × TokenPair) := do
  let code ← Prog.okOr body.code (validation "code is required")
  let client ← authenticateClient body.clientId body.clientSecret
  let hash := TokenHash.hashToken code
  let authCode ← Prog.okOr (← Prog.query fun db => db.codeByHash hash)
    (unauthorized "authorization code not recognised")
  checkCode ctx.now body client authCode.2
  let listing ← fetchPublished authCode.2.listingId
  let created ← createInstall ctx authCode.2.createdBy authCode.2.listingId listing authCode.2.consentedScopes
  markUsed ctx.now authCode.1 created.1
  pure created.2

omit [Sha256] in
def exchangeRefreshToken (ctx : RequestCtx) (body : OauthTokenRequest) : Tx (InstallRow × TokenPair) := do
  let refresh ← Prog.okOr body.refreshToken (validation "refresh_token is required")
  let client ← authenticateClient body.clientId body.clientSecret
  let resolved ← resolveToken ctx.now refresh .refresh
  Prog.require (resolved.listingId = client.listingId)
    (unauthorized "refresh token belongs to a different client")
  revokeTokenById ctx.now resolved.tokenId
  let tokens ← issueTokens ctx resolved.installId resolved.consentedScopes
  let install ← fetchInstall resolved.installId
  emitEvent (.oauthTokenIssued install.publicId install.listingPublicId resolved.consentedScopes "refresh")
  pure (install, tokens)

omit [Sha256] [Formats] in
/-- The check that resource servers make of a bearer token. -/
def authorizePermission (now : Timestamp) (accessToken permission : String) : Tx AuthorizePermissionResponse := do
  Prog.require (Finance.trim permission ≠ "") (validation "permission is required")
  let resolved ← resolveToken now accessToken .access
  Prog.require (permission ∈ resolved.scopes) (forbidden s!"token was not granted {permission}")
  pure ⟨true, resolved.installPublicId, resolved.orgId, permission, resolved.scopes⟩

end

section
variable [TokenHash] [Sha256] [Formats] [TimeFormats]

omit [Sha256] in
def createInstallEndpoint (ctx : RequestCtx) (userId : Uuid) (body : CreateInstallRequest) : Tx Answer := do
  let principal ← authorize userId adminMarketplaceInstall
  let listingId ← Prog.ofExcept (parsePublicId .marketplaceApp body.listingId)
  let listing ← fetchPublished listingId
  let consented ← Prog.ofExcept (validateConsent listing body.consentedScopes principal)
  let created ← createInstall ctx userId listingId listing consented
  pure (.installed created.2.1.toDto created.2.2)

omit [Sha256] in
def connectEndpoint (ctx : RequestCtx) (userId : Uuid) (connectorKey : String)
    (consentedScopes : Option (List String)) : Tx Answer := do
  let principal ← authorize userId adminMarketplaceInstall
  let listing ← fetchPublishedByConnector connectorKey
  let requested := consentedScopes.getD (defaultConsent listing.2 principal)
  Prog.require (requested ≠ []) (validation s!"no scopes of {connectorKey} can be granted by this member")
  let consented ← Prog.ofExcept (validateConsent listing.2 requested principal)
  let created ← createInstall ctx userId listing.1 listing.2 consented
  pure (.installed created.2.1.toDto created.2.2)

omit [Sha256] in
def reconsentEndpoint (ctx : RequestCtx) (userId : Uuid) (publicId : String) (consentedScopes : List String) :
    Tx Answer := do
  let principal ← authorize userId adminMarketplaceInstall
  let installId ← Prog.ofExcept (parsePublicId .marketplaceInstall publicId)
  let existing ← fetchInstall installId
  let listing ← fetchByUuid existing.listingId
  let consented ← Prog.ofExcept (validateConsent listing consentedScopes principal)
  let renewed ← reconsent ctx installId consented
  pure (.installed renewed.1.toDto renewed.2)

omit [TokenHash] [Sha256] in
def uninstallEndpoint (ctx : RequestCtx) (userId : Uuid) (publicId : String) : Tx Answer := do
  let _ ← authorize userId adminMarketplaceUninstall
  let installId ← Prog.ofExcept (parsePublicId .marketplaceInstall publicId)
  let row ← revokeInstall ctx installId userId
  pure (.uninstalled row.toDto)

omit [TokenHash] [Sha256] [Formats] in
def disconnectEndpoint (ctx : RequestCtx) (userId : Uuid) (connectorKey : String) : Tx Answer := do
  let _ ← authorize userId adminMarketplaceUninstall
  let existing ← fetchActiveByConnector connectorKey
  let row ← revokeInstall ctx existing.1 userId
  pure (.uninstalled row.toDto)

omit [Sha256] in
def authorizeEndpoint (ctx : RequestCtx) (userId : Uuid) (body : AuthorizeRequest) : Tx Answer := do
  let principal ← authorize userId adminMarketplaceInstall
  let listingId ← Prog.ofExcept (parsePublicId .marketplaceApp body.listingId)
  let listing ← fetchPublished listingId
  let consented ← Prog.ofExcept (validateConsent listing body.consentedScopes principal)
  let issued ← createAuthorizationCode ctx userId listingId listing consented body.redirectUri body.codeChallenge
    (body.codeChallengeMethod.getD "S256")
  pure (.code ⟨issued.1, body.redirectUri, issued.2, body.state⟩)

omit [TimeFormats] in
def exchange (ctx : RequestCtx) (body : OauthTokenRequest) : Tx (InstallRow × TokenPair) :=
  if body.grantType = "authorization_code" then exchangeAuthorizationCode ctx body
  else if body.grantType = "refresh_token" then exchangeRefreshToken ctx body
  else .fail (validation s!"unsupported grant_type {body.grantType}")

omit [TimeFormats] in
def tokenEndpoint (ctx : RequestCtx) (body : OauthTokenRequest) : Tx Answer := do
  let issued ← exchange ctx body
  pure (.issued issued.1.publicId issued.2)

def Request.handle (ctx : RequestCtx) : Request → Tx Answer
  | createInstall userId body => createInstallEndpoint ctx userId body
  | connect userId connectorKey consentedScopes => connectEndpoint ctx userId connectorKey consentedScopes
  | reconsent userId publicId consentedScopes => reconsentEndpoint ctx userId publicId consentedScopes
  | uninstall userId publicId => uninstallEndpoint ctx userId publicId
  | disconnect userId connectorKey => disconnectEndpoint ctx userId connectorKey
  | authorize userId body => authorizeEndpoint ctx userId body
  | token body => tokenEndpoint ctx body

end

end Noxara.Marketplace
