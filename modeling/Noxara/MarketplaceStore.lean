import Noxara.CrmRequests
import Noxara.Sessions

/-! The marketplace as one organisation sees it: the listings of the catalogue, what the organisation has
installed of them, and the tokens and authorization codes of its installs. Scopes that a member consents to
are checked against the listing and against the member's own permissions. -/
namespace Noxara.Marketplace

open Authz Transaction
open Finance (Uuid Timestamp Formats PublicId IdKind AppError notFound validation parseIdOfKind)
open Workspace (forbidden enforce loadMembershipScope)

inductive ListingKind
  | firstParty | thirdParty
  deriving DecidableEq

inductive ListingStatus
  | draft | submitted | inReview | approved | rejected | published | suspended
  deriving DecidableEq

def ListingStatus.asStr : ListingStatus → String
  | draft => "draft"
  | submitted => "submitted"
  | inReview => "in_review"
  | approved => "approved"
  | rejected => "rejected"
  | published => "published"
  | suspended => "suspended"

/-- `orgId` is the publisher, not the organisation that installs. -/
structure ListingRow where
  orgId : Uuid
  publicId : String
  slug : String
  name : String
  listingKind : ListingKind
  connectorKey : Option String
  requestedScopes : List String
  redirectUris : List String
  status : ListingStatus

structure OauthClientRow where
  listingId : Uuid
  clientId : String
  clientSecretHash : String
  revokedAt : Option Timestamp

inductive InstallStatus
  | active | revoked
  deriving DecidableEq

/-- The columns copied from the listing keep the install readable when the listing is gone. -/
structure InstallRow where
  publicId : String
  listingId : Uuid
  listingPublicId : String
  listingSlug : String
  listingName : String
  listingKind : ListingKind
  connectorKey : Option String
  consentedScopes : List String
  status : InstallStatus := .active
  installedBy : Uuid
  installedAt : Timestamp
  revokedAt : Option Timestamp := none
  revokedBy : Option Uuid := none
  outboundEnabled : Bool := true
  inboundEnabled : Bool := true
  lastError : Option String := none

inductive TokenKind
  | access | refresh
  deriving DecidableEq

structure AppTokenRow where
  installId : Uuid
  publicId : String
  tokenKind : TokenKind
  tokenHash : String
  tokenPrefix : String
  scopes : List String
  expiresAt : Option Timestamp
  revokedAt : Option Timestamp := none

structure AuthCodeRow where
  listingId : Uuid
  installId : Option Uuid := none
  codeHash : String
  codeChallenge : String
  codeChallengeMethod : String
  redirectUri : String
  consentedScopes : List String
  expiresAt : Timestamp
  usedAt : Option Timestamp := none
  createdBy : Uuid

inductive Event
  | installCreated (installId listingId : String) (listingKind : ListingKind) (connectorKey : Option String)
      (consentedScopes : List String)
  | oauthTokenIssued (installId listingId : String) (scopes : List String) (reason : String)
  | installRevoked (installId listingId : String) (connectorKey : Option String) (revokedTokens : Nat)

/-- `orgId` is the organisation that the installs, tokens and codes belong to, `workspace` its members. -/
structure Db where
  orgId : Uuid
  workspace : Workspace.Store
  listings : Table Uuid ListingRow
  clients : Table Uuid OauthClientRow
  installs : Table Uuid InstallRow
  tokens : Table Uuid AppTokenRow
  codes : Table Uuid AuthCodeRow
  outbox : List Event

/-- The rows a statement can lock, and the unique keys that an insert takes. -/
inductive RowKey
  | install (id : Uuid)
  /-- Of the index on the active install of a listing. -/
  | activeInstall (listingId : Uuid)
  | token (id : Uuid)
  | code (id : Uuid)
  | codeHash (hash : String)
  deriving DecidableEq

abbrev Tx := Prog Db RowKey AppError

/-- `fresh` and `opaqueToken` are the UUIDs and the tokens that a request draws. -/
structure RequestCtx where
  now : Timestamp
  fresh : Nat → Uuid
  opaqueToken : Nat → String

def internal (error : String) : AppError := ⟨.internal, error⟩

def uniqueViolation (constraint : String) : AppError := internal (Workspace.uniqueViolation constraint)

def emitEvent (event : Event) : Tx Unit :=
  Prog.execute (fun _ => []) (fun _ => .ok ()) fun _ db => { db with outbox := db.outbox ++ [event] }

section
variable [Formats]

def parsePublicId (kind : IdKind) (raw : String) : Except AppError Uuid :=
  parseIdOfKind s!"invalid {kind.idPrefix} id" s!"id must use the {kind.idPrefix} prefix" kind raw

end

/-- Row security shows a listing to its publisher, and once it is published to everybody. -/
def Db.listing? (db : Db) (listingId : Uuid) : Option ListingRow :=
  (db.listings.find? listingId).filter fun l => l.orgId = db.orgId ∨ l.status = .published

def fetchByUuid (listingId : Uuid) : Tx ListingRow := do
  Prog.okOr (← Prog.query fun db => db.listing? listingId) (notFound "listing")

def fetchPublished (listingId : Uuid) : Tx ListingRow := do
  let row ← fetchByUuid listingId
  Prog.require (row.status = .published) (validation s!"listing {row.publicId} is not published")
  pure row

def Db.publishedByConnector (db : Db) (connectorKey : String) : Option (Uuid × ListingRow) :=
  db.listings.rows.find? fun l => l.2.connectorKey = some connectorKey ∧ l.2.status = .published

def fetchPublishedByConnector (connectorKey : String) : Tx (Uuid × ListingRow) := do
  Prog.okOr (← Prog.query fun db => db.publishedByConnector connectorKey) (notFound "connector")

section
variable [TimeFormats]

/-- The member's principal, read in a transaction of its own before that of the request. -/
def authorize (userId : Uuid) (permission : PermissionId) : Tx Principal := do
  let membership ← Prog.query fun db => loadMembershipScope db.workspace userId
  let membership ← Prog.ofExcept membership
  Prog.ofExcept (enforce membership.principal permission)
  pure membership.principal

/-- The consented scopes, each once, after those `resolved` before them. -/
def resolveScopes (listing : ListingRow) (principal : Principal) :
    List String → List String → Except AppError (List String)
  | resolved, [] => .ok resolved
  | resolved, scope :: consented =>
    if scope ∉ listing.requestedScopes then
      .error (validation s!"scope {scope} is not requested by listing {listing.publicId}")
    else if ¬isAllowed principal scope then
      .error (forbidden s!"installer cannot grant {scope}: it exceeds their own permissions")
    else resolveScopes listing principal (if scope ∈ resolved then resolved else resolved ++ [scope]) consented

/-- Consent is within what the listing requests and what the installer may do. -/
def validateConsent (listing : ListingRow) (consented : List String) (principal : Principal) :
    Except AppError (List String) := do
  let resolved ← resolveScopes listing principal [] consented
  if resolved = [] then .error (validation "consented_scopes must contain at least one scope") else return resolved

/-- The widest consent that the principal may give to the listing. -/
def defaultConsent (listing : ListingRow) (principal : Principal) : List String :=
  listing.requestedScopes.filter (isAllowed principal)

theorem resolveScopes_spec {listing : ListingRow} {principal : Principal} {resolved consented scopes : List String}
    (h : resolveScopes listing principal resolved consented = .ok scopes) :
    (∀ p ∈ consented, p ∈ listing.requestedScopes ∧ isAllowed principal p = true) ∧
      ∀ p, p ∈ scopes ↔ p ∈ resolved ∨ p ∈ consented := by
  induction consented generalizing resolved with
  | nil =>
    cases h
    simp
  | cons scope consented ih =>
    unfold resolveScopes at h
    by_cases hrequested : scope ∈ listing.requestedScopes
    · by_cases hallowed : isAllowed principal scope = true
      · simp only [hrequested, hallowed, not_true_eq_false, if_false] at h
        obtain ⟨hall, hmem⟩ := ih h
        refine ⟨List.forall_mem_cons.mpr ⟨⟨hrequested, hallowed⟩, hall⟩, fun p => ?_⟩
        rw [hmem]
        split_ifs with hold
        · constructor
          · rintro (hp | hp)
            · exact .inl hp
            · exact .inr (List.mem_cons_of_mem _ hp)
          · rintro (hp | hp)
            · exact .inl hp
            · rcases List.mem_cons.mp hp with rfl | hp
              · exact .inl hold
              · exact .inr hp
        · simp [or_assoc]
      · simp [hrequested, hallowed] at h
    · simp [hrequested] at h

theorem validateConsent_spec {listing : ListingRow} {principal : Principal} {consented scopes : List String}
    (h : validateConsent listing consented principal = .ok scopes) :
    scopes ≠ [] ∧ (∀ p ∈ consented, p ∈ listing.requestedScopes ∧ isAllowed principal p = true) ∧
      ∀ p, p ∈ scopes ↔ p ∈ consented := by
  obtain ⟨resolved, hresolved, hrest⟩ := Finance.bind_ok.mp h
  obtain ⟨hall, hmem⟩ := resolveScopes_spec hresolved
  split_ifs at hrest with hempty
  cases hrest
  exact ⟨hempty, hall, fun p => by simp [hmem]⟩

end

end Noxara.Marketplace
