import Noxara.CrmRequests
import Noxara.Sessions

/-! API keys: exchanged for a short-lived access token that carries the scopes which the owner is
allowed at that time, and held to them by the CRM. -/
namespace Noxara.Workspace

open Authz
open Finance (Uuid Timestamp Formats AppError)

/-- Permissions that a third-party key may ask for. -/
def publicScopes : List PermissionId :=
  ["sales.customer.read", "sales.customer.create", "sales.customer.update", "sales.deal.read",
   "sales.deal.create", "sales.deal.update", "sales.quote.read", "sales.quote.create",
   "sales.quote.update", "finance.invoice.read", "finance.invoice.create", "finance.invoice.update",
   "finance.invoice.issue", "finance.invoice.send", "finance.payment.read", "finance.payment.create",
   "admin.api_key.manage", "admin.webhook.read", "admin.webhook.write", "admin.webhook.replay"]

def isPublicScope (scope : PermissionId) : Bool := scope ∈ publicScopes

structure ApiKeyRow where
  id : Uuid
  publicId : String
  scopes : Json
  expiresAt : Option Timestamp
  revokedAt : Option Timestamp
  createdBy : Uuid
  rateLimitPerMinute : Int

/-- The claims of a token that an API key was exchanged for, which says so by its id. -/
structure ApiKeyClaims extends AccessClaims where
  exp : Timestamp
  apiKeyId : Option String
  scopes : Option (List PermissionId)

structure ApiKeyExchangeResponse where
  accessToken : ApiKeyClaims
  apiKeyId : String
  scopes : List PermissionId
  rateLimitPerMinute : Int

/-- The scopes column; one that is not a list of texts counts as empty. -/
def requestedScopes (scopes : Json) : List PermissionId :=
  match scopes with
  | .array items => (items.mapM Json.asStr).getD []
  | _ => []

section
variable [TimeFormats]

def intersectPublicScopes (owner : Principal) (requested : List PermissionId) : List PermissionId :=
  (requested.filter isPublicScope).filter (isAllowed owner)

/-- Exchange the hash of a key for an access token. Keys are kept by their hash. -/
def exchange [Formats] [ConditionFormats] (s : Store) (apiKeys : Table String ApiKeyRow) (now : Timestamp)
    (jti : Uuid) (keyHash : String) : Except AppError ApiKeyExchangeResponse :=
  match apiKeys.find? keyHash with
  | none => .error (unauthorized "invalid API key")
  | some key =>
    if key.revokedAt.isSome then .error (unauthorized "API key revoked")
    else if key.expiresAt.any (· ≤ now) then .error (unauthorized "API key expired")
    else do
      let (ownerPrincipal, policyVersion, membershipId) ← loadPrincipal s now key.createdBy
      let effective := intersectPublicScopes ownerPrincipal (requestedScopes key.scopes)
      if effective = [] then .error (forbidden "API key scopes do not intersect owner permissions")
      else return {
        accessToken := ⟨⟨publicIdStr .user key.createdBy, key.createdBy, membershipId, [], policyVersion,
          key.id, key.id, jti⟩, now + 5 * 60, some key.publicId, some effective⟩
        apiKeyId := key.publicId
        scopes := effective
        rateLimitPerMinute := key.rateLimitPerMinute }

/-- Who calls with a token of an API key: the membership is looked at, there is no session. -/
def fromApiKeyJwt (s : Store) (claims : ApiKeyClaims) : Except AppError AuthCtx :=
  match (s.memberships.find? claims.userId).filter (·.id = claims.membershipId) with
  | none => .error (unauthorized "membership not found")
  | some m =>
    if m.revokedAt.isSome ∨ m.status ≠ .active then .error (unauthorized "membership not active")
    else .ok ⟨claims.userId, claims.membershipId, m.policyVersion, claims.scopes, claims.apiKeyId⟩

/-- A request to the CRM with such a token, as far as its permission check. -/
def crmRequest (s : Store) (claims : ApiKeyClaims) (h : CrmHandler) (row : Option (Option Uuid)) :
    Except AppError Unit := do
  let auth ← fromApiKeyJwt s claims
  h.authorize s auth row

variable {s : Store} {claims : ApiKeyClaims} {p : PermissionId}

theorem mem_intersectPublicScopes {owner : Principal} {requested : List PermissionId} :
    p ∈ intersectPublicScopes owner requested ↔
      p ∈ requested ∧ isPublicScope p = true ∧ owner.Allows p .organization .default := by
  rw [intersectPublicScopes, List.mem_filter, List.mem_filter, Principal.isAllowed_iff, and_assoc]

theorem exchange_scopes [Formats] [ConditionFormats] {keys : Table String ApiKeyRow} {now : Timestamp}
    {jti : Uuid} {keyHash : String} {resp : ApiKeyExchangeResponse}
    (h : exchange s keys now jti keyHash = .ok resp) :
    resp.accessToken.scopes = some resp.scopes ∧
      ∃ m, activeMembership s resp.accessToken.userId = .ok m ∧ ∀ p ∈ resp.scopes,
        isPublicScope p = true ∧ (principalOf s now m).Allows p .organization .default := by
  unfold exchange at h
  cases hkey : keys.find? keyHash with
  | none =>
    rw [hkey] at h
    cases h
  | some key =>
    simp only [hkey] at h
    split_ifs at h
    unfold loadPrincipal at h
    cases hm : activeMembership s key.createdBy with
    | error e =>
      rw [hm] at h
      cases h
    | ok m =>
      simp only [hm, bind, Except.bind, pure, Except.pure] at h
      split_ifs at h
      cases h
      exact ⟨rfl, m, hm, fun p hp => (mem_intersectPublicScopes.mp hp).2⟩

omit [TimeFormats] in
theorem fromApiKeyJwt_ok {auth : AuthCtx} (h : fromApiKeyJwt s claims = .ok auth) :
    auth.userId = claims.userId ∧ auth.apiKeyScopes = claims.scopes ∧
      ∃ m, activeMembership s claims.userId = .ok m := by
  unfold fromApiKeyJwt at h
  cases hm : (s.memberships.find? claims.userId).filter (·.id = claims.membershipId) with
  | none =>
    rw [hm] at h
    cases h
  | some m =>
    simp only [hm] at h
    split_ifs at h with hactive
    cases h
    obtain ⟨hfind, _⟩ := Option.filter_eq_some_iff.mp hm
    rw [not_or, not_not] at hactive
    refine ⟨rfl, rfl, m, activeMembership_eq_ok.mpr ⟨hfind, by simpa using hactive.1, hactive.2⟩⟩

/-- A token from an API key gets no further than an active owner, and at deals and quotes no further than
its own scopes, which are public and were allowed to the owner at the exchange. At leads and imports it
gets no further than the owner's own principal does. -/
theorem crmRequest_confined [Formats] [ConditionFormats] {s₀ s : Store} {keys : Table String ApiKeyRow}
    {now : Timestamp} {jti : Uuid} {keyHash : String} {resp : ApiKeyExchangeResponse}
    (hx : exchange s₀ keys now jti keyHash = .ok resp) (h : CrmHandler) (row : Option (Option Uuid))
    (hpass : crmRequest s resp.accessToken h row = .ok ()) :
    ∃ m, activeMembership s resp.accessToken.userId = .ok m ∧
      (h.Restricts → h.gate.permission ∈ resp.scopes ∧ isPublicScope h.gate.permission = true ∧
        ∃ m₀, activeMembership s₀ resp.accessToken.userId = .ok m₀ ∧
          (principalOf s₀ now m₀).Allows h.gate.permission .organization .default) ∧
      (¬h.Restricts → ∃ required, (crmPrincipalOf s m).Allows h.gate.permission required .default) := by
  obtain ⟨hscopes, m₀, hm₀, hallowed⟩ := exchange_scopes hx
  unfold crmRequest at hpass
  cases hauth : fromApiKeyJwt s resp.accessToken with
  | error e =>
    rw [hauth] at hpass
    cases hpass
  | ok auth =>
    obtain ⟨huser, hkey, m, hm⟩ := fromApiKeyJwt_ok hauth
    simp only [hauth, bind, Except.bind, CrmHandler.authorize, loadMembershipScopeFor,
      loadMembershipScope, huser, hm, hkey, hscopes, pure, Except.pure] at hpass
    refine ⟨m, hm, fun hres => ?_, fun hres => ?_⟩
    · have hloader : h.gate.loader = .membershipScopeFor := hres
      rw [hloader] at hpass
      obtain ⟨required, hallow⟩ := Check.allows_of_run hpass
      have hin := Principal.fromPermissionIds_allows.mp hallow
      exact ⟨hin, (hallowed _ hin).1, m₀, hm₀, (hallowed _ hin).2⟩
    · have hloader : h.gate.loader = .membershipScope := by
        cases hl : h.gate.loader with
        | membershipScope => rfl
        | membershipScopeFor => exact absurd hl hres
      rw [hloader] at hpass
      exact Check.allows_of_run hpass

end

/-- The organisation of one member with the role, and a key of that member for updating deals. -/
def keyOwner (role : Role) : Store := { Store.empty with
  memberships := Table.empty.insert 1 ⟨101, "mem_a", role, none, none, none, 1, .active, none, none⟩ }

def dealKey : Table String ApiKeyRow := Table.empty.insert "hash"
  ⟨7, "key_7", .array [.string "sales.deal.update"], none, none, 1, 60⟩

/-- The key of a salesperson who has become a reader still updates deals. -/
theorem crmRequest_exceeds_owner :
    letI := Finance.canonicalFormats
    letI := canonicalConditionFormats
    letI := canonicalTimeFormats
    ∃ (s₀ s : Store) (keys : Table String ApiKeyRow) (now : Timestamp) (jti : Uuid) (keyHash : String)
      (resp : ApiKeyExchangeResponse) (h : CrmHandler) (row : Option (Option Uuid)),
      exchange s₀ keys now jti keyHash = .ok resp ∧ crmRequest s resp.accessToken h row = .ok () ∧
      ¬∃ m required, activeMembership s resp.accessToken.userId = .ok m ∧
        (crmPrincipalOf s m).Allows h.gate.permission required .default := by
  let := Finance.canonicalFormats
  let := canonicalConditionFormats
  let := canonicalTimeFormats
  have hcheck : (exchange (keyOwner .sales) dealKey 0 9 "hash").toOption.any (fun resp =>
      resp.accessToken.userId = 1 &&
        (crmRequest (keyOwner .readOnly) resp.accessToken .updateDeal (some (some 1))).toOption.isSome) =
      true := by
    decide +kernel
  cases hx : exchange (keyOwner .sales) dealKey 0 9 "hash" with
  | error e => simp [hx, Except.toOption] at hcheck
  | ok resp =>
    rw [hx] at hcheck
    obtain ⟨huser, hpass⟩ : resp.accessToken.userId = 1 ∧
        (crmRequest (keyOwner .readOnly) resp.accessToken .updateDeal (some (some 1))).toOption.isSome =
          true := by simpa [Except.toOption] using hcheck
    refine ⟨_, keyOwner .readOnly, dealKey, 0, 9, "hash", resp, .updateDeal, some (some 1), hx, ?_, ?_⟩
    · cases hr : crmRequest (keyOwner .readOnly) resp.accessToken .updateDeal (some (some 1)) with
      | error e => simp [hr, Except.toOption] at hpass
      | ok u => rfl
    · rintro ⟨m, required, hm, hallow⟩
      rw [huser] at hm
      obtain rfl : m = ⟨101, "mem_a", .readOnly, none, none, none, 1, .active, none, none⟩ := by
        obtain ⟨hfind, -, -⟩ := activeMembership_eq_ok.mp hm
        exact (Option.some.inj hfind).symm
      revert hallow
      cases required <;> decide +kernel

/-- The same key while its owner still sells. -/
theorem crmRequest_confined_sales :
    letI := Finance.canonicalFormats
    letI := canonicalConditionFormats
    letI := canonicalTimeFormats
    ∃ resp, exchange (keyOwner .sales) dealKey 0 9 "hash" = .ok resp ∧
      crmRequest (keyOwner .sales) resp.accessToken .updateDeal (some none) = .ok () ∧
      CrmHandler.updateDeal.gate.permission ∈ resp.scopes := by
  let := Finance.canonicalFormats
  let := canonicalConditionFormats
  let := canonicalTimeFormats
  have hcheck : (exchange (keyOwner .sales) dealKey 0 9 "hash").toOption.any (fun resp =>
      (crmRequest (keyOwner .sales) resp.accessToken .updateDeal (some none)).toOption.isSome) = true := by
    decide +kernel
  cases hx : exchange (keyOwner .sales) dealKey 0 9 "hash" with
  | error e => simp [hx, Except.toOption] at hcheck
  | ok resp =>
    rw [hx] at hcheck
    cases hr : crmRequest (keyOwner .sales) resp.accessToken .updateDeal (some none) with
    | error e => simp [hr, Except.toOption] at hcheck
    | ok u =>
      obtain ⟨m, _, hrestricts, _⟩ := crmRequest_confined hx .updateDeal (some none) hr
      exact ⟨resp, rfl, hr, (hrestricts (by decide)).1⟩

end Noxara.Workspace
